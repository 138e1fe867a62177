import CertAuthority.Proofs.Certificate.Drafts
import CertAuthority.Proofs.Certificate.Trials
import CertAuthority.Proofs.Text.Armor
import CertAuthority.Proofs.X509.SubjectKeys

/-!
# Loading what was handed on

Keys and certificates travel as armored text. Whoever loads them has the very same handles again.

* `Der.of_anyElement` : an element is read from its own bytes, whatever follows them;
* `IsHandle` : the handles of public keys, wherever they come from, and
  `loadPublicKey_encodePublicKey` about them;
* `IsStored` : the certificates that were loaded or signed, and `load_encodeArtifact` about them;
* `extractFirst?_eq` : what is taken out of a list is the first hit, and the others keep their order.
  So bundles put their certificates in order and lose none (`leafFirst_perm`).
-/

namespace CertAuthority

/-! ## Elements -/

namespace Der

variable {r : Rules} {b content rest : Bytes} {n : Nat} {e : Element}

/-- A length is read from its own bytes, whatever follows them. -/
theorem of_takeLength (h : takeLength r b = some (n, content)) :
    ∃ octets, b = octets ++ content ∧ ∀ more, takeLength r (octets ++ more) = some (n, more) := by
  cases b with
  | nil => cases h
  | cons first b =>
    unfold takeLength at h
    dsimp only at h
    split at h
    · rename_i hshort
      obtain ⟨rfl, rfl⟩ := Prod.mk.inj (Option.some.inj h)
      exact ⟨[first], rfl, fun more => if_pos hshort⟩
    · rename_i hlong
      split at h
      · cases h
      · rename_i hsize
        split at h
        · cases h
        · rename_i hminimal
          obtain ⟨rfl, rfl⟩ := Prod.mk.inj (Option.some.inj h)
          simp only [not_or, Nat.not_lt] at hsize
          refine ⟨first :: b.take (first.toNat - 128), by simp, fun more => ?_⟩
          have hlength : (b.take (first.toNat - 128)).length = first.toNat - 128 := by
            rw [List.length_take]
            exact Nat.min_eq_left hsize.2.2
          rw [List.cons_append, takeLength, if_neg hlong]
          dsimp only
          rw [List.take_left' hlength, List.drop_left' hlength, if_neg, if_neg hminimal]
          rw [List.length_append, hlength]
          omega

/-- An element is read from its own bytes, whatever follows them. -/
theorem of_anyElement (h : anyElement r b = some (e, rest)) :
    b = e.raw ++ rest ∧ ∀ more, anyElement r (e.raw ++ more) = some (e, more) := by
  cases b with
  | nil => cases h
  | cons tag b =>
    unfold anyElement at h
    dsimp only at h
    split at h
    · cases h
    · rename_i htag
      split at h
      · cases h
      · rename_i n content hlength
        split at h
        · cases h
        · rename_i henough
          obtain ⟨rfl, rfl⟩ := Prod.mk.inj (Option.some.inj h)
          obtain ⟨octets, rfl, hread⟩ := of_takeLength hlength
          have hle : n ≤ content.length := Nat.not_lt.1 henough
          have hraw : (tag :: (octets ++ content)).take
              ((tag :: (octets ++ content)).length - (content.length - n)) =
                tag :: (octets ++ content.take n) := by
            have hcount : (tag :: (octets ++ content)).length - (content.length - n) =
                (octets.length + n) + 1 := by
              simp only [List.length_cons, List.length_append]
              omega
            rw [hcount, List.take_succ_cons, List.take_length_add_append]
          have hsize : (content.take n).length = n := List.length_take_of_le hle
          rw [hraw]
          refine ⟨by simp, fun more => ?_⟩
          have hmore : (tag :: (octets ++ (content.take n ++ more))).take
              ((tag :: (octets ++ (content.take n ++ more))).length -
                ((content.take n ++ more).length - n)) = tag :: (octets ++ content.take n) := by
            have hcount : (tag :: (octets ++ (content.take n ++ more))).length -
                ((content.take n ++ more).length - n) = (octets ++ content.take n).length + 1 := by
              simp only [List.length_cons, List.length_append]
              omega
            rw [hcount, List.take_succ_cons, ← List.append_assoc, List.take_left]
          have hfits : ¬ (content.take n ++ more).length < n := by
            rw [List.length_append]
            omega
          simp only [List.cons_append, List.append_assoc, anyElement, if_neg htag, hread,
            if_neg hfits, hmore, List.take_left' hsize, List.drop_left' hsize]

/-- The bytes of an element that was read are read as that element. -/
theorem anyElement_raw (h : anyElement r b = some (e, rest)) :
    anyElement r e.raw = some (e, []) := by
  have hread := (of_anyElement h).2 []
  rwa [List.append_nil] at hread

end Der

/-! ## Public keys -/

namespace X509

open Der

/-- The handle of a key, with its bytes as they came in. -/
def IsHandle (k : PublicKey) : Prop :=
  ∃ skey, SubjectKey.ofEncoded k.encoded = .ok skey ∧ k = ⟨.x509, skey.algorithm, k.encoded⟩

variable {k : PublicKey} {key : PrivateKey} {b : Bytes} {c : Certificate}

theorem SubjectKey.ofEncoded_of_parse? {der : Bytes} {i : KeyInfo} {a : KeyAlgorithm}
    (hi : KeyInfo.parser.parse? .tolerant der = some i) (ha : i.algorithm? = some a) :
    ofEncoded der = .ok ⟨a, i.bits⟩ := by
  simp only [ofEncoded, hi, ha, Option.bind_some, Option.map_some]

theorem isHandle_of_loadPublicKey (h : loadPublicKey b = .ok k) : IsHandle k := by
  simp only [loadPublicKey, Outcome.bind_eq_ok_iff] at h
  obtain ⟨der, -, skey, hskey, h⟩ := h
  rw [← Except.ok.inj h]
  exact ⟨skey, hskey, rfl⟩

theorem isHandle_of_derivePublicKey {passphrase : Option String}
    (hload : loadPrivateKey b passphrase = .ok key) (h : derivePublicKey key = .ok k) :
    IsHandle k := by
  simp only [loadPrivateKey, Outcome.bind_eq_ok_iff] at hload
  obtain ⟨der, -, hload⟩ := hload
  split at hload
  · rename_i s hs
    obtain rfl := Except.ok.inj hload
    have hsigning : signingKey ⟨.x509, s.algorithm, der⟩ = .ok s := by rw [signingKey, hs]
    have hread := SubjectKey.ofEncoded_of_parse? (parse?_derived hsigning h)
      s.subjectKey.algorithm?_info
    rw [derivePublicKey, hsigning] at h
    rw [← Except.ok.inj h] at hread ⊢
    exact ⟨_, hread, rfl⟩
  · cases hload

/-- The bytes of a key that was read are read as that key. -/
theorem KeyInfo.parser_raw {r : Rules} {rest : Bytes} {i : KeyInfo}
    (h : parser r b = some (i, rest)) : parser r i.raw = some (i, []) := by
  obtain ⟨e, _, he, h⟩ := bind_eq_some_iff.1 h
  split at h
  · rename_i htag
    obtain ⟨⟨identifier, bits⟩, _, hfields, h⟩ := bind_eq_some_iff.1 h
    obtain ⟨rfl, rfl⟩ := pure_eq_some_iff.1 h
    refine bind_eq_some_iff.2 ⟨e, [], anyElement_raw he, ?_⟩
    rw [if_pos htag]
    refine bind_eq_some_iff.2 ⟨(identifier, bits), [], ?_, rfl⟩
    exact within_eq_some_iff.2 ⟨(within_eq_some_iff.1 hfields).1, rfl⟩
  · cases h

theorem isHandle_of_handle {rest : Bytes} {i : KeyInfo}
    (hread : KeyInfo.parser .tolerant b = some (i, rest)) (h : i.handle = .ok k) : IsHandle k := by
  unfold KeyInfo.handle at h
  split at h
  · rename_i a ha
    rw [← Except.ok.inj h]
    have hraw : KeyInfo.parser.parse? .tolerant i.raw = some i :=
      congrArg (Option.map Prod.fst) (KeyInfo.parser_raw hread)
    exact ⟨_, SubjectKey.ofEncoded_of_parse? hraw ha, rfl⟩
  · cases h

theorem RequestForm.exists_of_parse? {f : RequestForm} (h : parse? b = some f) :
    ∃ stored rest, KeyInfo.parser .tolerant stored = some (f.key, rest) := by
  obtain ⟨⟨f, _⟩, hread, rfl⟩ := Option.map_eq_some_iff.1 h
  simp only [Parser.runOn, inSequence, fields, bind_eq_some_iff, within_eq_some_iff] at hread
  obtain ⟨_, _, -, ⟨_, e, _, -, hread⟩, -⟩ := hread
  split at hread
  · simp only [bind_eq_some_iff, within_eq_some_iff, pure_eq_some_iff] at hread
    obtain ⟨⟨_, key, _⟩, _, ⟨⟨_, hsigned⟩, -⟩, _, _, -, _, _, -, rfl, -⟩ := hread
    simp only [signedFields, bind_eq_some_iff, pure_eq_some_iff, Prod.mk.injEq] at hsigned
    obtain ⟨_, _, -, _, _, -, _, _, hkey, _, _, -, ⟨-, rfl, -⟩, -⟩ := hsigned
    exact ⟨_, _, hkey⟩
  · cases hread

theorem isHandle_of_loadRequest (h : loadRequest b = .ok c) : IsHandle c.info.publicKey := by
  simp only [loadRequest, Outcome.bind_eq_ok_iff] at h
  obtain ⟨der, -, info, hinfo, h⟩ := h
  rw [← Except.ok.inj h]
  simp only [requestInfo] at hinfo
  split at hinfo
  · rename_i f hf
    simp only [RequestForm.info, Outcome.bind_eq_ok_iff] at hinfo
    obtain ⟨key, hkey, hinfo⟩ := hinfo
    rw [← Except.ok.inj hinfo]
    obtain ⟨_, _, hread⟩ := RequestForm.exists_of_parse? hf
    exact isHandle_of_handle hread hkey
  · cases hinfo

/-- The key of a handle is loaded again from its text. -/
theorem loadPublicKey_encodePublicKey (h : IsHandle k) :
    loadPublicKey (encodePublicKey k) = .ok k := by
  obtain ⟨skey, hskey, hk⟩ := h
  have hlabel : Armor.IsLabel labelPublicKey := by
    refine ⟨by decide, by with_unfolding_all decide⟩
  have hfirst : Armor.first? (encodePublicKey k) = some ⟨labelPublicKey, k.encoded⟩ := by
    rw [encodePublicKey, ← List.append_nil (Armor.encode _ _)]
    exact Armor.first?_encode hlabel k.encoded []
  simp only [loadPublicKey, unarmored, hfirst, beq_self_eq_true, if_true, Outcome.bind_eq_ok_iff]
  exact ⟨_, rfl, skey, hskey, congrArg Except.ok hk.symm⟩

/-! ## Certificates -/

/-- The view of the certificate is what its bytes show. -/
def IsStored (c : Certificate) : Prop := loadCertificate c.encoded = .ok c

theorem loadCertificate_eq_ok_iff : loadCertificate b = .ok c ↔ b = c.encoded ∧ IsStored c := by
  constructor
  · intro h
    obtain ⟨info, hinfo, hc⟩ := Outcome.map_eq_ok_iff.1 h
    rw [IsStored, ← hc]
    exact ⟨rfl, Outcome.map_eq_ok_iff.2 ⟨info, hinfo, rfl⟩⟩
  · rintro ⟨rfl, h⟩
    exact h

theorem IsStored.artifact (h : IsStored c) : c.info.artifact = .certificate := by
  obtain ⟨info, hinfo, hc⟩ := Outcome.map_eq_ok_iff.1 h
  rw [← hc]
  simp only [certificateInfo] at hinfo
  split at hinfo
  · simp only [CertificateForm.info, Outcome.bind_eq_ok_iff] at hinfo
    obtain ⟨_, -, hinfo⟩ := hinfo
    rw [← Except.ok.inj hinfo]
  · cases hinfo

theorem isStored_of_mapM {ders : List Bytes} {cs : List Certificate}
    (h : ders.mapM loadCertificate = .ok cs) : ∀ c ∈ cs, IsStored c := by
  refine (Outcome.of_mapM (g := Certificate.encoded) (k := id) (fun der _ c hc => ?_) h).1
  exact ⟨(loadCertificate_eq_ok_iff.1 hc).2, (loadCertificate_eq_ok_iff.1 hc).1.symm⟩

theorem mapM_loadCertificate {cs : List Certificate} (h : ∀ c ∈ cs, IsStored c) :
    (cs.map Certificate.encoded).mapM loadCertificate = .ok cs := by
  induction cs with
  | nil => rfl
  | cons c cs ih =>
    rw [List.forall_mem_cons] at h
    simp only [List.map_cons, List.mapM_cons, Outcome.bind_eq_ok_iff]
    exact ⟨c, h.1, cs, ih h.2, rfl⟩

theorem extractFirst?_eq {α : Type} [DecidableEq α] (p : α → Bool) (as : List α) :
    extractFirst? p as = (as.find? p).map fun a => (a, as.erase a) := by
  induction as with
  | nil => rfl
  | cons a as ih =>
    unfold extractFirst?
    split
    · rename_i hp
      rw [List.find?_cons_of_pos hp, Option.map_some, List.erase_cons_head]
    · rename_i hp
      rw [List.find?_cons_of_neg hp, ih, Option.map_map]
      cases hfound : as.find? p with
      | none => rfl
      | some b =>
        have hne : a ≠ b := by
          rintro rfl
          exact hp (List.find?_some hfound)
        simp [List.erase_cons_tail, hne]

theorem extractFirst?_eq_some_iff {α : Type} [DecidableEq α] {p : α → Bool} {as rest : List α}
    {a : α} : extractFirst? p as = some (a, rest) ↔ as.find? p = some a ∧ rest = as.erase a := by
  rw [extractFirst?_eq]
  cases as.find? p <;> grind

theorem extractFirst?_eq_none_iff {α : Type} [DecidableEq α] {p : α → Bool} {as : List α} :
    extractFirst? p as = none ↔ ∀ a ∈ as, ¬ p a := by
  rw [extractFirst?_eq, Option.map_eq_none_iff, List.find?_eq_none]

/-- Taking an item out leaves the others. -/
theorem perm_of_extractFirst? {α : Type} {p : α → Bool} {as rest : List α} {a : α}
    (h : extractFirst? p as = some (a, rest)) : as.Perm (a :: rest) := by
  classical
  obtain ⟨hfound, rfl⟩ := extractFirst?_eq_some_iff.1 h
  exact List.perm_cons_erase (List.mem_of_find?_eq_some hfound)

theorem issuersFirst_perm (c : Certificate) (others : List Certificate) :
    (issuersFirst c others).Perm others := by
  fun_induction issuersFirst c others with
  | case1 => exact .refl _
  | case2 => exact .refl _
  | case3 c others _ next rest hnext ih =>
    exact (ih.cons next).trans (perm_of_extractFirst? hnext).symm

/-- The certificates of a bundle are put in order, and none is lost. -/
theorem leafFirst_perm (cs : List Certificate) : (leafFirst cs).Perm cs := by
  unfold leafFirst
  split
  · exact .refl _
  · rename_i leaf rest hleaf
    exact ((issuersFirst_perm leaf rest).cons leaf).trans (perm_of_extractFirst? hleaf).symm

theorem isStored_of_decodeBundle {a : LoadedArtifact} (h : decodeBundle b = .ok a) :
    ∀ c ∈ a.certificate :: a.chain, IsStored c := by
  simp only [decodeBundle, Outcome.bind_eq_ok_iff] at h
  obtain ⟨der, -, h⟩ := h
  split at h
  · cases h
  · split at h
    · cases h
    · simp only [Outcome.bind_eq_ok_iff] at h
      obtain ⟨cs, hcs, h⟩ := h
      split at h
      · cases h
      · rename_i leaf chain hleaf
        rw [← Except.ok.inj h]
        intro c hc
        exact isStored_of_mapM hcs c ((leafFirst_perm cs).mem_iff.1 (hleaf ▸ hc))

theorem isStored_of_decodeStore {passphrase : Option String} {a : LoadedArtifact}
    (h : decodeStore b passphrase = .ok a) : ∀ c ∈ a.certificate :: a.chain, IsStored c := by
  unfold decodeStore at h
  split at h
  · cases h
  · simp only [Outcome.bind_eq_ok_iff] at h
    obtain ⟨⟨s, isProtected⟩, -, h⟩ := h
    dsimp only at h
    split at h
    · cases h
    · simp only [Outcome.bind_eq_ok_iff] at h
      obtain ⟨chain, hchain, leaf, hleaf, h⟩ := h
      rw [← Except.ok.inj h]
      exact List.forall_mem_cons.2
        ⟨(loadCertificate_eq_ok_iff.1 hleaf).2, isStored_of_mapM hchain⟩

theorem isStored_of_decodeArtifact {encoding : Encoding} {passphrase : Option String}
    {a : LoadedArtifact} (h : decodeArtifact b encoding passphrase = .ok a) :
    ∀ c ∈ a.certificate :: a.chain, IsStored c := by
  unfold decodeArtifact at h
  split at h
  · exact isStored_of_decodeBundle h
  · exact isStored_of_decodeStore h
  · simp only [Outcome.bind_eq_ok_iff] at h
    obtain ⟨ders, -, cs, hcs, h⟩ := h
    split at h
    · cases h
    · rw [← Except.ok.inj h]
      exact isStored_of_mapM hcs

theorem forall_isStored_of_load {passphrase : Option String} {a : LoadedArtifact}
    (h : Backend.x509.load b passphrase = .ok a) : ∀ c ∈ a.certificate :: a.chain, IsStored c := by
  obtain ⟨_, -, hdecode⟩ := Backend.exists_of_load h
  exact isStored_of_decodeArtifact hdecode

theorem isStored_of_load {passphrase : Option String} {a : LoadedArtifact}
    (h : Backend.x509.load b passphrase = .ok a) : IsStored a.certificate :=
  forall_isStored_of_load h _ List.mem_cons_self

theorem isStored_of_signDraft {m : Moment} {r : CertificateRequest} {signer : SignerIdentity}
    {d : Draft} {digest : Option Digest} (hd : buildDraft m .certificate r k signer = .ok d)
    (hs : signDraft d key digest = .ok c) : IsStored c := by
  obtain ⟨-, hkind⟩ := publicKey_of_buildDraft hd
  obtain ⟨_, _, info, -, -, hinfo, hc⟩ := signing_of_signDraft hs
  rw [hkind] at hinfo hc
  rw [if_neg nofun] at hc
  exact Outcome.map_eq_ok_iff.2 ⟨info, hinfo, by rw [← hc]⟩

/-- The key in a certificate is the subject's, if that is written as certificates hold it. -/
theorem certified_iff_of_isHandle {m : Moment} {r : CertificateRequest} {signer : SignerIdentity}
    {d : Draft} {digest : Option Digest} (hk : IsHandle k)
    (hd : buildDraft m .certificate r k signer = .ok d) (hs : signDraft d key digest = .ok c) :
    c.info.publicKey = k ↔
      ∀ skey, SubjectKey.ofEncoded k.encoded = .ok skey → k.encoded = skey.encode := by
  obtain ⟨skey, hskey, hkey⟩ := hk
  obtain ⟨_, hfound, hcertified⟩ := publicKey_of_signDraft hd hs
  obtain rfl := Except.ok.inj (hskey.symm.trans hfound)
  rw [hcertified]
  constructor
  · intro heq _ hfound
    obtain rfl := Except.ok.inj (hskey.symm.trans hfound)
    rw [← heq]
  · intro hstandard
    rw [hkey, hstandard skey hskey]

/-- A certificate is loaded again from its text, with those after it. -/
theorem load_encodeArtifact (m : Moment) (hc : IsStored c) {o : EncodeOptions}
    (hchain : ∀ extra ∈ o.chain, IsStored extra) (passphrase : Option String) :
    ∃ data, encodeArtifact m c .pem o = .ok data ∧
      Backend.x509.load data passphrase =
        .ok { certificate := c, encoding := .pem, chain := o.chain } := by
  have hlabel : Armor.IsLabel labelCertificate := ⟨by decide, by with_unfolding_all decide⟩
  let blocks := (c :: o.chain).map fun extra => ArmoredBlock.mk labelCertificate extra.encoded
  have hlabels : ∀ block ∈ blocks, block.label = labelCertificate := by
    intro block hblock
    obtain ⟨_, -, rfl⟩ := List.mem_map.1 hblock
    rfl
  have hall : Armor.all? (Armor.encodeAll blocks) = some blocks :=
    Armor.all?_encodeAll fun block hblock => hlabels block hblock ▸ hlabel
  have hread : decodeArtifact (Armor.encodeAll blocks) .pem passphrase =
      .ok { certificate := c, encoding := .pem, chain := o.chain } := by
    have hfile : fileCertificates (Armor.encodeAll blocks) .pem =
        .ok ((c :: o.chain).map Certificate.encoded) := by
      have hkept : blocks.filter (·.label == labelCertificate) = blocks :=
        List.filter_eq_self.2 fun block hblock => beq_iff_eq.2 (hlabels block hblock)
      simp only [fileCertificates, hall, hkept]
      simp [blocks]
    have hloaded := mapM_loadCertificate (List.forall_mem_cons.2 ⟨hc, hchain⟩)
    simp only [decodeArtifact, Outcome.bind_eq_ok_iff]
    exact ⟨_, hfile, _, hloaded, rfl⟩
  refine ⟨Armor.encodeAll blocks, ?_, ?_⟩
  · rw [encodeArtifact, hc.artifact]
    simp [blocks, Armor.encodeAll, labelOf, List.flatMap_map]
  · rw [Backend.load]
    simp only [Backend.x509, Encoding.x509LoadOrder, Backend.loadFrom, hread]

end X509
end CertAuthority
