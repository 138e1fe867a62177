import CertAuthority.Proofs.Text.Armor
import CertAuthority.Proofs.X509.Agreement

/-!
# Revocation lists in files

A file with a revocation list is text or DER, and what is in armor is always taken for text. So a
list that is written as DER is loaded again unless a block in armor stands in it, in the name of its
issuer say.

* `HoldsText` : bytes that are never read as DER;
* `listInfo_of_loadList`, `whole_of_listInfo` : what is known of a list that was loaded;
* `loadList_encodeArtifact` : what is written is loaded again;
* `of_signDraft_list` : what is known of a list that was signed.
-/

namespace CertAuthority.X509

open Der

variable {b data der : Bytes} {i : CertificateInfo} {a : LoadedArtifact} {c : Certificate}
  {encoding : Encoding}

/-- There is a block in armor somewhere in the bytes. -/
def HoldsText (b : Bytes) : Prop := (Armor.first? b).isSome = true

instance : DecidablePred HoldsText := fun _ => inferInstanceAs (Decidable (_ = true))

/-! ## Loaded lists -/

theorem listInfo_of_loadList (h : loadList b = .ok a) :
    listInfo a.certificate.encoded = .ok a.certificate.info := by
  simp only [loadList, Outcome.bind_eq_ok_iff] at h
  obtain ⟨der, -, info, hinfo, h⟩ := h
  rw [← Except.ok.inj h]
  exact hinfo

theorem artifact_of_listInfo (h : listInfo der = .ok i) : i.artifact = .crl := by
  unfold listInfo at h
  split at h
  · rw [← Except.ok.inj h]
    rfl
  · cases h

/-- Dates that are read have no fractions of a second. -/
theorem Date.nanos_of_parser {t : Instant} {r : Rules} {rest : Bytes}
    (h : Date.parser r b = some (t, rest)) : t.nanos = 0 := by
  have hafter {year : Int} {cs : List Char} (h : Date.afterYear? year cs = some t) :
      t.nanos = 0 := by
    simp only [Date.afterYear?, Option.bind_eq_bind, Option.bind_eq_some_iff] at h
    obtain ⟨_, -, _, -, _, -, _, -, _, -, _, -, h⟩ := h
    split at h
    · rw [← Option.some.inj h]
      rfl
    · cases h
  obtain ⟨e, _, -, h⟩ := bind_eq_some_iff.1 h
  cases hcontent : Date.ofContent? e.tag e.content with
  | none =>
    rw [hcontent] at h
    cases h
  | some t' =>
    rw [hcontent] at h
    obtain ⟨rfl, -⟩ := pure_eq_some_iff.1 h
    simp only [Date.ofContent?, Option.bind_eq_bind, Option.bind_eq_some_iff] at hcontent
    obtain ⟨_, -, hcontent⟩ := hcontent
    split at hcontent
    · obtain ⟨_, -, hcontent⟩ := Option.bind_eq_some_iff.1 hcontent
      exact hafter hcontent
    · split at hcontent
      · obtain ⟨_, -, hcontent⟩ := Option.bind_eq_some_iff.1 hcontent
        exact hafter hcontent
      · cases hcontent

theorem RevocationListForm.nanos_of_parse? {f : RevocationListForm} (h : parse? der = some f) :
    ∀ e ∈ f.revoked, e.date.nanos = 0 := by
  obtain ⟨⟨f, _⟩, hread, rfl⟩ := Option.map_eq_some_iff.1 h
  simp only [Parser.runOn, inSequence, fields, bind_eq_some_iff, within_eq_some_iff] at hread
  obtain ⟨_, _, -, ⟨_, e, _, -, hread⟩, -⟩ := hread
  split at hread
  · simp only [bind_eq_some_iff, within_eq_some_iff, pure_eq_some_iff] at hread
    obtain ⟨form, _, ⟨⟨_, hsigned⟩, -⟩, _, _, -, _, _, -, rfl, -⟩ := hread
    simp only [signedFields, bind_eq_some_iff, pure_eq_some_iff] at hsigned
    obtain ⟨_, _, -, _, _, -, _, _, -, _, _, -, _, _, -, listed, _, hlisted, _, _, -, rfl, -⟩ :=
      hsigned
    show ∀ e ∈ listed.getD [], e.date.nanos = 0
    unfold optionally at hlisted
    split at hlisted
    · rename_i es _ hes
      obtain ⟨rfl, -⟩ := Prod.mk.inj (Option.some.inj hlisted)
      obtain ⟨_, _, -, hes⟩ := bind_eq_some_iff.1 hes
      obtain ⟨found, _, hmany, hes⟩ := bind_eq_some_iff.1 hes
      obtain ⟨⟨_, hmany⟩, -⟩ := within_eq_some_iff.1 hmany
      split at hes
      · cases hes
      · obtain ⟨rfl, -⟩ := pure_eq_some_iff.1 hes
        refine forall_of_manyToEnd (fun {b e b'} hentry => ?_) hmany
        simp only [entry, inSequence, bind_eq_some_iff, within_eq_some_iff, pure_eq_some_iff]
          at hentry
        obtain ⟨_, _, -, ⟨_, _, _, -, _, _, hdate, _, _, -, rfl, -⟩, -⟩ := hentry
        exact Date.nanos_of_parser hdate
    · obtain ⟨rfl, -⟩ := Prod.mk.inj (Option.some.inj hlisted)
      exact fun e he => absurd he List.not_mem_nil
  · cases hread

/-- The revocation dates of a list that is read have no fractions of a second. -/
theorem whole_of_listInfo (h : listInfo der = .ok i) :
    ∀ e ∈ i.revoked, e.revocationDate.nanos = 0 := by
  unfold listInfo at h
  split at h
  · rename_i f hf
    rw [← Except.ok.inj h]
    intro e he
    obtain ⟨x, hx, rfl⟩ := List.mem_map.1 he
    exact RevocationListForm.nanos_of_parse? hf x hx
  · cases h

/-! ## Written lists -/

theorem isLabel_list : Armor.IsLabel labelList := ⟨by decide, by with_unfolding_all decide⟩

/-- A list that was written is loaded again, unless DER is taken for text. -/
theorem loadList_encodeArtifact {m : Moment} (hi : listInfo c.encoded = .ok i)
    (hkind : c.info.artifact = .crl) (h : encodeArtifact m c encoding {} = .ok data)
    (hplain : encoding = .der → ¬ HoldsText c.encoded) :
    loadList data = .ok { certificate := ⟨c.encoded, i⟩, encoding } := by
  cases encoding with
  | pem =>
    obtain rfl : Armor.encode labelList c.encoded = data := by
      rw [encodeArtifact, hkind] at h
      exact (List.append_nil _).symm.trans (Except.ok.inj h)
    have hfirst := Armor.first?_encode isLabel_list c.encoded []
    rw [List.append_nil] at hfirst
    simp only [loadList, unarmored, hfirst, Outcome.bind_eq_ok_iff]
    exact ⟨_, rfl, i, hi, rfl⟩
  | der =>
    obtain rfl : c.encoded = data := Except.ok.inj h
    have hfirst : Armor.first? c.encoded = none :=
      Option.not_isSome_iff_eq_none.1 (hplain rfl)
    simp only [loadList, unarmored, hfirst, Outcome.bind_eq_ok_iff]
    exact ⟨_, rfl, i, hi, rfl⟩
  | pkcs7 =>
    simp only [encodeArtifact, hkind] at h
    cases h
  | pkcs12 =>
    simp only [encodeArtifact, hkind] at h
    cases h
  | openssh => cases h

/-- A list is drafted with the number that is asked for. -/
theorem serialNumber_of_buildDraft_list {m : Moment} {r : CertificateRequest} {subject : PublicKey}
    {signer : SignerIdentity} {d : Draft} (h : buildDraft m .crl r subject signer = .ok d) :
    d.info.serialNumber = some (r.serialNumber.getD firstListNumber) := by
  obtain ⟨_, _, _, _, f, -, -, -, -, hrenders, rfl⟩ := renders_of_buildDraft_list h
  exact hrenders.number

/-- What is known of a list that was signed: it has the entries of its draft and the number it was
given, and so it is read. -/
theorem of_signDraft_list {m : Moment} {r : CertificateRequest} {subject : PublicKey}
    {signer : SignerIdentity} {d : Draft} {number : SerialNumber} {key : PrivateKey}
    {digest : Option Digest} (hd : buildDraft m .crl r subject signer = .ok d)
    (hs : signDraft { d with info := { d.info with serialNumber := some number } } key digest =
      .ok c) :
    c.info.artifact = .crl ∧ c.info.serialNumber = some number ∧
      c.info.revoked = d.info.revoked ∧ ∃ i, listInfo c.encoded = .ok i ∧
        i.serialNumber = c.info.serialNumber ∧ i.revoked = c.info.revoked := by
  obtain ⟨-, -, -, hkind, -⟩ := digest_of_buildDraft hd
  obtain ⟨_, _, _, _, -, -, -, hinfo⟩ := signed_of_numbered_list hd hs
  obtain ⟨_, _, i, -, -, hread, hview⟩ := signing_of_signDraft hs
  have hlist : ArtifactKind.crl = d.info.artifact := hkind.symm
  refine ⟨by rw [hinfo, ← hlist], by rw [hinfo], by rw [hinfo], i, ?_, ?_⟩
  · rw [← hlist] at hread
    exact hread
  · rw [hview, if_pos hkind]
    exact ⟨rfl, rfl⟩

end CertAuthority.X509
