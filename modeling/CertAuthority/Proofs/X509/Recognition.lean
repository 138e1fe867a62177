import CertAuthority.Proofs.X509.Loading

/-!
# Recognising text and DER

A file does not say in which encoding it is. The encodings are tried in turn, text before DER, and
text may have anything around its blocks. So a certificate in DER is recognised unless a whole text
of certificates stands in it.

* `Armor.all?_eq_nil` : bytes without the mark that opens a block;
* `TakenForText` : bytes that are read as text, whatever they were written as;
* `exists_load_encoded` : what a certificate in DER is loaded as;
* `exists_load_encodeArtifact` : what text or DER is loaded as.
-/

namespace CertAuthority

namespace Armor

/-- There are no blocks without the mark that opens them. -/
theorem all?_eq_nil {b : Bytes} (h : Bytes.splitAtInfix? beginMark b = none) :
    all? b = some [] := by
  have hframe : frame? b = none := by
    simp only [frame?, h, Option.bind_eq_bind, Option.bind_none]
  rw [all?]
  cases b.length with
  | zero => rfl
  | succ fuel =>
    rw [frames, hframe]
    rfl

/-- One block is found among bytes that are no dashes. -/
theorem all?_around {label : String} {before after : Bytes} (h : IsLabel label) (content : Bytes)
    (hbefore : (45 : UInt8) ∉ before) (hafter : (45 : UInt8) ∉ after) :
    all? (before ++ (encode label content ++ after)) = some [⟨label, content⟩] := by
  have hbegin : beginMark = 45 :: [45, 45, 45, 45, 66, 69, 71, 73, 78, 32] := by decide +kernel
  have hskip : frame? (before ++ (encode label content ++ after)) =
      frame? (encode label content ++ after) := by
    have hparts : encode label content ++ after =
        beginMark ++ (encode label content ++ after).drop beginMark.length := by
      rw [encode]
      simp
    have hnone : Bytes.splitAtInfix? beginMark
        ([] ++ (beginMark ++ (encode label content ++ after).drop beginMark.length)) =
          some ([], (encode label content ++ after).drop beginMark.length) :=
      Bytes.splitAtInfix?_append (x := 45) (by rw [hbegin]; rfl) (by simp) _
    rw [frame?, frame?, hparts, Bytes.splitAtInfix?_append (x := 45) (by rw [hbegin]; rfl) hbefore,
      ← List.nil_append (beginMark ++ _), hnone]
    rfl
  have hrest : Bytes.splitAtInfix? beginMark (after.dropWhile isBreak) = none := by
    rw [hbegin]
    exact Bytes.splitAtInfix?_eq_none fun hmem => hafter (List.dropWhile_sublist _ |>.subset hmem)
  have hnone : frame? (after.dropWhile isBreak) = none := by
    simp only [frame?, hrest, Option.bind_eq_bind, Option.bind_none]
  have hframes (fuel : Nat) : frames (fuel + 1) (before ++ (encode label content ++ after)) =
      [frameOf ⟨label, content⟩] := by
    rw [frames, hskip, frame?_encode h]
    cases fuel with
    | zero => rfl
    | succ fuel =>
      simp only [frames, hnone]
      rfl
  obtain ⟨fuel, hfuel⟩ : ∃ fuel, (before ++ (encode label content ++ after)).length = fuel + 1 := by
    refine Nat.exists_eq_succ_of_ne_zero ?_
    simp [encode]
  rw [all?, hfuel, hframes, List.mapM_cons, decode?_frameOf h]
  rfl

end Armor

namespace X509

open Der

variable {c : Certificate} {b data : Bytes} {encoding : Encoding} {passphrase : Option String}

/-! ## Failing to read -/

/-- Reading that fails says that it does not know the bytes. -/
def SaysUnrecognized {α : Type} (x : BackendResult α) : Prop :=
  ∀ fault, x = .error fault → ∃ what, fault = .error (.unrecognized what)

namespace SaysUnrecognized

variable {α β : Type} {x : BackendResult α} {f : α → BackendResult β}

theorem ok (a : α) : SaysUnrecognized (.ok a) := fun _ h => by cases h

theorem fail (what : String) : SaysUnrecognized (Outcome.fail (.unrecognized what) :
    BackendResult α) := fun _ h => ⟨what, (Except.error.inj h).symm⟩

theorem bind (hx : SaysUnrecognized x) (hf : ∀ a, SaysUnrecognized (f a)) :
    SaysUnrecognized (x >>= f) := Outcome.FailsOnly.bind hx hf

theorem mapM (hf : ∀ a, SaysUnrecognized (f a)) (as : List α) : SaysUnrecognized (as.mapM f) :=
  Outcome.FailsOnly.mapM hf as

end SaysUnrecognized

theorem saysUnrecognized_loadCertificate (der : Bytes) :
    SaysUnrecognized (loadCertificate der) := by
  have hinfo : SaysUnrecognized (certificateInfo der) := by
    unfold certificateInfo
    split
    · refine SaysUnrecognized.bind ?_ fun _ => .ok _
      unfold KeyInfo.handle
      split
      · exact .ok _
      · exact .fail _
    · exact .fail _
  have hmap : loadCertificate der = certificateInfo der >>= fun info => .ok ⟨der, info⟩ := by
    unfold loadCertificate
    cases certificateInfo der <;> rfl
  rw [hmap]
  exact hinfo.bind fun _ => .ok _

theorem saysUnrecognized_text (b : Bytes) (passphrase : Option String) :
    SaysUnrecognized (decodeArtifact b .pem passphrase) := by
  refine SaysUnrecognized.bind ?_ fun ders =>
    (SaysUnrecognized.mapM saysUnrecognized_loadCertificate ders).bind fun cs => ?_
  · simp only [fileCertificates]
    split
    · exact .ok _
    · exact .fail _
  · split
    · exact .fail _
    · exact .ok _

/-! ## Text -/

/-- There are blocks in the bytes, all of them whole, and what they hold as certificates are
certificates, one at least. -/
def TakenForText (b : Bytes) : Prop := ∃ a, decodeArtifact b .pem none = .ok a

/-- Bytes without the mark that opens a block are not taken for text. -/
theorem not_takenForText (h : Bytes.splitAtInfix? Armor.beginMark b = none) : ¬ TakenForText b := by
  rintro ⟨a, ha⟩
  simp only [decodeArtifact, fileCertificates, Armor.all?_eq_nil h, Outcome.bind_eq_ok_iff] at ha
  obtain ⟨_, hders, _, hcs, ha⟩ := ha
  obtain rfl := Except.ok.inj hders
  obtain rfl := Except.ok.inj hcs
  cases ha

/-- A certificate in armor is found among bytes that are no dashes. -/
theorem takenForText_around {before after : Bytes} (hc : IsStored c)
    (hbefore : (45 : UInt8) ∉ before) (hafter : (45 : UInt8) ∉ after) :
    TakenForText (before ++ (Armor.encode labelCertificate c.encoded ++ after)) := by
  have hlabel : Armor.IsLabel labelCertificate := ⟨by decide, by with_unfolding_all decide⟩
  have hload : [c.encoded].mapM loadCertificate = .ok [c] :=
    mapM_loadCertificate (List.forall_mem_singleton.2 hc)
  refine ⟨{ certificate := c, encoding := .pem }, ?_⟩
  simp only [decodeArtifact, fileCertificates, Armor.all?_around hlabel _ hbefore hafter,
    Outcome.bind_eq_ok_iff]
  exact ⟨[c.encoded], by simp, [c], hload, rfl⟩

/-! ## DER -/

/-- A certificate in DER is loaded as it is, unless it is taken for text. -/
theorem exists_load_encoded (hc : IsStored c) :
    ∃ a, (∀ passphrase, Backend.x509.load c.encoded passphrase = .ok a) ∧
      (TakenForText c.encoded → a.encoding = .pem) ∧
      (¬ TakenForText c.encoded → a = { certificate := c, encoding := .der }) := by
  by_cases htext : TakenForText c.encoded
  · obtain ⟨a, ha⟩ := htext
    refine ⟨a, fun passphrase => ?_, fun _ => ?_, fun hnot => absurd ⟨a, ha⟩ hnot⟩
    · have hread : decodeArtifact c.encoded .pem passphrase = .ok a := ha
      simp only [Backend.load, Backend.x509, Encoding.x509LoadOrder, Backend.loadFrom, hread]
    · simp only [decodeArtifact, Outcome.bind_eq_ok_iff] at ha
      obtain ⟨_, -, _, -, ha⟩ := ha
      split at ha
      · cases ha
      · rw [← Except.ok.inj ha]
  · refine ⟨_, fun passphrase => ?_, fun h => absurd h htext, fun _ => rfl⟩
    have hder : decodeArtifact c.encoded .der passphrase =
        .ok { certificate := c, encoding := .der } := by
      have hload : [c.encoded].mapM loadCertificate = .ok [c] :=
        mapM_loadCertificate (List.forall_mem_singleton.2 hc)
      simp only [decodeArtifact, fileCertificates, Outcome.bind_eq_ok_iff]
      exact ⟨_, rfl, _, hload, rfl⟩
    have htried : ∃ what, decodeArtifact c.encoded .pem passphrase =
        .error (.error (.unrecognized what)) := by
      cases hread : decodeArtifact c.encoded .pem passphrase with
      | ok a => exact absurd ⟨a, hread⟩ htext
      | error fault =>
        obtain ⟨what, rfl⟩ := saysUnrecognized_text _ _ fault hread
        exact ⟨what, rfl⟩
    obtain ⟨what, htried⟩ := htried
    simp only [Backend.load, Backend.x509, Encoding.x509LoadOrder, Backend.loadFrom, htried, hder]

/-- A certificate that says no more than its subject. -/
def plainDer (subject : Bytes) : Bytes :=
  let date := element tagUtcTime (Bytes.ofText "700101000000Z")
  let key : SubjectKey := ⟨.ed25519, []⟩
  seqOf [
    seqOf [nat 1, keyIdentifierOf .ed25519, seqOf [], seqOf [date, date], subject, key.encode],
    keyIdentifierOf .ed25519, Der.bits []]

/-- A certificate whose subject is named by the text of another certificate. -/
def nestedDer : Bytes :=
  plainDer (seqOf [element tagSet (seqOf [oid [2, 5, 4, 3],
    element tagUtf8 (Armor.encode labelCertificate (plainDer (seqOf [])))])])

/-- Encoded as DER, that certificate is loaded as the other one. -/
theorem nestedDer_loaded_otherwise :
    ∃ c a, IsStored c ∧ (∀ m, encodeArtifact m c .der {} = .ok nestedDer) ∧
      (∀ passphrase, Backend.x509.load nestedDer passphrase = .ok a) ∧ a.encoding = .pem := by
  have hinner : (loadCertificate (plainDer (seqOf []))).isOk = true := by decide +kernel
  have houter : (loadCertificate nestedDer).isOk = true := by decide +kernel
  obtain ⟨inner, hinner⟩ := Outcome.exists_eq_ok_of_isOk hinner
  obtain ⟨c, hc⟩ := Outcome.exists_eq_ok_of_isOk houter
  obtain ⟨hbytes, hinner⟩ := loadCertificate_eq_ok_iff.1 hinner
  obtain ⟨hencoded, hc⟩ := loadCertificate_eq_ok_iff.1 hc
  have hparts : nestedDer = nestedDer.take 67 ++
      (Armor.encode labelCertificate (plainDer (seqOf [])) ++ nestedDer.drop 219) := by
    decide +kernel
  have htext : TakenForText c.encoded := by
    rw [← hencoded, hparts, hbytes]
    exact takenForText_around hinner (by decide +kernel) (by decide +kernel)
  obtain ⟨a, hload, hpem, -⟩ := exists_load_encoded hc
  rw [hencoded]
  exact ⟨c, a, hc, fun m => rfl, hload, hpem htext⟩

/-! ## Either -/

/-- What is written as text or as DER is loaded as it was written, unless DER is taken for text. -/
theorem exists_load_encodeArtifact {m : Moment} {o : EncodeOptions} (hc : IsStored c)
    (hchain : ∀ extra ∈ o.chain, IsStored extra) (hencoding : encoding = .pem ∨ encoding = .der)
    (h : encodeArtifact m c encoding o = .ok data) :
    ∃ a, (∀ passphrase, Backend.x509.load data passphrase = .ok a) ∧
      (encoding = .der ∧ TakenForText c.encoded → a.encoding = .pem) ∧
      (¬ (encoding = .der ∧ TakenForText c.encoded) →
        a = { certificate := c, encoding, chain := o.chain }) := by
  rcases hencoding with rfl | rfl
  · refine ⟨_, fun passphrase => ?_, fun h => absurd h.1 (by decide), fun _ => rfl⟩
    obtain ⟨_, hencode, hload⟩ := load_encodeArtifact m hc hchain passphrase
    obtain rfl := Except.ok.inj (h.symm.trans hencode)
    exact hload
  · simp only [encodeArtifact, Outcome.bind_eq_ok_iff, Outcome.ensure_eq_ok_iff] at h
    obtain ⟨_, hempty, h⟩ := h
    obtain rfl := Except.ok.inj h
    rw [List.isEmpty_iff.1 hempty]
    obtain ⟨a, hload, htext, hder⟩ := exists_load_encoded hc
    exact ⟨a, hload, fun h => htext h.2, fun hnot => hder fun h => hnot ⟨rfl, h⟩⟩

end X509
end CertAuthority
