import CertAuthority.Proofs.OpenSsh.Stability
import CertAuthority.Proofs.X509.Loading
import CertAuthority.Proofs.X509.Redrafts

/-!
# Serial numbers that requests name

An X.509 certificate holds a number of any length. An OpenSSH certificate has 64 bits for one, and of
a longer number it holds the low ones.

* `CertificateKind.heldNumber` : what a certificate holds of a number;
* `Certificate.HoldsNumber` : the number in the bytes of a certificate;
* `CertificateKind.serialNumber_of_buildDraft` : drafts name what their certificates will hold, and
  `X509.holdsNumber_of_signDraft`, `OpenSsh.holdsNumber_of_signDraft` : this is signed and shown;
* `serial_number_held` : the two together;
* `long_number_cut` : an OpenSSH certificate with another number than the requested one.
-/

namespace CertAuthority

variable {m m' : Moment} {r : CertificateRequest} {subject : PublicKey} {signer : SignerIdentity}
  {d : Draft} {key : PrivateKey} {digest : Option Digest} {c : Certificate} {k : CertificateKind}
  {n : SerialNumber}

/-! ## What certificates hold -/

/-- What a certificate of this kind holds of a number. -/
def CertificateKind.heldNumber : CertificateKind → SerialNumber → SerialNumber
  | .x509, n => n
  | .ssh, n => ⟨n.low64⟩

theorem CertificateKind.heldNumber_eq_self_iff (k : CertificateKind) (n : SerialNumber) :
    k.heldNumber n = n ↔ k = .x509 ∨ n.value < bitLimit 64 := by
  cases k with
  | x509 => simp [heldNumber]
  | ssh =>
    rw [heldNumber, SerialNumber.low64, SerialNumber.mk.injEq]
    have hlt : n.value % bitLimit 64 < bitLimit 64 := Nat.mod_lt _ (bitLimit_pos 64)
    constructor
    · intro h
      exact .inr (h ▸ hlt)
    · rintro (h | h)
      · cases h
      · exact Nat.mod_eq_of_lt h

/-- The number that the bytes of the certificate hold. -/
def Certificate.HoldsNumber (c : Certificate) (n : SerialNumber) : CertificateKind → Prop
  | .x509 => ∃ f, X509.CertificateForm.parse? c.encoded = some f ∧ Bytes.toNat f.serial = n.value
  | .ssh => ∃ w : OpenSsh.SshCertificate, c.encoded = Bytes.ofText w.line ∧ w.serial = n.value

/-! ## Drafts -/

theorem X509.serialNumber_of_buildDraft (hn : r.serialNumber = some n)
    (hd : X509.buildDraft m .certificate r subject signer = .ok d) :
    d.info.serialNumber = some n := by
  obtain ⟨_, _, _, _, p, _, _, info, -, -, hp, -, hrenders, hinfo, rfl⟩ :=
    renders_of_buildDraft_certificate hd
  obtain ⟨hserial, -⟩ := CertificatePlan.serial_ofRequest hp
  rw [hn, Option.getD_some] at hserial
  obtain rfl := Except.ok.inj (hrenders.info_eq.symm.trans hinfo)
  exact congrArg some (CertificatePlan.serialValue_of_serial hserial)

theorem OpenSsh.serialNumber_of_buildDraft {artifact : ArtifactKind} (hn : r.serialNumber = some n)
    (hd : OpenSsh.buildDraft m artifact r subject signer = .ok d) :
    d.info.serialNumber = some ⟨n.low64⟩ := by
  simp only [buildDraft, Outcome.bind_eq_ok_iff] at hd
  obtain ⟨_, -, _, -, _, -, _, -, _, -, _, -, _, -, hd⟩ := hd
  rw [← Except.ok.inj hd]
  exact congrArg some (draftSerial_of_serial hn)

theorem CertificateKind.serialNumber_of_buildDraft (hn : r.serialNumber = some n)
    (hd : k.backend.buildDraft m .certificate r subject signer = .ok d) :
    d.info.serialNumber = some (k.heldNumber n) := by
  cases k with
  | x509 => exact X509.serialNumber_of_buildDraft hn hd
  | ssh => exact OpenSsh.serialNumber_of_buildDraft hn hd

/-! ## Certificates -/

theorem X509.IsStored.holdsNumber (h : IsStored c) (hn : c.info.serialNumber = some n) :
    c.HoldsNumber n .x509 := by
  obtain ⟨info, hinfo, hc⟩ := Outcome.map_eq_ok_iff.1 h
  rw [← hc] at hn
  simp only [certificateInfo] at hinfo
  split at hinfo
  · rename_i f hf
    obtain ⟨_, -, hinfo⟩ := Outcome.bind_eq_ok_iff.1 hinfo
    obtain rfl := Except.ok.inj hinfo
    obtain rfl := Option.some.inj hn
    exact ⟨f, hf, rfl⟩
  · cases hinfo

theorem X509.holdsNumber_of_signDraft
    (hd : X509.buildDraft m .certificate r subject signer = .ok d)
    (hs : X509.signDraft d key digest = .ok c) (hn : d.info.serialNumber = some n) :
    c.info.serialNumber = some n ∧ c.HoldsNumber n .x509 := by
  obtain ⟨_, -, hview⟩ := view_of_signDraft hd hs
  have hshown : c.info.serialNumber = some n := by rw [hview, hn]
  exact ⟨hshown, (isStored_of_signDraft hd hs).holdsNumber hshown⟩

/-- A number that was cut for the draft is cut once more. -/
theorem OpenSsh.holdsNumber_of_signDraft (hs : OpenSsh.signDraft m' d key digest = .ok c)
    (hn : d.info.serialNumber = some ⟨n.low64⟩) :
    c.info.serialNumber = some ⟨n.low64⟩ ∧ c.HoldsNumber ⟨n.low64⟩ .ssh := by
  obtain ⟨authority, signed, hissues, hinfo, hline⟩ := issues_of_signDraft hs
  obtain ⟨_, -, hwritten⟩ := hissues.written
  have hserial : signed.serial = n.low64 := by
    rw [hwritten]
    simp only [unsigned, hn, Option.map_some, Option.getD_some, SerialNumber.low64, Nat.mod_mod]
  have hshown : c.info.serialNumber = some ⟨signed.serial⟩ := by
    simp only [SshCertificate.info, Outcome.bind_eq_ok_iff] at hinfo
    obtain ⟨_, -, hinfo⟩ := hinfo
    rw [← Except.ok.inj hinfo]
  exact ⟨hserial ▸ hshown, signed, hline, hserial⟩

/-- **What becomes of a serial number that is asked for.** A certificate that is built and signed for
it shows and holds all of it as an X.509 certificate, and its low 64 bits as an OpenSSH certificate.
So the number is honoured exactly where it has no more bits or the kind is X.509. -/
theorem serial_number_held (hn : r.serialNumber = some n)
    (hd : k.backend.buildDraft m .certificate r subject signer = .ok d)
    (hs : k.backend.sign m' d key digest = .ok c) :
    c.info.serialNumber = some (k.heldNumber n) ∧ c.HoldsNumber (k.heldNumber n) k ∧
      (c.info.serialNumber = some n ↔ k = .x509 ∨ n.value < bitLimit 64) := by
  have hdrafted := CertificateKind.serialNumber_of_buildDraft hn hd
  have hheld : c.info.serialNumber = some (k.heldNumber n) ∧ c.HoldsNumber (k.heldNumber n) k := by
    cases k with
    | x509 => exact X509.holdsNumber_of_signDraft hd hs hdrafted
    | ssh => exact OpenSsh.holdsNumber_of_signDraft hs hdrafted
  refine ⟨hheld.1, hheld.2, ?_⟩
  rw [hheld.1, Option.some.injEq]
  exact k.heldNumber_eq_self_iff n

/-- A number with one bit more than an OpenSSH certificate has for it. -/
def longNumber : SerialNumber := ⟨bitLimit 64 + 5⟩

def longRequest : CertificateRequest :=
  { CertificateRequest.new .x509 with serialNumber := some longNumber }

/-- A certificate under that number for a key that signs for itself. -/
def longRun : BackendResult (Draft × Certificate) := do
  let own ← X509.derivePublicKey X509.houseKey
  let draft ← X509.buildDraft ⟨.ofSeconds 0, []⟩ .certificate longRequest own ⟨own, none⟩
  let certificate ← X509.signDraft draft X509.houseKey none
  return (draft, certificate)

theorem longRun_isOk : longRun.isOk = true := by
  simp only [longRun, X509.derivePublicKey_eq, X509.signDraft_eq]
  decide +kernel

/-- It has that number. -/
theorem serial_number_held_long :
    ∃ d c, longRun = .ok (d, c) ∧ d.request = longRequest ∧
      c.info.serialNumber = longRequest.serialNumber := by
  obtain ⟨⟨d, c⟩, hrun⟩ := Outcome.exists_eq_ok_of_isOk longRun_isOk
  have hparts := hrun
  simp only [longRun, Outcome.bind_eq_ok_iff] at hparts
  obtain ⟨own, -, d', hd, c', hs, hpair⟩ := hparts
  obtain ⟨rfl, rfl⟩ : d' = d ∧ c' = c := Prod.mk.inj (Except.ok.inj hpair)
  have hsigned : CertificateKind.x509.backend.sign ⟨.ofSeconds 0, []⟩ d' X509.houseKey none =
      .ok c' := hs
  obtain ⟨-, -, hhonoured⟩ := serial_number_held (k := .x509) rfl hd hsigned
  exact ⟨d', c', hrun, (X509.isFor_of_buildDraft hd).request, hhonoured.2 (.inl rfl)⟩

/-- The guest asks for that number and gets another one. -/
theorem long_number_cut :
    ∃ d c, Backend.ssh.buildDraft ⟨⟨0, 500⟩, []⟩ .certificate OpenSsh.guestRequest OpenSsh.guestKey
        OpenSsh.houseSigner = .ok d ∧
      Backend.ssh.sign ⟨.ofSeconds 1, []⟩ d OpenSsh.houseKey none = .ok c ∧
      OpenSsh.guestRequest.serialNumber = some longNumber ∧
      c.info.serialNumber = some ⟨5⟩ ∧ (⟨5⟩ : SerialNumber) ≠ longNumber := by
  obtain ⟨info, hs⟩ := OpenSsh.sign_guest
  have hd := @OpenSsh.buildDraft_guest ⟨0, 500⟩ (by decide) []
  have hdrafted : (OpenSsh.guestDraft ⟨0, 500⟩).info.serialNumber =
      some ⟨longNumber.low64⟩ := by
    decide
  obtain ⟨hshown, -⟩ := OpenSsh.holdsNumber_of_signDraft hs hdrafted
  exact ⟨_, _, hd, hs, rfl, hshown, by decide⟩

end CertAuthority
