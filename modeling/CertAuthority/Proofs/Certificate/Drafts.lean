import CertAuthority.Certificate.Family
import CertAuthority.Proofs.Bytes.Numbers

/-!
# What a draft was built for

A backend answers with a draft for exactly the request, the signer and the subject's key it was
given, so whoever signs the draft signs what was asked.

* `Draft.IsFor` : the three parts of that;
* `OpenSsh.of_buildDraft` : all that a draft of an OpenSSH certificate takes from its request;
* `CertificateKind.isFor_of_buildDraft` : both backends answer so;
* `Moment.length_random` : the random bytes that a draft may take are as many as it asks for.
-/

namespace CertAuthority

/-- The draft is for this request, subject key and signer. -/
structure Draft.IsFor (d : Draft) (r : CertificateRequest) (subject : PublicKey)
    (signer : SignerIdentity) : Prop where
  request : d.request = r
  subject : d.info.publicKey = subject
  signer : d.signer = signer

variable {m : Moment} {artifact : ArtifactKind} {r : CertificateRequest} {subject : PublicKey}
  {signer : SignerIdentity} {d : Draft}

theorem X509.isFor_of_buildDraft
    (h : X509.buildDraft m artifact r subject signer = .ok d) : d.IsFor r subject signer := by
  simp only [X509.buildDraft, Outcome.bind_eq_ok_iff] at h
  obtain ⟨_, -, _, -, _, -, _, -, h⟩ := h
  rw [← Except.ok.inj h]
  exact ⟨rfl, rfl, rfl⟩

namespace OpenSsh

theorem certificate_of_checkRequest (h : checkRequest artifact r = .ok ()) :
    artifact = .certificate := by
  unfold checkRequest at h
  split at h
  · cases h
  · cases artifact with
    | certificate => rfl
    | csr | crl => cases h

/-- Only certificates are drafted, with the period and the principals of the request. -/
theorem of_buildDraft (h : buildDraft m artifact r subject signer = .ok d) :
    d.IsFor r subject signer ∧ artifact = .certificate ∧
      draftPrincipals r.principals = .ok d.info.principals ∧
      ∃ start stop, validity m.now r = .ok (start, stop) ∧
        d.info.notBefore = some start ∧ d.info.notAfter = some stop := by
  simp only [buildDraft, Outcome.bind_eq_ok_iff] at h
  obtain ⟨_, hcheck, _, -, _, hprincipals, ⟨start, stop⟩, hperiod, _, -, _, -, _, -, h⟩ := h
  obtain rfl := Except.ok.inj h
  exact ⟨⟨rfl, rfl, rfl⟩, certificate_of_checkRequest hcheck, hprincipals, start, stop, hperiod,
    rfl, rfl⟩

/-- The key of a host, which signs for itself. -/
def hostKey : PublicKey :=
  ⟨.ssh, .ed25519, Bytes.ofText
    "ssh-ed25519 AAAAC3NzaC1lZDI1NTE5AAAAICW+HK2TZsWVV0WntTB19lU6B2dxlprVmrUMBngUczRJ"⟩

end OpenSsh

theorem CertificateKind.isFor_of_buildDraft {k : CertificateKind}
    (h : k.backend.buildDraft m artifact r subject signer = .ok d) : d.IsFor r subject signer := by
  cases k with
  | x509 => exact X509.isFor_of_buildDraft h
  | ssh => exact (OpenSsh.of_buildDraft h).1

/-! ## Random bytes of a moment -/

theorem Sha256.length_digest (b : Bytes) : (Sha256.digest b).length = 32 := by
  simp [Sha256.digest, Sha256.finish, Sha256.State.toBytes, Bytes.ofWord32, Bytes.length_ofNatWidth]

theorem Moment.length_random (m : Moment) (n : Nat) : (m.random n).length = n := by
  have hall : ((List.range ((n + 31) / 32)).flatMap fun i =>
      Sha256.digest (m.seed ++ Bytes.ofWord32 i)).length = 32 * ((n + 31) / 32) := by
    rw [List.flatMap_def, Bytes.length_flatten (n := 32) (by simp [Sha256.length_digest])]
    simp
  rw [Moment.random, List.length_take, hall]
  omega

end CertAuthority
