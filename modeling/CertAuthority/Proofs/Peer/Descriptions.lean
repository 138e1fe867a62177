import CertAuthority.Proofs.Certificate.Handover
import CertAuthority.Proofs.Issue.Steps
import CertAuthority.Proofs.Peer.Confinement
import CertAuthority.Proofs.Peer.Fidelity
import CertAuthority.Proofs.Peer.Secrecy

/-!
# What a description of a policy tells

An authority that has its key can describe the policy. Whoever gets the description knows the
policy without its secrets, and has the very identity that the authority signs as.

* `Authority.SignsWith` : what an authority signs with under a policy, by its files;
* `SigningMaterial.IsLoaded` : what is known of loaded material;
* `PolicyDescription.Tells` : what a description tells, and `Authority.run_describe` : that of an
  authority does.
-/

namespace CertAuthority

open Run (bind_eq_ok_iff backendAt_eq_ok_iff pure_eq_ok_iff)

/-! ## Signing material -/

/-- The handle of the key is one that can be handed on, and so is the certificate. -/
structure SigningMaterial.IsLoaded (kind : CertificateKind) (ca : SigningMaterial) : Prop where
  publicKey : kind.IsHandle ca.identity.publicKey
  certificate : ∀ c, ca.identity.certificate = some c → kind = .x509 ∧ X509.IsStored c

namespace Site

variable {σ : Type} {s : Site σ} {r : CertificateRequest} {w : World σ}

theorem isStored_of_signingCertificate (hb : s.backend = CertificateKind.backend)
    {t u : RunState σ} {c : Certificate}
    (h : (s.signingCertificate r).run.run t = (.ok (some c), u)) :
    r.kind = .x509 ∧ X509.IsStored c := by
  unfold signingCertificate at h
  split at h
  · rename_i hkind _
    simp only [loadMaterial, bind_eq_ok_iff, backendAt_eq_ok_iff, pure_eq_ok_iff] at h
    obtain ⟨found, _, ⟨_, _, -, hload, -⟩, hc, -⟩ := h
    rw [hb, hkind] at hload
    obtain rfl := Option.some.inj hc
    exact ⟨hkind, X509.isStored_of_load hload⟩
  · obtain ⟨hnone, -⟩ := pure_eq_ok_iff.1 h
    cases hnone

theorem isLoaded_of_signer (hb : s.backend = CertificateKind.backend) {ca : SigningMaterial}
    (h : (s.signer r).result w = .ok (some ca)) : ca.IsLoaded r.kind := by
  obtain ⟨t, hrun, -⟩ := (looks_signer : Run.Looks (s.signer r)).run_eq ⟨w, [], {}⟩
  rw [h] at hrun
  unfold signer at hrun
  split at hrun
  · obtain ⟨hnone, -⟩ := pure_eq_ok_iff.1 hrun
    cases hnone
  · simp only [bind_eq_ok_iff, backendAt_eq_ok_iff, pure_eq_ok_iff] at hrun
    obtain ⟨data, _, -, key, _, ⟨hkey, -⟩, publicKey, _, ⟨hderive, -⟩, certificate, _, hcert, hca,
      -⟩ := hrun
    obtain rfl := Option.some.inj hca
    rw [hb] at hkey hderive
    refine ⟨CertificateKind.isHandle_of_derivePublicKey hkey hderive, fun c hc => ?_⟩
    rw [show certificate = some c from hc] at hcert
    exact isStored_of_signingCertificate hb hcert

/-- What a request signs with depends on what it names of its authority alone. -/
theorem signer_eq_of_owns {p : SigningPolicy} {r' : CertificateRequest} (h : p.Owns r)
    (h' : p.Owns r') (hkind : r.kind = r'.kind) : s.signer r = s.signer r' := by
  simp only [signer, signingCertificate, hkind, h.signingPrivateKey, h'.signingPrivateKey,
    h.signingPrivateKeyPassphrase, h'.signingPrivateKeyPassphrase, h.signingCert, h'.signingCert]

end Site

/-! ## Descriptions -/

/-- The description is of this policy, and what it says of the signer is loaded as this identity. -/
structure PolicyDescription.Tells (d : PolicyDescription) (q : SigningPolicy)
    (signer : SignerIdentity) : Prop where
  policy : d.policy = q.redacted
  publicKey : ∃ data, d.signerPublicKey = .inline data ∧
    q.kind.backend.loadPublicKey data = .ok signer.publicKey
  certificate : (signer.certificate = none ∧ d.signerCertificate = none) ∨
    ∃ c data a, signer.certificate = some c ∧ d.signerCertificate = some (.inline data) ∧
      q.kind.backend.load data none = .ok a ∧ a.certificate = c

namespace Authority

variable {σ : Type} {a : Authority σ} {q : SigningPolicy} {ca : SigningMaterial} {s : RunState σ}

/-- With these files, the authority signs with this under the policy. -/
def SignsWith (a : Authority σ) (q : SigningPolicy) (ca : SigningMaterial) (files : σ) : Prop :=
  ∀ w : World σ, w.files = files →
    (a.site.signer ((CertificateRequest.new q.kind).under q)).result w = .ok (some ca)

theorem kind_under (q : SigningPolicy) (r : CertificateRequest) : (r.under q).kind = r.kind := by
  cases hk : q.kind <;>
    simp [CertificateRequest.under, SigningPolicy.resolve, SigningPolicy.applyOverrides,
      SigningPolicy.applyIdentity, hk]

theorem SignsWith.isLoaded {files : σ} (hb : a.site.backend = CertificateKind.backend)
    (h : a.SignsWith q ca files) (w : World σ) : ca.IsLoaded q.kind := by
  have hloaded := Site.isLoaded_of_signer hb (h { w with files } rfl)
  rwa [kind_under] at hloaded

/-- The certificate is described so that it can be loaded again. -/
theorem run_encodePlain (stage : Stage) {kind : CertificateKind} {c : Certificate}
    (hb : a.site.backend = CertificateKind.backend) (hkind : kind = .x509) (hc : X509.IsStored c) :
    ∃ data t loaded, (a.site.encodePlain stage kind c).run.run s = (.ok data, t) ∧
      kind.backend.load data none = .ok loaded ∧ loaded.certificate = c ∧
      t.world.files = s.world.files ∧ t.world.now = s.world.now := by
  obtain ⟨m, t, hmoment⟩ : ∃ m t, (Run.moment : Run σ Moment).run.run s = (.ok m, t) :=
    ⟨_, _, rfl⟩
  obtain ⟨-, hfiles, hnow⟩ := Run.of_moment hmoment
  obtain ⟨data, hencode, hload⟩ := X509.load_encodeArtifact m hc (o := {}) (by simp) none
  subst hkind
  refine ⟨data, t, _, ?_, hload, rfl, hfiles, hnow⟩
  simp only [Site.encodePlain, Site.encode, bind_eq_ok_iff, backendAt_eq_ok_iff, hb]
  exact ⟨m, t, hmoment, hencode, rfl⟩

theorem run_publish (hb : a.site.backend = CertificateKind.backend) (h : ca.IsLoaded q.kind) :
    ∃ d t, (a.publish q.redacted ca.identity).run.run s = (.ok d, t) ∧ d.Tells q ca.identity ∧
      t.world.files = s.world.files ∧ t.world.now = s.world.now := by
  obtain ⟨key, hkey, hload⟩ := CertificateKind.loadPublicKey_encodePublicKey h.publicKey
  have hencode : (a.site.backend q.redacted.kind).encodePublicKey ca.identity.publicKey = .ok key := by
    rw [hb]
    exact hkey
  simp only [publish, bind_eq_ok_iff, backendAt_eq_ok_iff, pure_eq_ok_iff]
  cases hcertificate : ca.identity.certificate with
  | none =>
    exact ⟨_, s, ⟨key, s, ⟨hencode, rfl⟩, none, s, rfl, rfl, rfl⟩,
      ⟨rfl, ⟨key, rfl, hload⟩, .inl ⟨hcertificate, rfl⟩⟩, rfl, rfl⟩
  | some c =>
    obtain ⟨hkind, hc⟩ := h.certificate c hcertificate
    obtain ⟨data, t, loaded, hrun, hloaded, hsame, hfiles, hnow⟩ :=
      run_encodePlain (s := s) .encoding hb hkind hc
    have hmap : ((some c).mapM (a.site.encodePlain .encoding q.redacted.kind)).run.run s =
        (.ok (some data), t) := Run.map_eq_ok_iff.2 ⟨data, hrun, rfl⟩
    exact ⟨_, t, ⟨key, s, ⟨hencode, rfl⟩, some data, t, hmap, rfl, rfl⟩,
      ⟨rfl, ⟨key, rfl, hload⟩, .inr ⟨c, data, loaded, hcertificate, rfl, hloaded, hsame⟩⟩,
      hfiles, hnow⟩

/-- An authority that has its key describes the policy, and tells the identity it signs as. -/
theorem run_describe (hb : a.site.backend = CertificateKind.backend)
    (hs : a.SignsWith q ca s.world.files) :
    ∃ d t, (a.describe q).run.run s = (.ok d, t) ∧ d.Tells q ca.identity ∧
      t.world.files = s.world.files ∧ t.world.now = s.world.now := by
  have hsigner := hs s.world rfl
  obtain ⟨t, hrun, hworld⟩ := Site.looks_signer.run_eq s
  rw [hsigner] at hrun
  have hidentity : (a.identity ((CertificateRequest.new q.kind).under q)).run.run s =
      (.ok ca.identity, t) := bind_eq_ok_iff.2 ⟨some ca, t, hrun, rfl⟩
  obtain ⟨d, u, hpublish, htells, hfiles, hnow⟩ := run_publish (s := t) hb (hs.isLoaded hb s.world)
  rw [hworld] at hfiles hnow
  exact ⟨d, u, bind_eq_ok_iff.2 ⟨_, t, hidentity, hpublish⟩, htells, hfiles, hnow⟩

end Authority
end CertAuthority
