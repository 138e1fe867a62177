import CertAuthority.Proofs.Peer.Confinement
import CertAuthority.Proofs.Signature.Ed25519

/-!
# Requests that bring no key

A requester who wants a certificate from a remote authority is refused on the requesting node unless
there is a key to certify. The authority itself has no such check. A request that brings no key, or
that names one by a path, is served with a certificate over the authority's own key.

* `CertificateRequest.IsKeyless` : neither a public key nor a signing request comes as bytes;
* `Site.issueOwn` : issuing over the key that signs;
* `Authority.keyless_issued_over_own_key` : a request that brings no key is served so;
* `Authority.keyless_certificate_issued` : one that names a key by its path gets a certificate.
-/

namespace CertAuthority

/-- Neither a public key nor a signing request comes with the request as bytes. -/
structure CertificateRequest.IsKeyless (r : CertificateRequest) : Prop where
  publicKey : inlineOnly r.publicKey = none
  csr : inlineOnly r.csr = none

theorem SigningPolicy.subjectMaterial_of_isKeyless (p : SigningPolicy) {r : CertificateRequest}
    (h : r.IsKeyless) : (r.confined.under p).subjectMaterial = [] := by
  rw [subjectMaterial_confined, h.publicKey, h.csr]
  rfl

namespace Site

variable {σ : Type} {s : Site σ} {r : CertificateRequest}

/-- Issues a certificate over the key that signs it. -/
def issueOwn (s : Site σ) (r : CertificateRequest) : Run σ Certificate := do
  let signing ← s.requireSigner r
  let d ← s.draft .certificate r signing.identity.publicKey signing.identity
  s.signCertificate d signing.key

theorem issue_eq_issueOwn (h : r.subjectMaterial = []) : s.issue r = s.issueOwn r := by
  obtain ⟨hpublic, hprivate, hcsr⟩ : r.publicKey = none ∧ r.privateKey = none ∧ r.csr = none := by
    simpa [CertificateRequest.subjectMaterial] using h
  have hown (authority : PublicKey) : s.subjectKey r authority = pure ⟨authority, none⟩ := by
    simp only [subjectKey, hpublic, hprivate, hcsr]
  simp only [issue, issueOwn, hown, pure_bind]

end Site

namespace Authority

variable {σ : Type}

/-- **Who brings no key gets the authority's own certified.** Serving a request without a key is
issuing over the key that signs: what that run comes to is the reply. Every draft that it signs is
for the signer's own key. -/
theorem keyless_issued_over_own_key (files : FileSystem σ) (store : PolicyStore)
    (matcher : RequesterMatcher) {e : RequestEnvelope} (hsign : e.policyOnly = false)
    (hkey : e.request.IsKeyless) (w : World σ) :
    let a : Authority σ := { site := ⟨files, CertificateKind.backend⟩, store, matcher }
    ∀ p, a.authorize e = .ok p →
      let r := e.request.confined.under p
      let run := (ReplyData.certificate <$>
        (a.site.issueOwn r >>= a.site.encodePlain .encoding r.kind)).run.run ⟨w, [], {}⟩
      a.serve e w = (replyTo run.1, run.2) ∧
        ∀ d, .sign d ∈ (a.serve e w).2.journal →
          d.request = r ∧ d.info.publicKey = d.signer.publicKey := by
  intro a p hp r run
  have hnone : r.subjectMaterial = [] := p.subjectMaterial_of_isKeyless hkey
  have hperform : a.perform p e = ReplyData.certificate <$> a.certify p e.request := by
    rw [perform, hsign]
    rfl
  have hcertify : a.certify p e.request =
      a.site.issueOwn r >>= a.site.encodePlain .encoding r.kind := by
    rw [← Site.issue_eq_issueOwn hnone]
    rfl
  refine ⟨by rw [serve_of_authorize hp, hperform, hcertify], fun d hd => ?_⟩
  have hacts : Run.Alike (Site.Acts r) (a.certify p e.request) (a.certify p e.request)
      fun _ => True :=
    alike_certify (Site.draftsAsAsked_backend files) (.refl files _)
  obtain ⟨added, hjournal, hadded⟩ := (hacts.map ReplyData.certificate).journal ⟨w, [], {}⟩
  rw [serve_of_authorize hp, hperform, hjournal] at hd
  cases hadded _ hd with
  | sign request own => exact ⟨request, own hnone⟩

/-! ## A key named by its path -/

/-- Signs with an Ed25519 key that it holds itself. -/
def keyholderPolicy : SigningPolicy where
  kind := .x509
  overrides :=
    { signingPrivateKey := some <| .inline <|
        [0x30, 0x2e, 0x02, 0x01, 0x00, 0x30, 0x05, 0x06, 0x03, 0x2b, 0x65, 0x70, 0x04, 0x22, 0x04,
          0x20] ++ List.replicate 32 7
      serialNumber := some ⟨5⟩ }

/-- Serves under that policy, and can open no file. -/
def keyholder : Authority Unit where
  site := ⟨vaultFiles fun _ => false, CertificateKind.backend⟩
  store _ _ := .ok (some keyholderPolicy)

/-- Asks for a certificate for the key in a file of the requester. -/
def leafRequest : RequestEnvelope where
  policyName := "keyholder"
  request := { CertificateRequest.new .x509 with publicKey := some (.path "/leaf.pub") }

theorem isKeyless_leafRequest : leafRequest.request.IsKeyless := ⟨rfl, rfl⟩

/-- The request is signed and answered with data and no error. -/
theorem keyholder_serves_leafRequest :
    let served := keyholder.serve leafRequest { files := (), now := .ofSeconds 0, seed := [] }
    (served.1.data.isSome && served.1.errors.isEmpty &&
      served.2.journal.any fun e => match e with
        | .sign _ => true
        | _ => false) = true := by
  simp only [keyholder, CertificateKind.backend_eq]
  decide +kernel

/-- There is a draft among the acts, and it is for the authority's key. -/
theorem keyless_issued_over_own_key_leaf :
    leafRequest.policyOnly = false ∧ leafRequest.request.IsKeyless ∧
      keyholder.authorize leafRequest = .ok keyholderPolicy ∧
      ∃ d, .sign d ∈ (keyholder.serve leafRequest
          { files := (), now := .ofSeconds 0, seed := [] }).2.journal ∧
        d.info.publicKey = d.signer.publicKey := by
  obtain ⟨-, hown⟩ := keyless_issued_over_own_key (vaultFiles fun _ => false)
    (fun _ _ => .ok (some keyholderPolicy)) {} rfl isKeyless_leafRequest
    { files := (), now := .ofSeconds 0, seed := [] } keyholderPolicy rfl
  obtain ⟨-, hsigned⟩ := Bool.and_eq_true_iff.1 keyholder_serves_leafRequest
  obtain ⟨event, hevent, hsign⟩ := List.any_eq_true.1 hsigned
  refine ⟨rfl, isKeyless_leafRequest, rfl, ?_⟩
  cases event with
  | sign d => exact ⟨d, hevent, (hown d hevent).2⟩
  | read | replace | backUp | ask => cases hsign

/-- The key in the file is left out, and the certificate that comes instead is no error. -/
theorem keyless_certificate_issued :
    leafRequest.policyOnly = false ∧ leafRequest.request.IsKeyless ∧
      (keyholder.serve leafRequest
        { files := (), now := .ofSeconds 0, seed := [] }).1.data.isSome = true ∧
      (keyholder.serve leafRequest
        { files := (), now := .ofSeconds 0, seed := [] }).1.errors = [] := by
  obtain ⟨hreply, -⟩ := Bool.and_eq_true_iff.1 keyholder_serves_leafRequest
  obtain ⟨hdata, herrors⟩ := Bool.and_eq_true_iff.1 hreply
  exact ⟨rfl, isKeyless_leafRequest, hdata, List.isEmpty_iff.1 herrors⟩

end Authority
end CertAuthority
