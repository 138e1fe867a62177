import CertAuthority.Issue.Run

/-!
# Key material of a request

Loads what a resolved request names: the authority's key and certificate, the subject's key, and the
certificates to append.

* `Site.signer` : the signing key with its public identity, where the request has one;
* `Site.signerIdentity` : the public identity alone, without access to the key;
* `Site.subjectKey` : the explicit public key, else that of the private key, else that of the
  signing request, else the authority's own.
-/

namespace CertAuthority

/-- An authority's key and the identity it signs as. -/
structure SigningMaterial where
  key : PrivateKey
  identity : SignerIdentity
deriving DecidableEq, Inhabited

/-- The key a certificate is issued for, and its private half where the request has it. -/
structure SubjectKey where
  publicKey : PublicKey
  privateKey : Option PrivateKey := none
deriving DecidableEq, Inhabited

namespace Site

variable {σ : Type}

def material (s : Site σ) (stage : Stage) : Material → Run σ Bytes
  | .inline b => pure b
  | .path p => Run.atStage stage (s.read p)

/-- The artifact in a piece of material, of whatever encoding. -/
def loadMaterial (s : Site σ) (kind : CertificateKind) (stage : Stage) (m : Material) :
    Run σ LoadedArtifact := do
  Run.backendAt stage ((s.backend kind).load (← s.material stage m) none)

/-! ## The authority -/

/-- The certificate of the authority, for X.509 only. -/
def signingCertificate (s : Site σ) (r : CertificateRequest) : Run σ (Option Certificate) :=
  match r.kind, r.signingCert with
  | .x509, some m => do return some (← s.loadMaterial r.kind .loadingSigningCert m).certificate
  | _, _ => pure none

def signer (s : Site σ) (r : CertificateRequest) : Run σ (Option SigningMaterial) :=
  match r.signingPrivateKey with
  | none => pure none
  | some m => do
    let b := s.backend r.kind
    let key ← Run.backendAt .loadingSigningKey
      (b.loadPrivateKey (← s.material .loadingSigningKey m) r.signingPrivateKeyPassphrase)
    let publicKey ← Run.backendAt .derivingPublicKey (b.derivePublicKey key)
    return some ⟨key, publicKey, ← s.signingCertificate r⟩

def requireSigner (s : Site σ) (r : CertificateRequest) : Run σ SigningMaterial := do
  Run.ofOption .missingSigningKey (← s.signer r)

def signerIdentity (s : Site σ) (r : CertificateRequest) : Run σ (Option SignerIdentity) := do
  let certificate ← s.signingCertificate r
  match r.signingPublicKey with
  | some m =>
    let publicKey ← Run.backendAt .loadingSigningKey
      ((s.backend r.kind).loadPublicKey (← s.material .loadingSigningKey m))
    return some ⟨publicKey, certificate⟩
  | none => return certificate.map fun (c : Certificate) => ⟨c.info.publicKey, some c⟩

/-! ## The subject -/

def subjectKey (s : Site σ) (r : CertificateRequest) (authority : PublicKey) : Run σ SubjectKey :=
  let b := s.backend r.kind
  let stage := Stage.derivingPublicKey
  match r.publicKey, r.privateKey, r.csr with
  | some m, _, _ => do return ⟨← Run.backendAt stage (b.loadPublicKey (← s.material stage m)), none⟩
  | none, some m, _ => do
    let key ← Run.backendAt stage
      (b.loadPrivateKey (← s.material stage m) r.privateKeyPassphrase)
    return ⟨← Run.backendAt stage (b.derivePublicKey key), some key⟩
  | none, none, some m => do
    return ⟨(← Run.backendAt stage (b.loadCsr (← s.material stage m))).info.publicKey, none⟩
  | none, none, none => pure ⟨authority, none⟩

/-! ## The chain -/

/-- Certificates to append after the issued one. -/
def chain (s : Site σ) (r : CertificateRequest) : Run σ (List Certificate) := do
  let parts ← r.appendCerts.mapM fun m => do
    let a ← s.loadMaterial r.kind .loadingExisting m
    return a.certificate :: a.chain
  return parts.flatten

end Site
end CertAuthority
