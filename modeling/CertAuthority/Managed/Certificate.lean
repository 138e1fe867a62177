import CertAuthority.Managed.Node

/-!
# Managed certificates

`Node.certificate` brings the certificate at a path in line with its request. The node signs itself
or has a remote authority sign; the authority gets the public key alone, with no key material.
-/

namespace CertAuthority.Node

variable {σ : Type}

def noSubjectKey : Error :=
  .staged .derivingPublicKey (.backend
    (.invalidSpec "public_key" "remote issuance needs a public key, private key or CSR"))

/-- The key to certify. A remote authority's own key is never meant. -/
def subjectFor (n : Node σ) (r : CertificateRequest) (signer : Signer) : Run σ SubjectKey := do
  match signer with
  | .here _ => pure ()
  | .peer _ _ _ =>
    if r.publicKey.isNone && r.privateKey.isNone && r.csr.isNone then Run.fail noSubjectKey
  n.site.subjectKey r signer.identity.publicKey

/-- Has a peer sign a request for this key. -/
def issueRemote (n : Node σ) (peer policy : String) (r : CertificateRequest) (subject : PublicKey) :
    Run σ Certificate := do
  let b := n.site.backend r.kind
  let channel ← Run.ofOption (.config (.noChannel peer)) n.channel
  let data ← Run.backendAt .encoding (b.encodePublicKey subject)
  let signed ← Run.atStage .requestingPeer
    (channel.sign peer policy { r with publicKey := some (.inline data), csr := none })
  let c := (← Run.backendAt .requestingPeer (b.load signed none)).certificate
  n.site.keepCopy r c
  return c

/-- Issues what a draft describes. -/
def issueFor (n : Node σ) (r : CertificateRequest) (d : Draft) (signer : Signer)
    (subject : PublicKey) : Run σ Certificate :=
  match signer with
  | .here m => n.site.signCertificate d m.key
  | .peer name policy _ => n.issueRemote name policy r subject

def certificate (n : Node σ) (spec : CertificateSpec) : Run σ (Report ChangeSet Certificate) := do
  let (r, signer) ← n.resolve spec
  let subject ← n.subjectFor r signer
  let existing ← n.site.existing spec.target.path
    ((n.site.backend r.kind).loadAs .certificate · r.pkcs12Passphrase)
  let draft ← n.site.draft .certificate r subject.publicKey signer.identity
  let chain ← n.site.chain r
  let desired : Desired :=
    { draft, encoding := r.encoding, chain
      friendlyName := r.pkcs12FriendlyName
      passphrase := r.pkcs12Passphrase }
  let threshold := spec.threshold.getD (n.config.renewalThreshold r.kind r.certType)
  let embedKey := if r.encoding = .pkcs12 then subject.privateKey else none
  n.settle spec.target existing desired threshold embedKey
    (n.issueFor spec.request draft signer subject.publicKey)

end CertAuthority.Node
