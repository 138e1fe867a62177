import CertAuthority.Managed.Node

/-!
# Managed signing requests

`Node.signingRequest` brings the signing request at a path in line with what is wanted. It is signed
with the subject's own key and never goes through a policy.
-/

namespace CertAuthority

structure SigningRequestSpec where
  target : Target
  request : CertificateRequest

def SigningRequestSpec.read : Json.Reader SigningRequestSpec := Json.asRecord do
  let target ← Target.read Target.artifactMode
  let request ← Json.field "request" CertificateRequest.read
  return { target, request }

namespace Node

variable {σ : Type}

def noPrivateKey : Error :=
  .staged .loadingSigningKey (.backend
    (.invalidSpec "private_key" "a CSR is signed with the subject's private key"))

def signingRequest (n : Node σ) (spec : SigningRequestSpec) :
    Run σ (Report ChangeSet Certificate) := do
  let r := n.withDefaults spec.request
  let b := n.site.backend r.kind
  let m ← Run.ofOption noPrivateKey r.privateKey
  let key ← Run.backendAt .loadingSigningKey
    (b.loadPrivateKey (← n.site.material .loadingSigningKey m) r.privateKeyPassphrase)
  let publicKey ← Run.backendAt .derivingPublicKey (b.derivePublicKey key)
  let existing ← n.site.existing spec.target.path (b.loadAs .csr · none)
  let draft ← n.site.draft .csr r publicKey ⟨publicKey, none⟩
  n.settle spec.target existing { draft, encoding := r.encoding } .zero none (n.site.sign draft key)

end Node
end CertAuthority
