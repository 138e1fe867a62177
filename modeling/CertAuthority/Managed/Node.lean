import CertAuthority.Issue.Issuance
import CertAuthority.Managed.Target
import CertAuthority.Merge
import CertAuthority.Peer.Channel
import CertAuthority.Policy.Store

/-!
# Nodes

A node keeps artifacts. Its configuration decides what neither request nor policy do.

* `Node.withDefaults` : a resolved request with the validity and digest of the configuration;
* `Node.resolve` : the request under its policy, of this node or of a remote one, and who signs.
-/

namespace CertAuthority

structure Node (σ : Type) where
  site : Site σ
  config : Config
  store : PolicyStore
  /-- Way to remote authorities -/
  channel : Option (Channel σ) := none

/-- A certificate kept at a path. -/
structure CertificateSpec where
  target : Target
  request : CertificateRequest
  /-- Remote authority to sign with -/
  authority : Option String := none
  /-- Policy to resolve the request under -/
  policy : Option String := none
  /-- Remaining validity to renew at, in place of the configured one -/
  threshold : Option Span := none

def CertificateSpec.read : Json.Reader CertificateSpec := Json.asRecord do
  let target ← Target.read Target.artifactMode
  let request ← Json.field "request" CertificateRequest.read
  let authority ← Json.field? "ca_server" Json.asString
  let policy ← Json.field? "policy" Json.asString
  return { target, request, authority, policy }

/-- Who signs: this node, or a peer under one of its policies. -/
inductive Signer where
  | here (m : SigningMaterial)
  | peer (name policy : String) (identity : SignerIdentity)

def Signer.identity : Signer → SignerIdentity
  | .here m => m.identity
  | .peer _ _ identity => identity

namespace Node

variable {σ : Type}

def withDefaults (n : Node σ) (r : CertificateRequest) : CertificateRequest :=
  { r with
    ttl := if r.notAfter.isSome then r.ttl else r.ttl <|> some (n.config.defaultTtl r.kind).seconds
    digest := if r.kind = .x509 then r.digest <|> n.config.issuance.digest else r.digest }

/-! ## Remote policies -/

def notInline : Error := .transport (.malformedReply "signer material must be inline")

/-- The public identity in a description. -/
def remoteIdentity (n : Node σ) (kind : CertificateKind) (d : PolicyDescription) :
    Run σ SignerIdentity := do
  let b := n.site.backend kind
  let publicKey ← match d.signerPublicKey with
    | .inline data => Run.backendAt .loadingPolicy (b.loadPublicKey data)
    | .path _ => Run.fail (.staged .loadingPolicy notInline)
  match d.signerCertificate with
  | none => return ⟨publicKey, none⟩
  | some (.inline data) =>
    return ⟨publicKey, (← Run.backendAt .loadingSigningCert (b.load data none)).certificate⟩
  | some (.path _) => Run.fail (.staged .loadingSigningCert notInline)

/-- The request under a policy of a peer. -/
def resolveRemote (n : Node σ) (peer : String) (spec : CertificateSpec) :
    Run σ (CertificateRequest × Signer) := do
  let name ← Run.ofOption (.staged .loadingPolicy (.policy (.notFound ""))) spec.policy
  let channel ← Run.ofOption (.config (.noChannel peer)) n.channel
  let key : PolicyKey := ⟨peer, spec.request.kind, name⟩
  let d ← Run.atStage .loadingPolicy (Run.knownPolicy key (channel.policy key))
  let identity ← n.remoteIdentity spec.request.kind d
  return (n.withDefaults (spec.request.under d.policy), .peer peer name identity)

/-! ## Policies of this node -/

def policyOf (n : Node σ) (kind : CertificateKind) (name : String) : Run σ SigningPolicy :=
  Run.atStage .loadingPolicy do
    Run.ofOption (.policy (.notFound name)) (← Run.ofOutcome (n.store kind name))

def resolveLocal (n : Node σ) (spec : CertificateSpec) : Run σ (CertificateRequest × Signer) := do
  let policy ← spec.policy.mapM (n.policyOf spec.request.kind)
  let r := n.withDefaults (spec.request.under policy)
  return (r, .here (← n.site.requireSigner r))

def resolve (n : Node σ) (spec : CertificateSpec) : Run σ (CertificateRequest × Signer) :=
  match spec.authority with
  | some peer => n.resolveRemote peer spec
  | none => n.resolveLocal spec

/-! ## Decisions -/

def decide (n : Node σ) (kind : CertificateKind) (existing : Existing) (d : Desired)
    (threshold : Span) : Run σ (Decision ChangeSet Certificate) := do
  Run.ofBackend (existing.decide (n.site.backend kind) d (← get).world.now threshold)

/-- Acts on the decision about an artifact. -/
def settle (n : Node σ) (t : Target) (existing : Existing) (d : Desired) (threshold : Span)
    (embedKey : Option PrivateKey) (issue : Run σ Certificate) :
    Run σ (Report ChangeSet Certificate) := do
  let kind := d.draft.request.kind
  let decision ← n.decide kind existing d threshold
  n.site.settle t {} decision issue fun c =>
    n.site.encode .encoding kind c d.encoding
      { chain := d.chain, embedKey, passphrase := d.passphrase, friendlyName := d.friendlyName }

end Node
end CertAuthority
