import CertAuthority.Issue.Issuance
import CertAuthority.Merge
import CertAuthority.Peer.Channel
import CertAuthority.Policy.Requester
import CertAuthority.Policy.Store

/-!
# Authorities

An authority serves signing requests under its own policies. Whatever a requester sends, there is a
reply: every failure becomes an error in it, and texts that could name files of this node are
replaced.

* `Authority.authorize` : the policy of an envelope, for a requester whom it permits;
* `CertificateRequest.confined` : the request without all that a requester must not choose here;
* `Authority.describe`, `Authority.certify` : the two services;
* `Authority.handle` : the reply to an envelope. A run that is abandoned is an internal error;
* `Authority.channel` : a channel to authorities at hand, which puts the verified identity into
  every envelope.
-/

namespace CertAuthority

structure Authority (σ : Type) where
  site : Site σ
  store : PolicyStore
  matcher : RequesterMatcher := {}

namespace CertificateRequest

/-- Material that may come from a requester: bytes, and no path of this node. -/
def inlineOnly (m : Option Material) : Option Material := m.filter Material.isInline

def confined (r : CertificateRequest) : CertificateRequest :=
  { r with
    publicKey := inlineOnly r.publicKey
    csr := inlineOnly r.csr
    privateKey := none
    privateKeyPassphrase := none
    signingPrivateKey := none
    signingPrivateKeyPassphrase := none
    signingCert := none
    signingPublicKey := none
    copypath := none
    prependCn := false
    appendCerts := []
    pkcs12Passphrase := none
    revoked := [] }

end CertificateRequest

namespace Authority

def policyFailure : String :=
  "Failed building the signing policy. See CA server log for details."

def internalError : String := "Internal error. This is most likely a bug."

/-- The reply to arguments that are not an envelope. -/
def invalidRequest : Json.Refusal → String
  | .worded s => "invalid request: " ++ s
  | .mismatch => "invalid request: "

variable {σ : Type}

/-! ## Authorization -/

/-- The requester of a policy with this matcher is permitted. -/
def permit (a : Authority σ) (expression : String) (identity : Option String) :
    Except PolicyError Unit := do
  match identity with
  | none => .error .requesterUnidentified
  | some i => if ← a.matcher.permits expression i then .ok () else .error .requesterNotPermitted

/-- The policy that an envelope may be served under, without its matcher. -/
def authorize (a : Authority σ) (e : RequestEnvelope) : Outcome Error SigningPolicy := do
  let found ← Outcome.mapError (·.atStage .loadingPolicy) (a.store e.request.kind e.policyName)
  let p ← Outcome.ofOption (.policy (.notFound e.policyName)) found
  match p.requesterMatcher with
  | none => return p
  | some expression =>
    (a.permit expression e.identity).mapError fun why => .error (.policy why)
    return { p with requesterMatcher := none }

/-! ## Services -/

/-- The public identity that a request signs with: that of its key, else what it names of it. -/
def identity (a : Authority σ) (r : CertificateRequest) : Run σ SignerIdentity := do
  match ← a.site.signer r with
  | some signing => return signing.identity
  | none => Run.ofOption .missingSigningKey (← a.site.signerIdentity r)

/-- The redacted policy and the public identity that it signs with. -/
def describe (a : Authority σ) (p : SigningPolicy) : Run σ PolicyDescription := do
  let identity ← a.identity ((CertificateRequest.new p.kind).under p)
  let publicKey ← Run.backendAt .encoding
    ((a.site.backend p.kind).encodePublicKey identity.publicKey)
  let certificate ← identity.certificate.mapM (a.site.encodePlain .encoding p.kind)
  return ⟨p.redacted, .inline publicKey, certificate.map .inline⟩

/-- Issues a certificate for a request under a policy. -/
def certify (a : Authority σ) (p : SigningPolicy) (r : CertificateRequest) : Run σ Bytes := do
  let resolved := r.confined.under p
  a.site.encodePlain .encoding resolved.kind (← a.site.issue resolved)

def perform (a : Authority σ) (p : SigningPolicy) (e : RequestEnvelope) : Run σ ReplyData :=
  if e.policyOnly then .policy <$> a.describe p else .certificate <$> a.certify p e.request

/-! ## Replies -/

/-- The reply to a request that was not authorized. -/
def refusal (e : Error) : ReplyEnvelope :=
  .ofErrors (if e.stage? = some .loadingPolicy then [policyFailure] else e.remoteMessages)

/-- The reply to what serving a request came to. -/
def replyTo : Outcome Error ReplyData → ReplyEnvelope
  | .ok d => .ofData d
  | .error (.error e) => .ofErrors e.remoteMessages
  | .error .abandoned => .ofErrors [internalError]

/-- Serves an envelope in a run of its own, and gives the reply and the state at the end. -/
def serve (a : Authority σ) (e : RequestEnvelope) (w : World σ) : ReplyEnvelope × RunState σ :=
  match a.authorize e with
  | .error (.error why) => (refusal why, ⟨w, [], {}⟩)
  | .error .abandoned => (.ofErrors [internalError], ⟨w, [], {}⟩)
  | .ok p =>
    let (result, s) := (a.perform p e).run.run ⟨w, [], {}⟩
    (replyTo result, s)

def handle (a : Authority σ) (e : RequestEnvelope) : StateM (World σ) ReplyEnvelope := fun w =>
  let (reply, s) := a.serve e w
  (reply, s.world)

/-! ## Channel -/

/-- The reply to the arguments of a call, from a caller of that identity. -/
def answer (a : Authority σ) (identity : Option String) (args : Json) :
    StateM (World σ) ReplyEnvelope :=
  match RequestEnvelope.read args with
  | .ok e => a.handle { e with identity }
  | .error why => pure (.ofErrors [invalidRequest why])

def channel (authorities : List (String × Authority σ)) (identity : Option String) : Channel σ :=
  fun peer procedure args => do
    if procedure ≠ signProcedure then return some []
    match authorities.lookup peer with
    | none => return some []
    | some a => return some [(peer, (← a.answer identity args).toJson)]

end Authority
end CertAuthority
