import CertAuthority.Issue.Run
import CertAuthority.Peer.Envelope

/-!
# Channels and clients

A channel carries JSON to other nodes and authenticates the caller. A client asks an authority over
a channel for a signature or for the description of a policy.

* `Channel` : replies by the name of the peer that answered, none after the time limit;
* `Channel.request` : sends one envelope and takes the reply of the peer asked, else the first one;
* `Channel.sign`, `Channel.policy` : the two requests. Neither envelope names an identity: that is
  the channel's to fill in.
-/

namespace CertAuthority

/-- The replies to a call of a procedure of a peer. -/
abbrev Channel (σ : Type) :=
  String → String → Json → StateM (World σ) (Option (List (String × Json)))

/-- The reply of the peer asked, else the one first by name. -/
def replyOf? (peer : String) (replies : List (String × Json)) : Option Json :=
  replies.lookup peer <|> (replies.mergeSort fun a b => a.1 ≤ b.1).head?.map (·.2)

namespace TransportError

def undecodableReply : TransportError :=
  .malformedReply
    "received invalid return value from ca_server, see the requester log for details"

def notCertificate : TransportError := .malformedReply "expected a certificate, got a policy"

def notPolicy : TransportError := .malformedReply "expected a policy, got a certificate"

end TransportError

namespace Channel

variable {σ : Type}

/-- The data in a reply. -/
def decodeReply (reply : Json) : Except TransportError ReplyData := do
  let envelope ← (ReplyEnvelope.read reply).mapError fun _ => TransportError.undecodableReply
  envelope.result

def request (c : Channel σ) (peer : String) (e : RequestEnvelope) : Run σ ReplyData := do
  Run.note (.ask peer signProcedure e.toJson)
  let replies ← Run.onWorld (c peer signProcedure e.toJson)
  let reply ← Run.ofOption (.transport (.noResponse peer)) (replies.bind (replyOf? peer))
  Run.ofOutcome ((decodeReply reply).mapError fun e => .error (.transport e))

/-- Asks a peer to sign under a policy; the artifact comes in the peer's default encoding. -/
def sign (c : Channel σ) (peer policy : String) (r : CertificateRequest) : Run σ Bytes := do
  match ← c.request peer { policyName := policy, request := r.forRemote } with
  | .certificate b => return b
  | .policy _ => Run.fail (.transport .notCertificate)

/-- Fetches the redacted policy and the authority's public identity. -/
def policy (c : Channel σ) (k : PolicyKey) : Run σ PolicyDescription := do
  let e : RequestEnvelope :=
    { policyName := k.policy, request := .new k.kind, policyOnly := true }
  match ← c.request k.peer e with
  | .policy d => return d
  | .certificate _ => Run.fail (.transport .notPolicy)

end Channel
end CertAuthority
