import CertAuthority.Error
import CertAuthority.Policy

/-!
# Envelopes of the signing protocol

* `RequestEnvelope` : from a requester to one authority;
* `ReplyEnvelope` : the answer, with either data or errors. `ReplyEnvelope.result` lets errors win
  over data and refuses a reply with neither;
* `PolicyDescription` : what a requester learns about a policy.
-/

namespace CertAuthority

/-- The procedure an authority serves signing requests under. -/
def signProcedure : String := "sign_remote_certificate"

structure RequestEnvelope where
  policyName : String
  request : CertificateRequest
  /-- Only describe the policy, sign nothing -/
  policyOnly : Bool := false
  /-- Verified identity of the requester, filled in by the channel -/
  identity : Option String := none
deriving DecidableEq, Inhabited

namespace RequestEnvelope

def toJson (e : RequestEnvelope) : Json := .obj <|
  [("signing_policy_name", .str e.policyName), ("request_kwargs", e.request.toJson),
    ("get_policy_only", .bool e.policyOnly)] ++
  Json.member? "requester_identity" .str e.identity

def read : Json.Reader RequestEnvelope := Json.asRecord do
  let policyName ← Json.field "signing_policy_name" Json.asString
  let request ← Json.field "request_kwargs" CertificateRequest.read
  let policyOnly ← Json.fieldD "get_policy_only" Json.asBool false
  let identity ← Json.field? "requester_identity" Json.asString
  return { policyName, request, policyOnly, identity }

end RequestEnvelope

/-- The redacted policy and the authority's public identity. -/
structure PolicyDescription where
  policy : SigningPolicy
  signerPublicKey : Material
  signerCertificate : Option Material
deriving Inhabited

namespace PolicyDescription

def toJson (d : PolicyDescription) : Json := .obj <|
  [("policy", d.policy.toJson), ("signer_public_key", d.signerPublicKey.toJson)] ++
  Json.member? "signer_certificate" Material.toJson d.signerCertificate

def read : Json.Reader PolicyDescription := Json.asRecord do
  let policy ← Json.field "policy" SigningPolicy.read
  let signerPublicKey ← Json.field "signer_public_key" Material.read
  let signerCertificate ← Json.field? "signer_certificate" Material.read
  return { policy, signerPublicKey, signerCertificate }

end PolicyDescription

inductive ReplyData where
  /-- Signed artifact, in the backend's default encoding -/
  | certificate (b : Bytes)
  | policy (d : PolicyDescription)
deriving Inhabited

namespace ReplyData

def toJson : ReplyData → Json
  | .certificate b => .obj [("certificate", Json.ofBytes b)]
  | .policy d => .obj [("policy", d.toJson)]

def read : Json.Reader ReplyData
  | .obj [("certificate", j)] => .certificate <$> Json.asBase64 j
  | .obj [("policy", j)] => .policy <$> PolicyDescription.read j
  | _ => Json.mismatch

end ReplyData

structure ReplyEnvelope where
  data : Option ReplyData := none
  errors : List String := []
deriving Inhabited

namespace ReplyEnvelope

def ofData (d : ReplyData) : ReplyEnvelope := { data := some d }

def ofErrors (es : List String) : ReplyEnvelope := { errors := es }

def result (r : ReplyEnvelope) : Except TransportError ReplyData :=
  if !r.errors.isEmpty then .error (.remoteError r.errors)
  else match r.data with
    | some d => .ok d
    | none => .error (.malformedReply "reply carries neither data nor errors")

def toJson (r : ReplyEnvelope) : Json :=
  .obj [("data", (r.data.map ReplyData.toJson).getD .null), ("errors", Json.ofStrings r.errors)]

def read : Json.Reader ReplyEnvelope := Json.asRecord do
  let data ← Json.field? "data" ReplyData.read
  let errors ← Json.fieldD "errors" (Json.asList Json.asString) []
  return { data, errors }

end ReplyEnvelope
end CertAuthority
