import CertAuthority.Managed.Node

/-!
# Managed revocation lists

`Node.revocationList` brings the revocation list at a path in line with the wanted revocations. An
entry that is listed already keeps its revocation date, and a reissued list without an explicit
number gets the next one.
-/

namespace CertAuthority

structure RevocationListSpec where
  target : Target
  request : CertificateRequest
  threshold : Option Span := none

def RevocationListSpec.read : Json.Reader RevocationListSpec := Json.asRecord do
  let target ← Target.read Target.artifactMode
  let request ← Json.field "request" CertificateRequest.read
  return { target, request }

namespace RevokedCertificate

/-- The entry with what the certificate itself says. -/
def ofCertificate (e : RevokedCertificate) (c : Certificate) : RevokedCertificate :=
  { e with serialNumber := c.info.serialNumber, notAfter := e.notAfter <|> c.info.notAfter }

/-- The entry with the date it is listed with already, unless it has one. -/
def keepDate (listed : List Revocation) (e : RevokedCertificate) : RevokedCertificate :=
  { e with
    revocationDate := e.revocationDate <|>
      (listed.find? fun r => e.serialNumber == some r.serialNumber).map (·.revocationDate) }

end RevokedCertificate

/-- The number after that of an existing list, in 64 bits; the first list has number 1. -/
def nextListNumber (existing : Existing) : SerialNumber :=
  let last := (existing.loaded?.bind (·.certificate.info.serialNumber)).map (·.low64)
  ⟨min (last.getD 0 + 1) (bitLimit 64 - 1)⟩

namespace Node

variable {σ : Type}

/-- An entry that names a certificate, completed from it. -/
def completeEntry (n : Node σ) (kind : CertificateKind) (e : RevokedCertificate) :
    Run σ RevokedCertificate :=
  match e.certificate with
  | none => pure e
  | some m => do return e.ofCertificate (← n.site.loadMaterial kind .loadingRevoked m).certificate

/-- The request with complete entries and the time to the next list. -/
def listRequest (n : Node σ) (r : CertificateRequest) (existing : Existing) :
    Run σ CertificateRequest := do
  let revoked ← r.revoked.mapM (n.completeEntry r.kind)
  let listed := (existing.loaded?.map (·.certificate.info.revoked)).getD []
  let ttl := if r.notAfter.isSome then r.ttl else r.ttl <|> some n.config.issuance.crlTtl.seconds
  return n.withDefaults { r with revoked := revoked.map (·.keepDate listed), ttl }

/-- The draft with its number; an explicit one stays. -/
def numbered (existing : Existing) (d : Draft) : Draft :=
  if d.request.serialNumber.isSome then d
  else { d with info := { d.info with serialNumber := some (nextListNumber existing) } }

def revocationList (n : Node σ) (spec : RevocationListSpec) :
    Run σ (Report ChangeSet Certificate) := do
  let existing ← n.site.existing spec.target.path
    ((n.site.backend spec.request.kind).loadAs .crl · none)
  let r ← n.listRequest spec.request existing
  let signing ← n.site.requireSigner r
  let draft ← n.site.draft .crl r signing.identity.publicKey signing.identity
  let threshold := spec.threshold.getD n.config.crlThreshold
  n.settle spec.target existing { draft, encoding := r.encoding } threshold none
    (n.site.sign (numbered existing draft) signing.key)

end Node
end CertAuthority
