import CertAuthority.Certificate.Basic
import CertAuthority.Hash.Sha256

/-!
# Certificates as JSON

`CertificateInfo.members` writes all that is known of a certificate, with `null` for what it lacks,
and `CertificateInfo.read` takes it back; only the public key is required.
-/

namespace CertAuthority

namespace CertificateInfo

def members (i : CertificateInfo) : List (String × Json) :=
  [("kind", .str i.kind.name), ("artifact", .str i.artifact.name),
   ("public_key", i.publicKey.toJson),
   ("serial_number", Json.orNull SerialNumber.toJson i.serialNumber),
   ("subject", Json.orNull DistinguishedName.toJson i.subject),
   ("issuer", Json.orNull DistinguishedName.toJson i.issuer),
   ("not_before", Json.orNull Json.ofInstant i.notBefore),
   ("not_after", Json.orNull Json.ofInstant i.notAfter),
   ("extensions", i.extensions.toJson), ("options", i.options.toJson),
   ("principals", i.principals.toJson), ("key_id", Json.orNull .str i.keyId),
   ("cert_type", Json.orNull (fun t => .str t.name) i.certType),
   ("digest", Json.orNull (fun d => .str d.name) i.digest),
   ("revoked", .arr (i.revoked.map Revocation.toJson))]

def read : Json.Reader CertificateInfo := Json.asRecord do
  let kind ← Json.fieldD "kind" CertificateKind.read .x509
  let artifact ← Json.fieldD "artifact" ArtifactKind.read .certificate
  let publicKey ← Json.field "public_key" PublicKey.read
  let serialNumber ← Json.field? "serial_number" SerialNumber.read
  let subject ← Json.field? "subject" DistinguishedName.read
  let issuer ← Json.field? "issuer" DistinguishedName.read
  let notBefore ← Json.field? "not_before" Json.asInstant
  let notAfter ← Json.field? "not_after" Json.asInstant
  let extensions ← Json.fieldD "extensions" ExtensionSet.read .empty
  let options ← Json.fieldD "options" ExtensionSet.read .empty
  let principals ← Json.fieldD "principals" Principals.read .unspecified
  let keyId ← Json.field? "key_id" Json.asString
  let certType ← Json.field? "cert_type" CertType.read
  let digest ← Json.field? "digest" Digest.read
  let revoked ← Json.fieldD "revoked" (Json.asList Revocation.read) []
  return { kind, artifact, publicKey, serialNumber, subject, issuer, notBefore, notAfter,
           extensions, options, principals, keyId, certType, digest, revoked }

end CertificateInfo

/-- SHA-256 of the encoded bytes, in hex. -/
def Certificate.fingerprint (c : Certificate) : String := Hex.encode (Sha256.digest c.encoded)

end CertAuthority
