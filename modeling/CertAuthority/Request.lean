import CertAuthority.Extension.Set
import CertAuthority.Name.Basic
import CertAuthority.Revocation

/-!
# Certificate requests

What a requester wants in a certificate, signing request or revocation list. The same shape is used
before and after a signing policy was applied.

* `CertificateRequest.new` : the empty request of a kind;
* `daysValid?` : a validity in days, unless it exceeds 64 bits of seconds;
* `forRemote` : the copy that may leave this node.
-/

namespace CertAuthority

structure CertificateRequest where
  kind : CertificateKind
  /-- Subject public key -/
  publicKey : Option Material := none
  /-- Subject private key; the public key is derived from it -/
  privateKey : Option Material := none
  privateKeyPassphrase : Option String := none
  /-- Signing request to take the public key from -/
  csr : Option Material := none
  /-- Full subject (X.509) -/
  subject : Option SubjectSpec := none
  /-- Individual name attributes (X.509) -/
  nameAttributes : List (NameAttribute × String) := []
  /-- Principals, key identifier and type (OpenSSH) -/
  principals : Principals := .unspecified
  keyId : Option String := none
  certType : Option CertType := none
  /-- OpenSSH critical options -/
  options : ExtensionSet := .empty
  /-- X.509 or OpenSSH extensions -/
  extensions : ExtensionSet := .empty
  notBefore : Option Instant := none
  /-- End of validity, before `ttl` -/
  notAfter : Option Instant := none
  /-- Validity in seconds -/
  ttl : Option Nat := none
  /-- Explicit serial number, or the number of a revocation list -/
  serialNumber : Option SerialNumber := none
  digest : Option Digest := none
  /-- Key, certificate and public key of the authority -/
  signingPrivateKey : Option Material := none
  signingPrivateKeyPassphrase : Option String := none
  signingCert : Option Material := none
  signingPublicKey : Option Material := none
  /-- Directory for a copy named by serial number -/
  copypath : Option String := none
  prependCn : Bool := false
  encoding : Encoding := .pem
  /-- Certificates appended after the issued one -/
  appendCerts : List Material := []
  pkcs12FriendlyName : Option String := none
  pkcs12Passphrase : Option String := none
  /-- Certificates listed in a revocation list -/
  revoked : List RevokedCertificate := []
  includeExpired : Bool := false
deriving DecidableEq, Inhabited

namespace CertificateRequest

def new (kind : CertificateKind) : CertificateRequest :=
  { kind, encoding := if kind = .ssh then .openssh else .pem }

def secondsPerDay : Nat := 86400

/-- The request with a validity of `days`, if that many seconds fit 64 bits. -/
def daysValid? (r : CertificateRequest) (days : Nat) : Option CertificateRequest :=
  if days * secondsPerDay < bitLimit 64 then some { r with ttl := some (days * secondsPerDay) }
  else none

/-- Key material and output options stay on this node. -/
def forRemote (r : CertificateRequest) : CertificateRequest :=
  { r with
    privateKey := none
    privateKeyPassphrase := none
    signingPrivateKey := none
    signingPrivateKeyPassphrase := none
    copypath := none
    appendCerts := []
    pkcs12Passphrase := none
    revoked := [] }

/-! ## JSON -/

def toJson (r : CertificateRequest) : Json := .obj <|
  [("kind", .str r.kind.name)] ++
  Json.member? "public_key" Material.toJson r.publicKey ++
  Json.member? "private_key" Material.toJson r.privateKey ++
  Json.member? "private_key_passphrase" .str r.privateKeyPassphrase ++
  Json.member? "csr" Material.toJson r.csr ++
  Json.member? "subject" SubjectSpec.toJson r.subject ++
  Json.memberUnless r.nameAttributes.isEmpty "name_attributes"
    (.arr (r.nameAttributes.map DistinguishedName.pairToJson)) ++
  Json.memberUnless r.principals.isUnspecified "principals" r.principals.toJson ++
  Json.member? "key_id" .str r.keyId ++
  Json.member? "cert_type" (fun t => .str t.name) r.certType ++
  Json.memberUnless r.options.isEmpty "options" r.options.toJson ++
  Json.memberUnless r.extensions.isEmpty "extensions" r.extensions.toJson ++
  Json.member? "not_before" Json.ofInstant r.notBefore ++
  Json.member? "not_after" Json.ofInstant r.notAfter ++
  Json.member? "ttl" Json.ofNat r.ttl ++
  Json.member? "serial_number" SerialNumber.toJson r.serialNumber ++
  Json.member? "digest" (fun d => .str d.name) r.digest ++
  Json.member? "signing_private_key" Material.toJson r.signingPrivateKey ++
  Json.member? "signing_private_key_passphrase" .str r.signingPrivateKeyPassphrase ++
  Json.member? "signing_cert" Material.toJson r.signingCert ++
  Json.member? "signing_public_key" Material.toJson r.signingPublicKey ++
  Json.member? "copypath" .str r.copypath ++
  [("prepend_cn", .bool r.prependCn), ("encoding", .str r.encoding.name)] ++
  Json.memberUnless r.appendCerts.isEmpty "append_certs"
    (.arr (r.appendCerts.map Material.toJson)) ++
  Json.member? "pkcs12_friendlyname" .str r.pkcs12FriendlyName ++
  Json.member? "pkcs12_passphrase" .str r.pkcs12Passphrase ++
  Json.memberUnless r.revoked.isEmpty "revoked" (.arr (r.revoked.map RevokedCertificate.toJson)) ++
  [("include_expired", .bool r.includeExpired)]

def read : Json.Reader CertificateRequest := Json.asRecord do
  let kind ← Json.field "kind" CertificateKind.read
  let publicKey ← Json.field? "public_key" Material.read
  let privateKey ← Json.field? "private_key" Material.read
  let privateKeyPassphrase ← Json.field? "private_key_passphrase" Json.asString
  let csr ← Json.field? "csr" Material.read
  let subject ← Json.field? "subject" SubjectSpec.read
  let nameAttributes ←
    Json.fieldD "name_attributes" (Json.asList DistinguishedName.readPair) []
  let principals ← Json.fieldD "principals" Principals.read .unspecified
  let keyId ← Json.field? "key_id" Json.asString
  let certType ← Json.field? "cert_type" CertType.read
  let options ← Json.fieldD "options" ExtensionSet.read .empty
  let extensions ← Json.fieldD "extensions" ExtensionSet.read .empty
  let notBefore ← Json.field? "not_before" Json.asInstant
  let notAfter ← Json.field? "not_after" Json.asInstant
  let ttl ← Json.field? "ttl" Json.asU64
  let serialNumber ← Json.field? "serial_number" SerialNumber.read
  let digest ← Json.field? "digest" Digest.read
  let signingPrivateKey ← Json.field? "signing_private_key" Material.read
  let signingPrivateKeyPassphrase ← Json.field? "signing_private_key_passphrase" Json.asString
  let signingCert ← Json.field? "signing_cert" Material.read
  let signingPublicKey ← Json.field? "signing_public_key" Material.read
  let copypath ← Json.field? "copypath" Json.asString
  let prependCn ← Json.fieldD "prepend_cn" Json.asBool false
  let encoding ← Json.fieldD "encoding" Encoding.read .pem
  let appendCerts ← Json.fieldD "append_certs" (Json.asList Material.read) []
  let pkcs12FriendlyName ← Json.field? "pkcs12_friendlyname" Json.asString
  let pkcs12Passphrase ← Json.field? "pkcs12_passphrase" Json.asString
  let revoked ← Json.fieldD "revoked" (Json.asList RevokedCertificate.read) []
  let includeExpired ← Json.fieldD "include_expired" Json.asBool false
  return {
    kind, publicKey, privateKey, privateKeyPassphrase, csr, subject, nameAttributes, principals,
    keyId, certType, options, extensions, notBefore, notAfter, ttl, serialNumber, digest,
    signingPrivateKey, signingPrivateKeyPassphrase, signingCert, signingPublicKey, copypath,
    prependCn, encoding, appendCerts, pkcs12FriendlyName, pkcs12Passphrase, revoked,
    includeExpired }

end CertificateRequest
end CertAuthority
