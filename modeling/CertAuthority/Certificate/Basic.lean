import CertAuthority.Error
import CertAuthority.Request

/-!
# Keys, certificates and drafts

What the engines know of keys and certificates, whatever their format.

* `PrivateKey`, `PublicKey` : handles; two public keys are equal when their encodings are;
* `CertificateInfo` : the view of a certificate, signing request or revocation list. Of a list,
  `serialNumber` is its number and the two dates its this and next update;
* `CertificateInfo.expiresWithin` : abandons where the reference time leaves the representable
  range;
* `Draft` : an unsigned artifact, with the view it will have once signed;
* `LoadedArtifact` : an artifact read from storage, with what its container adds.
-/

namespace CertAuthority

/-- Decrypted private key: PKCS#8 DER for X.509, unencrypted OpenSSH text for OpenSSH. -/
structure PrivateKey where
  kind : CertificateKind
  algorithm : KeyAlgorithm
  encoded : Bytes
deriving DecidableEq, Inhabited

/-- A debugging view leaves the key itself out. -/
def PrivateKey.debug (k : PrivateKey) : String :=
  "PrivateKey \x7b kind: " ++ k.kind.label ++ ", algorithm: " ++ k.algorithm.label ++ ", .. \x7d"

/-- SubjectPublicKeyInfo DER for X.509, the line without comment for OpenSSH. -/
structure PublicKey where
  kind : CertificateKind
  algorithm : KeyAlgorithm
  encoded : Bytes
deriving DecidableEq, Inhabited

namespace PublicKey

def toJson (k : PublicKey) : Json :=
  .obj [("kind", .str k.kind.name), ("algorithm", .str k.algorithm.name),
    ("encoded", Json.ofBytes k.encoded)]

def read : Json.Reader PublicKey := Json.asRecord do
  let kind ← Json.field "kind" CertificateKind.read
  let algorithm ← Json.field "algorithm" KeyAlgorithm.read
  let encoded ← Json.field "encoded" Json.asBase64
  return { kind, algorithm, encoded }

end PublicKey

structure CertificateInfo where
  kind : CertificateKind := .x509
  artifact : ArtifactKind := .certificate
  publicKey : PublicKey
  serialNumber : Option SerialNumber := none
  subject : Option DistinguishedName := none
  issuer : Option DistinguishedName := none
  notBefore : Option Instant := none
  notAfter : Option Instant := none
  /-- X.509 or OpenSSH extensions -/
  extensions : ExtensionSet := .empty
  /-- OpenSSH critical options -/
  options : ExtensionSet := .empty
  principals : Principals := .unspecified
  keyId : Option String := none
  certType : Option CertType := none
  /-- Digest of the signature, none where the algorithm fixes it -/
  digest : Option Digest := none
  revoked : List Revocation := []
deriving DecidableEq, Inhabited

namespace CertificateInfo

def expiresWithin (i : CertificateInfo) (now : Instant) (threshold : Span) : BackendResult Bool :=
  match i.notAfter with
  | none => .ok false
  | some notAfter => match now.plus? threshold with
    | none => Outcome.abandon
    | some limit => .ok (notAfter.lt limit)

def isExpired (i : CertificateInfo) (now : Instant) : Bool := i.notAfter.any fun t => t.le now

def commonName? (i : CertificateInfo) : Option String := i.subject.bind (·.commonName?)

end CertificateInfo

/-- DER for X.509, the line for OpenSSH, with its view. -/
structure Certificate where
  encoded : Bytes
  info : CertificateInfo
deriving DecidableEq, Inhabited

/-- Public identity of a signer: enough to draft and to verify, not to sign. -/
structure SignerIdentity where
  publicKey : PublicKey
  /-- Certificate of the authority (X.509) -/
  certificate : Option Certificate
deriving DecidableEq, Inhabited

structure Draft where
  request : CertificateRequest
  signer : SignerIdentity
  info : CertificateInfo
deriving DecidableEq, Inhabited

structure LoadedArtifact where
  certificate : Certificate
  encoding : Encoding
  /-- Certificates stored after the first -/
  chain : List Certificate := []
  friendlyName : Option String := none
  /-- The container was protected by a passphrase -/
  isProtected : Bool := false
deriving DecidableEq, Inhabited

/-- What a container takes besides the certificate. -/
structure EncodeOptions where
  chain : List Certificate := []
  embedKey : Option PrivateKey := none
  passphrase : Option String := none
  friendlyName : Option String := none

end CertAuthority
