import CertAuthority.Certificate.Backend
import CertAuthority.ChangeSet

/-!
# Change detection

`Desired.changesFrom` says what differs between a loaded artifact and the wanted one. Validity dates
are never compared: an artifact is due once its remaining validity drops below a threshold. Serial
numbers are compared only where the request names one.

* `principalsDiff` : names gained and lost, `*ALL*` standing for every principal;
* `sameChain` : the same certificates, in order unless the container keeps none.
-/

namespace CertAuthority

/-- What the artifact should look like. -/
structure Desired where
  draft : Draft
  encoding : Encoding
  /-- Certificates after the leaf -/
  chain : List Certificate := []
  friendlyName : Option String := none
  passphrase : Option String := none

/-- Stands for every principal in a difference. -/
def allPrincipals : String := "*ALL*"

def insertName (s : String) : List String → List String
  | [] => [s]
  | t :: rest =>
    if s < t then s :: t :: rest else if s = t then t :: rest else t :: insertName s rest

/-- Names in ascending order, each once. -/
def principalNames : Principals → List String
  | .list names => names.foldl (fun out s => insertName s out) []
  | .all | .unspecified => [allPrincipals]

def principalsDiff (old new : Principals) : Option PrincipalsDiff :=
  let a := principalNames old
  let b := principalNames new
  let d : PrincipalsDiff :=
    { added := b.filter (!a.contains ·), removed := a.filter (!b.contains ·) }
  if d.added.isEmpty && d.removed.isEmpty then none else some d

def sameChain (ordered : Bool) (old new : List Certificate) : Bool :=
  let a := old.map (·.encoded)
  let b := new.map (·.encoded)
  if ordered then a == b else a.mergeSort Bytes.le == b.mergeSort Bytes.le

/-- The container keeps the order of its certificates. -/
def Encoding.keepsOrder : Encoding → Bool
  | .pkcs7 | .pkcs12 => false
  | _ => true

namespace Desired

/-- Differences that have nothing to do with the reference time. -/
def differences (b : Backend) (existing : LoadedArtifact) (d : Desired) (expiration : Bool) :
    ChangeSet :=
  let old := existing.certificate.info
  let new := d.draft.info
  let isCrl := new.artifact == .crl
  let isSigned := new.artifact != .csr
  let isX509 := new.kind == .x509
  let bothPkcs12 := existing.encoding == .pkcs12 && d.encoding == .pkcs12
  { -- the key of a revocation list is its issuer's, which the signature checks
    privateKey := !isCrl && old.publicKey != new.publicKey
    digest := old.digest != new.digest
    signingPrivateKey := isSigned && !b.verifies existing.certificate d.draft.signer.publicKey
    expiration := expiration
    serialNumber := d.draft.request.serialNumber.isSome && old.serialNumber != new.serialNumber
    subjectName := isX509 && !isCrl && old.subject != new.subject
    issuerName := isX509 && isSigned && old.issuer != new.issuer
    keyId := !isX509 && old.keyId != new.keyId
    certType := !isX509 && old.certType != new.certType
    principals := if isX509 then none else principalsDiff old.principals new.principals
    revocations := if isCrl then RevocationsDiff.between old.revoked new.revoked else none
    extensions := ExtensionDiff.between old.extensions new.extensions
    criticalOptions := ExtensionDiff.between old.options new.options
    encoding := existing.encoding != d.encoding
    additionalCerts := !sameChain existing.encoding.keepsOrder existing.chain d.chain
    pkcs12FriendlyName := bothPkcs12 && existing.friendlyName != d.friendlyName
    pkcs12Passphrase := bothPkcs12 && existing.isProtected != d.passphrase.isSome }

/-- Abandons where the reference time plus the threshold is not representable. -/
def changesFrom (b : Backend) (existing : LoadedArtifact) (d : Desired) (now : Instant)
    (threshold : Span) : BackendResult ChangeSet :=
  if d.draft.info.artifact = .csr then .ok (differences b existing d false)
  else (existing.certificate.info.expiresWithin now threshold).map (differences b existing d)

end Desired
end CertAuthority
