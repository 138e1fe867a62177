import CertAuthority.Extension.Set
import CertAuthority.Revocation

/-!
# Change sets

What differs between an artifact on disk and the wanted one.

* `ExtensionDiff.compare` : kinds added, changed and removed, each in the order of the kinds;
* `ChangeSet` : one field per aspect. Encoding, chain and PKCS#12 settings are metadata: where only
  they differ, the certificate can be kept and encoded again.
-/

namespace CertAuthority

structure ExtensionDiff where
  added : List ExtensionKind := []
  changed : List ExtensionKind := []
  removed : List ExtensionKind := []
deriving DecidableEq, Repr

namespace ExtensionDiff

def isEmpty (d : ExtensionDiff) : Bool := d.added.isEmpty && d.changed.isEmpty && d.removed.isEmpty

def compare (existing desired : ExtensionSet) : ExtensionDiff :=
  { added := desired.kinds.filter fun k => !existing.contains k
    changed := desired.kinds.filter fun k =>
      existing.contains k && existing.get? k != desired.get? k
    removed := existing.kinds.filter fun k => !desired.contains k }

/-- The difference, if there is any. -/
def between (existing desired : ExtensionSet) : Option ExtensionDiff :=
  let d := compare existing desired
  if d.isEmpty then none else some d

def toJson (d : ExtensionDiff) : Json :=
  let names (ks : List ExtensionKind) := Json.ofStrings (ks.map (·.name))
  .obj [("added", names d.added), ("changed", names d.changed), ("removed", names d.removed)]

def read : Json.Reader ExtensionDiff := Json.asRecord do
  let kinds := Json.asList ExtensionKind.read
  let added ← Json.field "added" kinds
  let changed ← Json.field "changed" kinds
  let removed ← Json.field "removed" kinds
  return { added, changed, removed }

end ExtensionDiff

/-- Principals gained and lost. -/
structure PrincipalsDiff where
  added : List String
  removed : List String
deriving DecidableEq, Repr

namespace PrincipalsDiff

def toJson (d : PrincipalsDiff) : Json :=
  .obj [("added", Json.ofStrings d.added), ("removed", Json.ofStrings d.removed)]

def read : Json.Reader PrincipalsDiff := Json.asRecord do
  let added ← Json.field "added" (Json.asList Json.asString)
  let removed ← Json.field "removed" (Json.asList Json.asString)
  return { added, removed }

end PrincipalsDiff

structure ChangeSet where
  /-- An explicitly requested serial number differs -/
  serialNumber : Bool := false
  /-- The subject public key differs -/
  privateKey : Bool := false
  /-- The signature does not verify with the authority's key -/
  signingPrivateKey : Bool := false
  subjectName : Bool := false
  issuerName : Bool := false
  keyId : Bool := false
  certType : Bool := false
  /-- The remaining validity is below the threshold -/
  expiration : Bool := false
  digest : Bool := false
  extensions : Option ExtensionDiff := none
  criticalOptions : Option ExtensionDiff := none
  principals : Option PrincipalsDiff := none
  revocations : Option RevocationsDiff := none
  encoding : Bool := false
  additionalCerts : Bool := false
  pkcs12FriendlyName : Bool := false
  pkcs12Passphrase : Bool := false
deriving DecidableEq, Repr

namespace ChangeSet

/-- Each aspect that a new signature is needed for, with whether it differs. -/
def signedAspects (c : ChangeSet) : List (String × Bool) :=
  [("serial_number", c.serialNumber), ("private_key", c.privateKey),
   ("signing_private_key", c.signingPrivateKey), ("subject_name", c.subjectName),
   ("issuer_name", c.issuerName), ("key_id", c.keyId), ("cert_type", c.certType),
   ("expiration", c.expiration), ("digest", c.digest), ("extensions", c.extensions.isSome),
   ("critical_options", c.criticalOptions.isSome), ("principals", c.principals.isSome),
   ("revocations", c.revocations.isSome)]

/-- Each aspect of how the artifact is serialized, with whether it differs. -/
def metadataAspects (c : ChangeSet) : List (String × Bool) :=
  [("encoding", c.encoding), ("additional_certs", c.additionalCerts),
   ("pkcs12_friendlyname", c.pkcs12FriendlyName), ("pkcs12_passphrase", c.pkcs12Passphrase)]

def requiresReissue (c : ChangeSet) : Bool := c.signedAspects.any (·.2)

def hasMetadataChanges (c : ChangeSet) : Bool := c.metadataAspects.any (·.2)

def isEmpty (c : ChangeSet) : Bool := !c.requiresReissue && !c.hasMetadataChanges

/-- The certificate can be kept. -/
def isMetadataOnly (c : ChangeSet) : Bool := c.hasMetadataChanges && !c.requiresReissue

def changedFields (c : ChangeSet) : List String :=
  ((c.signedAspects ++ c.metadataAspects).filter (·.2)).map (·.1)

/-! ## JSON -/

def flag (name : String) (set : Bool) : List (String × Json) :=
  Json.memberUnless (!set) name (.bool true)

def toJson (c : ChangeSet) : Json := .obj <|
  flag "serial_number" c.serialNumber ++
  flag "private_key" c.privateKey ++
  flag "signing_private_key" c.signingPrivateKey ++
  flag "subject_name" c.subjectName ++
  flag "issuer_name" c.issuerName ++
  flag "key_id" c.keyId ++
  flag "cert_type" c.certType ++
  flag "expiration" c.expiration ++
  flag "digest" c.digest ++
  Json.member? "extensions" ExtensionDiff.toJson c.extensions ++
  Json.member? "critical_options" ExtensionDiff.toJson c.criticalOptions ++
  Json.member? "principals" PrincipalsDiff.toJson c.principals ++
  Json.member? "revocations" RevocationsDiff.toJson c.revocations ++
  flag "encoding" c.encoding ++
  flag "additional_certs" c.additionalCerts ++
  flag "pkcs12_friendlyname" c.pkcs12FriendlyName ++
  flag "pkcs12_passphrase" c.pkcs12Passphrase

def read : Json.Reader ChangeSet := Json.asRecord do
  let bool (name : String) := Json.fieldD name Json.asBool false
  let serialNumber ← bool "serial_number"
  let privateKey ← bool "private_key"
  let signingPrivateKey ← bool "signing_private_key"
  let subjectName ← bool "subject_name"
  let issuerName ← bool "issuer_name"
  let keyId ← bool "key_id"
  let certType ← bool "cert_type"
  let expiration ← bool "expiration"
  let digest ← bool "digest"
  let extensions ← Json.field? "extensions" ExtensionDiff.read
  let criticalOptions ← Json.field? "critical_options" ExtensionDiff.read
  let principals ← Json.field? "principals" PrincipalsDiff.read
  let revocations ← Json.field? "revocations" RevocationsDiff.read
  let encoding ← bool "encoding"
  let additionalCerts ← bool "additional_certs"
  let pkcs12FriendlyName ← bool "pkcs12_friendlyname"
  let pkcs12Passphrase ← bool "pkcs12_passphrase"
  return {
    serialNumber, privateKey, signingPrivateKey, subjectName, issuerName, keyId, certType,
    expiration, digest, extensions, criticalOptions, principals, revocations, encoding,
    additionalCerts, pkcs12FriendlyName, pkcs12Passphrase }

end ChangeSet
end CertAuthority
