import CertAuthority.Request

/-!
# Signing policies

The constraints an authority applies to the requests signed under one policy name.

* `Overrides` : fields a policy sets outright, in place of any requested value;
* `SigningPolicy.redacted` : the only form of a policy that may be sent to a requester;
* `SigningPolicy.ceiling?` : the longest validity it grants, its default one if it names none.
-/

namespace CertAuthority

structure Overrides where
  signingPrivateKey : Option Material := none
  signingPrivateKeyPassphrase : Option String := none
  signingCert : Option Material := none
  signingPublicKey : Option Material := none
  certType : Option CertType := none
  keyId : Option String := none
  digest : Option Digest := none
  serialNumber : Option SerialNumber := none
  notBefore : Option Instant := none
  notAfter : Option Instant := none
  copypath : Option String := none
  prependCn : Option Bool := none
deriving DecidableEq, Inhabited

structure SigningPolicy where
  kind : CertificateKind
  /-- Critical options that always apply, that apply unless requested, and that may be requested -/
  forcedOptions : ExtensionSet := .empty
  defaultOptions : ExtensionSet := .empty
  allowedOptions : Allowed := .any
  /-- The same for extensions -/
  forcedExtensions : ExtensionSet := .empty
  defaultExtensions : ExtensionSet := .empty
  allowedExtensions : Allowed := .any
  /-- Principals a requester may ask for, and those used when it asks for none -/
  allowedPrincipals : Option (List String) := none
  defaultPrincipals : Option (List String) := none
  /-- Principals that replace whatever was requested -/
  principals : Principals := .unspecified
  /-- Full subject, and attributes that replace the requested subject -/
  subject : Option SubjectSpec := none
  nameAttributes : List (NameAttribute × String) := []
  /-- Default validity and its ceiling, in seconds -/
  ttl : Option Nat := none
  maxTtl : Option Nat := none
  /-- Glob or compound expression that a requester's identity has to satisfy -/
  requesterMatcher : Option String := none
  overrides : Overrides := {}
deriving Inhabited

namespace SigningPolicy

def ceiling? (p : SigningPolicy) : Option Nat := p.maxTtl <|> p.ttl

def hasSecrets (p : SigningPolicy) : Bool :=
  p.overrides.signingPrivateKey.isSome || p.overrides.signingPrivateKeyPassphrase.isSome

/-- Without the signing key, its passphrase and the requester matcher. -/
def redacted (p : SigningPolicy) : SigningPolicy :=
  { p with
    requesterMatcher := none
    overrides := { p.overrides with
      signingPrivateKey := none
      signingPrivateKeyPassphrase := none } }

end SigningPolicy

/-! ## JSON -/

namespace Overrides

def toJson (o : Overrides) : Json := .obj <|
  Json.member? "signing_private_key" Material.toJson o.signingPrivateKey ++
  Json.member? "signing_private_key_passphrase" .str o.signingPrivateKeyPassphrase ++
  Json.member? "signing_cert" Material.toJson o.signingCert ++
  Json.member? "signing_public_key" Material.toJson o.signingPublicKey ++
  Json.member? "cert_type" (fun t => .str t.name) o.certType ++
  Json.member? "key_id" .str o.keyId ++
  Json.member? "digest" (fun d => .str d.name) o.digest ++
  Json.member? "serial_number" SerialNumber.toJson o.serialNumber ++
  Json.member? "not_before" Json.ofInstant o.notBefore ++
  Json.member? "not_after" Json.ofInstant o.notAfter ++
  Json.member? "copypath" .str o.copypath ++
  Json.member? "prepend_cn" .bool o.prependCn

def read : Json.Reader Overrides := Json.asRecord do
  let signingPrivateKey ← Json.field? "signing_private_key" Material.read
  let signingPrivateKeyPassphrase ← Json.field? "signing_private_key_passphrase" Json.asString
  let signingCert ← Json.field? "signing_cert" Material.read
  let signingPublicKey ← Json.field? "signing_public_key" Material.read
  let certType ← Json.field? "cert_type" CertType.read
  let keyId ← Json.field? "key_id" Json.asString
  let digest ← Json.field? "digest" Digest.read
  let serialNumber ← Json.field? "serial_number" SerialNumber.read
  let notBefore ← Json.field? "not_before" Json.asInstant
  let notAfter ← Json.field? "not_after" Json.asInstant
  let copypath ← Json.field? "copypath" Json.asString
  let prependCn ← Json.field? "prepend_cn" Json.asBool
  return {
    signingPrivateKey, signingPrivateKeyPassphrase, signingCert, signingPublicKey, certType, keyId,
    digest, serialNumber, notBefore, notAfter, copypath, prependCn }

end Overrides

namespace SigningPolicy

def toJson (p : SigningPolicy) : Json := .obj <|
  [("kind", .str p.kind.name)] ++
  Json.memberUnless p.forcedOptions.isEmpty "forced_options" p.forcedOptions.toJson ++
  Json.memberUnless p.defaultOptions.isEmpty "default_options" p.defaultOptions.toJson ++
  [("allowed_options", p.allowedOptions.toJson)] ++
  Json.memberUnless p.forcedExtensions.isEmpty "forced_extensions" p.forcedExtensions.toJson ++
  Json.memberUnless p.defaultExtensions.isEmpty "default_extensions" p.defaultExtensions.toJson ++
  [("allowed_extensions", p.allowedExtensions.toJson)] ++
  Json.member? "allowed_principals" Json.ofStrings p.allowedPrincipals ++
  Json.member? "default_principals" Json.ofStrings p.defaultPrincipals ++
  Json.memberUnless p.principals.isUnspecified "principals" p.principals.toJson ++
  Json.member? "subject" SubjectSpec.toJson p.subject ++
  Json.memberUnless p.nameAttributes.isEmpty "name_attributes"
    (.arr (p.nameAttributes.map DistinguishedName.pairToJson)) ++
  Json.member? "ttl" Json.ofNat p.ttl ++
  Json.member? "max_ttl" Json.ofNat p.maxTtl ++
  Json.member? "requester_matcher" .str p.requesterMatcher ++
  [("overrides", p.overrides.toJson)]

def read : Json.Reader SigningPolicy := Json.asRecord do
  let strings := Json.asList Json.asString
  let kind ← Json.field "kind" CertificateKind.read
  let forcedOptions ← Json.fieldD "forced_options" ExtensionSet.read .empty
  let defaultOptions ← Json.fieldD "default_options" ExtensionSet.read .empty
  let allowedOptions ← Json.fieldD "allowed_options" Allowed.read .any
  let forcedExtensions ← Json.fieldD "forced_extensions" ExtensionSet.read .empty
  let defaultExtensions ← Json.fieldD "default_extensions" ExtensionSet.read .empty
  let allowedExtensions ← Json.fieldD "allowed_extensions" Allowed.read .any
  let allowedPrincipals ← Json.field? "allowed_principals" strings
  let defaultPrincipals ← Json.field? "default_principals" strings
  let principals ← Json.fieldD "principals" Principals.read .unspecified
  let subject ← Json.field? "subject" SubjectSpec.read
  let nameAttributes ←
    Json.fieldD "name_attributes" (Json.asList DistinguishedName.readPair) []
  let ttl ← Json.field? "ttl" Json.asU64
  let maxTtl ← Json.field? "max_ttl" Json.asU64
  let requesterMatcher ← Json.field? "requester_matcher" Json.asString
  let overrides ← Json.fieldD "overrides" Overrides.read {}
  return {
    kind, forcedOptions, defaultOptions, allowedOptions, forcedExtensions, defaultExtensions,
    allowedExtensions, allowedPrincipals, defaultPrincipals, principals, subject, nameAttributes,
    ttl, maxTtl, requesterMatcher, overrides }

end SigningPolicy
end CertAuthority
