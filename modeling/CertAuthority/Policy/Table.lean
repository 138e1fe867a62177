import CertAuthority.Config.Duration
import CertAuthority.Error
import CertAuthority.Policy
import CertAuthority.Toml.Table

/-!
# Policy tables

The form in which configuration files hold signing policies: extension values are compact strings,
key material is a path or inline text, and name attributes and extensions may stand among the other
fields.

* `PolicyTable.ofToml?` : a table, or a list of tables of which later ones win;
* `PolicyTable.toPolicy` : the policy. Every key has to be known, and extensions that stand among
  the other fields are forced. Abandons where a validity in days exceeds 64 bits of seconds;
* `PolicyTables.ofToml?` : the tables of one configuration file, by certificate family and name;
  other keys of the document are not looked at;
* `PolicyTables.get` : one policy, or none of that name;
* `PolicyTables.check` : finds the first policy that is refused, by family and name.
-/

namespace CertAuthority

/-- The entries of a policy, in key order. -/
abbrev PolicyTable := List (String × Json)

inductive PolicyTableError where
  /-- A known field with a value that it does not take -/
  | field (why : Json.Refusal)
  | unknownExtension (name : String)
  | notText (key : String)
  | unknownField (key : String)
deriving DecidableEq, Repr

/-- The reason in words, unless it is only a wrong type. -/
def PolicyTableError.message? : PolicyTableError → Option String
  | .field (.worded s) => some s
  | .field .mismatch => none
  | .unknownExtension name => some (ExtensionKind.unknown name)
  | .notText key => some (Text.quoted key ++ " must be a string")
  | .unknownField key => some ("unknown field " ++ Text.quoted key)

/-- The fields that a policy table has by name, as they are written. -/
structure PolicyFields where
  forcedOptions : List (String × String)
  defaultOptions : List (String × String)
  allowedOptions : Allowed
  forcedExtensions : List (String × String)
  defaultExtensions : List (String × String)
  allowedExtensions : Allowed
  allowedPrincipals : Option (List String)
  defaultPrincipals : Option (List String)
  principals : Option (List String)
  allPrincipals : Bool
  subject : Option SubjectSpec
  ttl : Option Duration
  maxTtl : Option Duration
  daysValid : Option Nat
  requesterMatcher : Option String
  overrides : Overrides

namespace PolicyTable

/-! ## Tables -/

/-- The entries of one table; a date counts as a table that holds its text. -/
def single? : Toml → Option PolicyTable
  | .table members => some (Toml.membersToJson Toml.dateAsText members)
  | .date s => some [(Toml.dateKey, .str s)]
  | _ => none

/-- Entries of `upper` replace those of `lower`. -/
def overlay (lower upper : PolicyTable) : PolicyTable :=
  upper.foldl (fun out (k, v) => Json.insertMember k v out) lower

def ofToml? : Toml → Option PolicyTable
  | .list items => do return (← items.mapM single?).foldl overlay []
  | entry => single? entry

/-! ## Fields -/

/-- Fields by name, and other names of fields. -/
def fieldNames : List String :=
  ["forced_options", "default_options", "allowed_options", "forced_extensions",
   "default_extensions", "allowed_extensions", "allowed_principals", "allowed_valid_principals",
   "default_principals", "default_valid_principals", "principals", "valid_principals",
   "all_principals", "subject", "ttl",
   "max_ttl", "days_valid", "requester_matcher", "minions", "signing_private_key",
   "signing_private_key_passphrase", "signing_cert", "signing_public_key", "cert_type", "key_id",
   "digest", "serial_number", "not_before", "not_after", "copypath", "prepend_cn"]

/-- Raw values by name. -/
def readRaw : Json.Reader (List (String × String)) := fun j => do
  (← Json.asMembers j).mapM fun (k, v) => do return (k, ← Json.asString v)

def readMaterial : Json.Reader Material := fun j => Material.ofText <$> Json.asString j

/-- A type by its name, or by a key with nothing under it. -/
def readCertType : Json.Reader CertType
  | .obj [(name, .obj [])] | .obj [(name, .arr [])] => CertType.read (.str name)
  | j => CertType.read j

/-- An optional field. -/
def field? {α : Type} (name : String) (value : Json.Reader α) : Json.FieldReader (Option α) :=
  Json.fieldD name (fun j => some <$> value j) none

/-- An optional field with two names, in ascending order; having both is refused. -/
def eitherField? {α : Type} (name other : String) (value : Json.Reader α) :
    Json.FieldReader (Option α) := do
  let a ← Json.nextField name
  let b ← Json.nextField other
  if a.isSome && b.isSome then modify (·.refuse other .mismatch)
  if b.isSome && a.isNone then field? other value else field? name value

def readOverrides : Json.FieldReader Overrides := do
  let signingPrivateKey ← field? "signing_private_key" readMaterial
  let signingPrivateKeyPassphrase ← field? "signing_private_key_passphrase" Json.asString
  let signingCert ← field? "signing_cert" readMaterial
  let signingPublicKey ← field? "signing_public_key" readMaterial
  let certType ← field? "cert_type" readCertType
  let keyId ← field? "key_id" Json.asString
  let digest ← field? "digest" Digest.read
  let serialNumber ← field? "serial_number" SerialNumber.read
  let notBefore ← field? "not_before" Json.asInstant
  let notAfter ← field? "not_after" Json.asInstant
  let copypath ← field? "copypath" Json.asString
  let prependCn ← field? "prepend_cn" Json.asBool
  return {
    signingPrivateKey, signingPrivateKeyPassphrase, signingCert, signingPublicKey, certType, keyId,
    digest, serialNumber, notBefore, notAfter, copypath, prependCn }

def readFields : Json.Reader PolicyFields := Json.asRecord do
  let strings := Json.asList Json.asString
  let forcedOptions ← Json.fieldD "forced_options" readRaw []
  let defaultOptions ← Json.fieldD "default_options" readRaw []
  let allowedOptions ← Json.fieldD "allowed_options" Allowed.read .any
  let forcedExtensions ← Json.fieldD "forced_extensions" readRaw []
  let defaultExtensions ← Json.fieldD "default_extensions" readRaw []
  let allowedExtensions ← Json.fieldD "allowed_extensions" Allowed.read .any
  let allowedPrincipals ← eitherField? "allowed_principals" "allowed_valid_principals" strings
  let defaultPrincipals ← eitherField? "default_principals" "default_valid_principals" strings
  let principals ← eitherField? "principals" "valid_principals" strings
  let allPrincipals ← Json.fieldD "all_principals" Json.asBool false
  let subject ← field? "subject" SubjectSpec.read
  let ttl ← field? "ttl" Duration.read
  let maxTtl ← field? "max_ttl" Duration.read
  let daysValid ← field? "days_valid" Json.asU64
  let requesterMatcher ← eitherField? "minions" "requester_matcher" Json.asString
  let overrides ← readOverrides
  return {
    forcedOptions, defaultOptions, allowedOptions, forcedExtensions, defaultExtensions,
    allowedExtensions, allowedPrincipals, defaultPrincipals, principals, allPrincipals, subject,
    ttl, maxTtl, daysValid, requesterMatcher, overrides }

/-! ## Policies -/

/-- Adds a raw value to a set of extensions. -/
def addRaw (s : ExtensionSet) (e : String × String) : Except PolicyTableError ExtensionSet :=
  match ExtensionKind.ofName? e.1 with
  | some k => .ok (s.insertRaw k e.2)
  | none => .error (.unknownExtension e.1)

def extensionSet (entries : List (String × String)) : Except PolicyTableError ExtensionSet :=
  entries.foldlM addRaw .empty

/-- The text of a value that stands for text. -/
def textOf? : Json → Option String
  | .str s => some s
  | .bool b => some (toString b)
  | .int n => some (toString n)
  | _ => none

/-- Adds a name attribute or a forced extension to a policy. -/
def addEntry (p : SigningPolicy) (e : String × Json) : Except PolicyTableError SigningPolicy :=
  match textOf? e.2, NameAttribute.ofShortName? e.1, ExtensionKind.ofName? e.1 with
  | none, _, _ => .error (.notText e.1)
  | some s, some a, _ => .ok { p with nameAttributes := p.nameAttributes ++ [(a, s)] }
  | some s, none, some k => .ok <|
    if k.section? = some .criticalOption then
      { p with forcedOptions := p.forcedOptions.insertRaw k s }
    else { p with forcedExtensions := p.forcedExtensions.insertRaw k s }
  | some _, none, none => .error (.unknownField e.1)

def principalsOf (f : PolicyFields) : Principals :=
  if f.allPrincipals then .all
  else match f.principals with
    | some names => .list names
    | none => .unspecified

/-- Seconds of validity; days count where there is no `ttl`. -/
def ttlOf (f : PolicyFields) : Outcome PolicyTableError (Option Nat) :=
  match f.ttl, f.daysValid with
  | some d, _ => .ok (some d.seconds)
  | none, none => .ok none
  | none, some days =>
    if days * Duration.day < Duration.bound then .ok (some (days * Duration.day))
    else Outcome.abandon

/-- The policy without what the fields of no fixed name add. -/
def basePolicy (kind : CertificateKind) (f : PolicyFields) :
    Except PolicyTableError SigningPolicy := do
  let forcedOptions ← extensionSet f.forcedOptions
  let defaultOptions ← extensionSet f.defaultOptions
  let forcedExtensions ← extensionSet f.forcedExtensions
  let defaultExtensions ← extensionSet f.defaultExtensions
  return {
    kind, forcedOptions, defaultOptions, forcedExtensions, defaultExtensions
    allowedOptions := f.allowedOptions
    allowedExtensions := f.allowedExtensions
    allowedPrincipals := f.allowedPrincipals
    defaultPrincipals := f.defaultPrincipals
    principals := principalsOf f
    subject := f.subject
    maxTtl := f.maxTtl.map (·.seconds)
    requesterMatcher := f.requesterMatcher
    overrides := f.overrides }

/-- Entries that are not fields. -/
def otherEntries (t : PolicyTable) : PolicyTable := t.filter fun (k, _) => !fieldNames.contains k

def toPolicy (kind : CertificateKind) (t : PolicyTable) :
    Outcome PolicyTableError SigningPolicy := do
  let fields ← (readFields (.obj t)).mapError fun why => .error (.field why)
  let base ← (basePolicy kind fields).mapError .error
  let policy ← (t.otherEntries.foldlM addEntry base).mapError .error
  return { policy with ttl := ← ttlOf fields }

end PolicyTable

/-! ## Named policies -/

/-- Tables by name, in the order of the names. -/
structure PolicyTables where
  x509 : List (String × PolicyTable) := []
  ssh : List (String × PolicyTable) := []
deriving Inhabited

namespace PolicyTables

def ofFamily? : Toml → Option (List (String × PolicyTable))
  | .table members => members.foldlM (fun out (name, v) => do
      return Json.insertMember name (← PolicyTable.ofToml? v) out) []
  | _ => none

/-- The tables under one key of a document. -/
def section? (document : List (String × Toml)) (key : String) :
    Option (List (String × PolicyTable)) :=
  match document.lookup key with
  | some v => ofFamily? v
  | none => some []

def ofToml? : Toml → Option PolicyTables
  | .table document => do
    return ⟨← section? document "x509_signing_policies", ← section? document "ssh_signing_policies"⟩
  | _ => none

def ofKind (t : PolicyTables) : CertificateKind → List (String × PolicyTable)
  | .x509 => t.x509
  | .ssh => t.ssh

/-- The error of a configuration file with this policy. -/
def refusal (name : String) (e : PolicyTableError) : Error :=
  .config (.policy name e.message?)

def resolve (kind : CertificateKind) (name : String) (t : PolicyTable) :
    Outcome Error SigningPolicy :=
  (t.toPolicy kind).mapError (refusal name)

def get (t : PolicyTables) (kind : CertificateKind) (name : String) :
    Outcome Error (Option SigningPolicy) :=
  match (t.ofKind kind).lookup name with
  | none => .ok none
  | some table => some <$> resolve kind name table

def names (t : PolicyTables) (kind : CertificateKind) : List String := (t.ofKind kind).map (·.1)

def check (t : PolicyTables) : Outcome Error Unit :=
  CertificateKind.all.forM fun kind => (t.ofKind kind).forM fun (name, table) => do
    let _ ← resolve kind name table

end PolicyTables
end CertAuthority
