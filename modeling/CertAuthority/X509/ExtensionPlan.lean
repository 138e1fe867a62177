import CertAuthority.X509.Extension
import CertAuthority.X509.KeyInfo

/-!
# Requested extensions

The extensions of a request, read into what is to be written, and written in a fixed order.

* `ExtensionPlan.ofRequest` : refuses a kind this library cannot write, and a value it cannot read;
* `ExtensionPlan.extensions` : the extensions of a certificate. Basic constraints bring a subject
  key identifier with them. Text that cannot be encoded abandons the computation;
* `ExtensionPlan.requested` : those of a signing request, which cannot carry all kinds.
-/

namespace CertAuthority.X509

open Der

/-- Whether the subject is an authority, where the request says so. -/
inductive Role where
  | unstated
  | endEntity
  | authority (pathLength : Option Nat)
deriving DecidableEq, Repr

/-- Names an authority may, or may not, issue for. -/
structure NameSubtrees where
  permitted : List GeneralName := []
  excluded : List GeneralName := []
deriving DecidableEq, Repr

structure ExtensionPlan where
  role : Role := .unstated
  keyUsages : List KeyUsage := []
  purposes : List (List Nat) := []
  alternativeNames : List GeneralName := []
  distributionPoints : List String := []
  nameConstraints : Option NameSubtrees := none
  authorityKeyIdentifier : Bool := false
  subjectKeyIdentifier : Bool := false
  noCheck : Bool := false
  comment : Option String := none
deriving DecidableEq, Repr

/-! ## Reading requested values -/

def invalid {α : Type} (k : ExtensionKind) (reason : String) : BackendResult α :=
  Outcome.fail (.invalidSpec k.name reason)

def valueTokens (k : ExtensionKind) (v : ExtensionValue) : BackendResult (List String) :=
  if k.section?.isSome then invalid k "OpenSSH option in an X.509 request"
  else match v.value.tokens? with
    | some ts => .ok ts
    | none => invalid k "value must be text or a list of text"

theorem valueTokens_eq_ok {k : ExtensionKind} {v : ExtensionValue} {ts : List String}
    (hk : k.section? = none) (ht : v.value.tokens? = some ts) : valueTokens k v = .ok ts := by
  simp [valueTokens, hk, ht]

def unknownValue {α : Type} (k : ExtensionKind) (token : String) : BackendResult α :=
  invalid k ("unknown value " ++ Text.quoted token)

def readUsage (token : String) : BackendResult KeyUsage :=
  match KeyUsage.all.find? fun u => Text.sameLetters u.name token with
  | some u => .ok u
  | none => unknownValue .keyUsage token

/-- A purpose by name, or by a dotted identifier. -/
def readPurpose (token : String) : BackendResult (List Nat) :=
  if token.contains '.' then
    match (Text.splitOnChar '.' token).mapM fun arc => Text.natBelow? (bitLimit 64) arc.toList with
    | some arcs => .ok arcs
    | none => invalid .extendedKeyUsage ("invalid OID " ++ Text.quoted token)
  else
    match Purpose.all.find? fun p => Text.sameLetters p.name token with
    | some p => .ok p.oid
    | none => unknownValue .extendedKeyUsage token

/-- Authority flag and path length read so far. -/
structure RoleTokens where
  ca : Option Bool := none
  pathLength : Option Nat := none

def readRoleToken (r : RoleTokens) (token : String) : BackendResult RoleTokens :=
  let k := ExtensionKind.basicConstraints
  match Text.splitOnce? ':' token with
  | none => invalid k ("expected key:value, got " ++ Text.quoted token)
  | some (key, value) =>
    match Text.lower (Text.trim key) with
    | "ca" => .ok { r with ca := some (Text.sameLetters (Text.trim value) "true") }
    | "pathlen" => match Text.natBelow? 256 (Text.trimChars value.toList) with
      | some n => .ok { r with pathLength := some n }
      | none => invalid k ("invalid pathlen " ++ Text.quoted value)
    | _ => invalid k ("unknown key " ++ Text.quoted key)

def readRole (tokens : List String) : BackendResult Role := do
  let k := ExtensionKind.basicConstraints
  let r ← tokens.foldlM readRoleToken {}
  match r.ca, r.pathLength with
  | some true, n => return .authority n
  | some false, none => return .endEntity
  | some false, some _ => invalid k "pathlen requires CA:TRUE"
  | none, _ => invalid k "CA:TRUE or CA:FALSE is required"

def asciiValue (k : ExtensionKind) (value : String) : BackendResult String :=
  if Text.isAscii value then .ok value else invalid k (Text.quoted value ++ " is not IA5 text")

def readAlternativeName (token : String) : BackendResult GeneralName :=
  let k := ExtensionKind.subjectAltName
  match Text.splitOnce? ':' token with
  | none => invalid k ("expected TYPE:value, got " ++ Text.quoted token)
  | some (type, value) =>
    match Text.lower type with
    | "dns" => (asciiValue k value).map .dns
    | "email" => (asciiValue k value).map .email
    | "uri" => (asciiValue k value).map .uri
    | "ip" | "ip address" => match Address.parse? value with
      | some a => .ok (.address a.toBytes)
      | none => invalid k ("invalid IP address " ++ Text.quoted value)
    | _ => invalid k ("unsupported name type " ++ Text.quoted type)

def readDistributionPoint (token : String) : BackendResult String :=
  if token.startsWith "URI:" then .ok (token.drop 4).toString
  else invalid .crlDistributionPoints ("expected URI:<uri>, got " ++ Text.quoted token)

def readSubtree (name : String) : BackendResult GeneralName :=
  let k := ExtensionKind.nameConstraints
  match Text.splitOnce? ':' name with
  | none => invalid k ("expected TYPE:value, got " ++ Text.quoted name)
  | some (type, value) =>
    match Text.lower type with
    | "dns" => .ok (.dns value)
    | "email" => .ok (.email value)
    | "ip" => match Subnet.parse? value with
      | some s => .ok (.address s.toBytes)
      | none => invalid k ("invalid CIDR " ++ Text.quoted value)
    | _ => invalid k ("unsupported name type " ++ Text.quoted type)

/-- `permitted;DNS:example.com`, `excluded;IP:10.0.0.0/8` -/
def readConstraint (c : NameSubtrees) (token : String) : BackendResult NameSubtrees :=
  let k := ExtensionKind.nameConstraints
  match Text.splitOnce? ';' token with
  | none => invalid k ("expected permitted;... or excluded;..., got " ++ Text.quoted token)
  | some (which, name) => do
    let subtree ← readSubtree name
    match Text.trim which with
    | "permitted" => return { c with permitted := c.permitted ++ [subtree] }
    | "excluded" => return { c with excluded := c.excluded ++ [subtree] }
    | other => invalid k ("unknown list " ++ Text.quoted other)

def readComment (tokens : List String) : BackendResult String :=
  let comment := ",".intercalate tokens
  if Text.isAscii comment then .ok comment else invalid .nsComment "comment must be ASCII"

namespace ExtensionPlan

/-- Adds one requested extension. -/
def add (p : ExtensionPlan) (e : ExtensionKind × ExtensionValue) : BackendResult ExtensionPlan := do
  let (k, v) := e
  let tokens ← valueTokens k v
  match k with
  | .basicConstraints => return { p with role := ← readRole tokens }
  | .keyUsage => return { p with keyUsages := ← tokens.mapM readUsage }
  | .extendedKeyUsage => return { p with purposes := ← tokens.mapM readPurpose }
  | .subjectKeyIdentifier => return { p with subjectKeyIdentifier := true }
  | .authorityKeyIdentifier => return { p with authorityKeyIdentifier := true }
  | .subjectAltName => return { p with alternativeNames := ← tokens.mapM readAlternativeName }
  | .crlDistributionPoints =>
    return { p with distributionPoints := ← tokens.mapM readDistributionPoint }
  | .nameConstraints =>
    return { p with nameConstraints := some (← tokens.foldlM readConstraint {}) }
  | .noCheck => return { p with noCheck := true }
  | .nsComment => return { p with comment := some (← readComment tokens) }
  | other => invalid other "extension is not supported by the X.509 backend"

def ofRequest (s : ExtensionSet) : BackendResult ExtensionPlan := s.toList.foldlM add {}

end ExtensionPlan

/-! ## Writing -/

/-- Oids, flags and values of what is written, by kind. -/
def extension (k : ExtensionKind) (critical : Bool) (value : Bytes) : Extension :=
  ⟨(extensionOid? k).getD [], critical, value⟩

/-- The bits up to the last one set. -/
def usageBits (us : List KeyUsage) : Bytes :=
  let last := us.foldl (fun n u => max n u.bit) 0
  let size := last / 8 + 1
  let n := us.foldl (fun n u => n ||| bitLimit (8 * size - 1 - u.bit)) 0
  namedBits (8 * size - 1 - last) (Bytes.ofNatWidth size n)

/-- The text is ASCII, as its encoding requires. -/
def encodable (s : String) : BackendResult Unit :=
  if Text.isAscii s then .ok () else Outcome.abandon

def pointValue (uri : String) : BackendResult Bytes := do
  encodable uri
  return seqOf [explicit 0 (explicit 0 (GeneralName.uri uri).encode)]

def subtreeValue (n : GeneralName) : BackendResult Bytes := do
  match n with
  | .dns s | .email s => encodable s
  | _ => pure ()
  return seqOf [n.encode]

/-- A list of subtrees at its tag; an empty one is left out. -/
def subtreesAt (n : Nat) (names : List GeneralName) : BackendResult Bytes := do
  if names.isEmpty then return []
  return element (tagExplicit n) (← names.mapM subtreeValue).flatten

def purposeValue (arcs : List Nat) : BackendResult Bytes :=
  if isOid arcs ∧ arcs.getD 1 0 < bitLimit 64 - 81 then .ok (oid arcs) else Outcome.abandon

def authorityKeyExtension (identifier : Bytes) : Extension :=
  extension .authorityKeyIdentifier false (seqOf [implicit 0 identifier])

/-- What the extensions of a certificate depend on besides the request. -/
structure ExtensionContext where
  subjectIsEmpty : Bool
  subject : SubjectKey
  /-- Identifier of the issuer's key -/
  authority : Bytes

namespace ExtensionPlan

def keyUsageExtension (p : ExtensionPlan) : List Extension :=
  if p.keyUsages.isEmpty then [] else [extension .keyUsage true (usageBits p.keyUsages)]

def alternativeNameExtension (p : ExtensionPlan) (subjectIsEmpty : Bool) : List Extension :=
  if p.alternativeNames.isEmpty then []
  else [extension .subjectAltName subjectIsEmpty
    (seqOf (p.alternativeNames.map GeneralName.encode))]

def purposeExtension (p : ExtensionPlan) : BackendResult (List Extension) := do
  if p.purposes.isEmpty then return []
  return [extension .extendedKeyUsage false (seqOf (← p.purposes.mapM purposeValue))]

def constraintsExtension (p : ExtensionPlan) : BackendResult (List Extension) := do
  match p.nameConstraints with
  | none => return []
  | some c =>
    if c.permitted.isEmpty ∧ c.excluded.isEmpty then return []
    return [extension .nameConstraints true
      (seqOf [← subtreesAt 0 c.permitted, ← subtreesAt 1 c.excluded])]

def pointsExtension (p : ExtensionPlan) : BackendResult (List Extension) := do
  if p.distributionPoints.isEmpty then return []
  return [extension .crlDistributionPoints false (seqOf (← p.distributionPoints.mapM pointValue))]

def basicConstraintsExtension (p : ExtensionPlan) : List Extension :=
  match p.role with
  | .unstated => []
  | .endEntity => [extension .basicConstraints true (seqOf [boolean false])]
  | .authority n =>
    [extension .basicConstraints true (seqOf ([boolean true] ++ (n.map nat).toList))]

/-- Extensions that follow all others. -/
def closingExtensions (p : ExtensionPlan) (subject : SubjectKey) : List Extension :=
  (if p.noCheck then [extension .noCheck false null] else []) ++
  (p.comment.map fun c => extension .nsComment false (ia5 c)).toList ++
  if p.subjectKeyIdentifier ∧ p.role = .unstated then
    [extension .subjectKeyIdentifier false (octets subject.bitsHash)]
  else []

def extensions (p : ExtensionPlan) (c : ExtensionContext) : BackendResult (List Extension) := do
  let identifier :=
    if p.role = .unstated then []
    else [extension .subjectKeyIdentifier false (octets c.subject.identifier)]
  return (if p.authorityKeyIdentifier then [authorityKeyExtension c.authority] else []) ++
    p.alternativeNameExtension c.subjectIsEmpty ++ p.keyUsageExtension ++ (← p.purposeExtension) ++
    (← p.constraintsExtension) ++ (← p.pointsExtension) ++ identifier ++
    p.basicConstraintsExtension ++ p.closingExtensions c.subject

/-- The kinds that a signing request has no place for are absent. -/
def isRequestable (p : ExtensionPlan) : Bool :=
  p.nameConstraints.isNone && p.distributionPoints.isEmpty && !p.authorityKeyIdentifier

def requested (p : ExtensionPlan) (subjectIsEmpty : Bool) (subject : SubjectKey) :
    BackendResult (List Extension) := do
  Outcome.ensure p.isRequestable (.crypto "extension is not supported in a signing request")
  return p.keyUsageExtension ++ p.alternativeNameExtension subjectIsEmpty ++
    (← p.purposeExtension) ++ p.basicConstraintsExtension ++ p.closingExtensions subject

end ExtensionPlan
end CertAuthority.X509
