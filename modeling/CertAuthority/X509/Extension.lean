import CertAuthority.Certificate.Basic
import CertAuthority.X509.GeneralName

/-!
# Extensions of a certificate

An extension is an object identifier, a criticality flag, and a value of its own encoding.

* `X509.Extension.encode`, `X509.Extension.parser` : the stored form;
* `X509.extensionOid?` : the identifier of each kind of X.509 extension;
* `X509.readValue?` : the canonical value of the kinds that this library interprets;
* `X509.viewOf` : the canonical set of a certificate's extensions. What is not interpreted is kept
  as bytes, and kinds outside the vocabulary are left out;
* `X509.requestedViewOf` : the same for a signing request, where the flags are implied.
-/

namespace CertAuthority.X509

open Der

structure Extension where
  oid : List Nat
  critical : Bool
  value : Bytes
deriving DecidableEq, Repr, Inhabited

namespace Extension

/-- A flag that is not set is not written. -/
def encode (e : Extension) : Bytes :=
  seqOf ([Der.oid e.oid] ++ (if e.critical then [boolean true] else []) ++ [octets e.value])

def parser : Parser Extension := inSequence do
  let oid ← oidValue
  let critical ← optionally boolValue
  return ⟨oid, critical.getD false, ← tagged tagOctetString⟩

/-- A sequence of extensions and nothing else. -/
def listParser : Parser (List Extension) := do within (manyToEnd parser) (← tagged tagSequence)

end Extension

/-- Skips identifier and length octets of an element with this tag number. -/
def skipHeader (number : UInt8) : Parser Unit := fun r b =>
  match b with
  | [] => none
  | tag :: b' =>
    if tag &&& 0x1f = number then (takeLength r b').map fun (_, rest) => ((), rest) else none

/-- Extensions behind a tag, at the end of a structure that may have none. -/
def taggedExtensions (number : UInt8) : Parser (List Extension) := do
  if ← atEnd then return []
  skipHeader number
  let found ← Extension.listParser
  if ← atEnd then return found else Der.fail

/-! ## Kinds -/

def extensionOid? : ExtensionKind → Option (List Nat)
  | .basicConstraints => some [2, 5, 29, 19]
  | .keyUsage => some [2, 5, 29, 15]
  | .extendedKeyUsage => some [2, 5, 29, 37]
  | .subjectKeyIdentifier => some [2, 5, 29, 14]
  | .authorityKeyIdentifier => some [2, 5, 29, 35]
  | .issuerAltName => some [2, 5, 29, 18]
  | .authorityInfoAccess => some [1, 3, 6, 1, 5, 5, 7, 1, 1]
  | .subjectAltName => some [2, 5, 29, 17]
  | .crlDistributionPoints => some [2, 5, 29, 31]
  | .certificatePolicies => some [2, 5, 29, 32]
  | .policyConstraints => some [2, 5, 29, 36]
  | .inhibitAnyPolicy => some [2, 5, 29, 54]
  | .nameConstraints => some [2, 5, 29, 30]
  | .noCheck => some [1, 3, 6, 1, 5, 5, 7, 48, 1, 5]
  | .tlsFeature => some [1, 3, 6, 1, 5, 5, 7, 1, 24]
  | .nsComment => some [2, 16, 840, 1, 113730, 1, 13]
  | .nsCertType => some [2, 16, 840, 1, 113730, 1, 1]
  | _ => none

def kindOfOid? (o : List Nat) : Option ExtensionKind :=
  ExtensionKind.all.find? fun k => extensionOid? k == some o

/-! ## Usages -/

/-- In the order of their bits. -/
inductive KeyUsage where
  | digitalSignature | nonRepudiation | keyEncipherment | dataEncipherment | keyAgreement
  | keyCertSign | crlSign | encipherOnly | decipherOnly
deriving DecidableEq, Repr

namespace KeyUsage

def all : List KeyUsage :=
  [.digitalSignature, .nonRepudiation, .keyEncipherment, .dataEncipherment, .keyAgreement,
   .keyCertSign, .crlSign, .encipherOnly, .decipherOnly]

def name : KeyUsage → String
  | .digitalSignature => "digitalSignature"
  | .nonRepudiation => "nonRepudiation"
  | .keyEncipherment => "keyEncipherment"
  | .dataEncipherment => "dataEncipherment"
  | .keyAgreement => "keyAgreement"
  | .keyCertSign => "keyCertSign"
  | .crlSign => "cRLSign"
  | .encipherOnly => "encipherOnly"
  | .decipherOnly => "decipherOnly"

/-- Position of the bit. -/
def bit (u : KeyUsage) : Nat := all.idxOf u

/-- The bit is set, the first bit of a byte being its highest. -/
def isSet (u : KeyUsage) (b : Bytes) : Bool :=
  ((b.getD (u.bit / 8) 0).toNat).testBit (7 - u.bit % 8)

end KeyUsage

/-- Purposes with a name, in the order in which they are listed. -/
inductive Purpose where
  | serverAuth | clientAuth | codeSigning | emailProtection | timeStamping | ocspSigning | any
deriving DecidableEq, Repr

namespace Purpose

def all : List Purpose :=
  [.serverAuth, .clientAuth, .codeSigning, .emailProtection, .timeStamping, .ocspSigning, .any]

def name : Purpose → String
  | .serverAuth => "serverAuth"
  | .clientAuth => "clientAuth"
  | .codeSigning => "codeSigning"
  | .emailProtection => "emailProtection"
  | .timeStamping => "timeStamping"
  | .ocspSigning => "OCSPSigning"
  | .any => "anyExtendedKeyUsage"

def oid : Purpose → List Nat
  | .serverAuth => [1, 3, 6, 1, 5, 5, 7, 3, 1]
  | .clientAuth => [1, 3, 6, 1, 5, 5, 7, 3, 2]
  | .codeSigning => [1, 3, 6, 1, 5, 5, 7, 3, 3]
  | .emailProtection => [1, 3, 6, 1, 5, 5, 7, 3, 4]
  | .timeStamping => [1, 3, 6, 1, 5, 5, 7, 3, 8]
  | .ocspSigning => [1, 3, 6, 1, 5, 5, 7, 3, 9]
  | .any => [2, 5, 29, 37, 0]

end Purpose

/-! ## Values -/

/-- Each item once, where it stands first. -/
def distinct {α : Type} [BEq α] (items : List α) : List α :=
  items.foldl (fun out a => if out.contains a then out else out ++ [a]) []

/-- Authority flag and path length. -/
def constraintFields : List Element → Option (Bool × Option Nat)
  | [] => some (false, none)
  | [e] =>
    if e.tag = tagBoolean then (boolValue? e.content).map fun ca => (ca, none)
    else (natBelow (bitLimit 32)).parseAll? .tolerant e.raw |>.map fun n => (false, some n)
  | [e, f] => do
    let ca ← if e.tag = tagBoolean then boolValue? e.content else none
    let n ← (natBelow (bitLimit 32)).parseAll? .tolerant f.raw
    return (ca, some n)
  | _ => none

def constraintTokens (ca : Bool) (pathLength : Option Nat) : List String :=
  (if ca then "CA:TRUE" else "CA:FALSE") ::
    (pathLength.map fun n => "pathlen:" ++ toString n).toList

def basicConstraints : Parser AttributeValue := do
  let fields ← within (manyToEnd anyElement) (← tagged tagSequence)
  let (ca, n) ← ofOption (constraintFields fields)
  return .ofTokens (constraintTokens ca n)

def keyUsage : Parser AttributeValue := do
  let b ← bitsValue
  return .ofTokens ((KeyUsage.all.filter (·.isSet b)).map (·.name))

/-- Named purposes first, in their own order, then the others. -/
def extendedKeyUsage : Parser AttributeValue := do
  let oids := distinct (← within (manyToEnd oidValue) (← tagged tagSequence))
  let named := Purpose.all.filter fun p => oids.contains p.oid
  let others := oids.filter fun o => !(Purpose.all.map (·.oid)).contains o
  return .ofTokens (named.map (·.name) ++ others.map dotted)

def subjectKeyIdentifier : Parser AttributeValue := do
  let _ ← tagged tagOctetString
  return .present

def authorityKeyIdentifier : Parser AttributeValue := do
  let _ ← tagged tagSequence
  return .present

def generalNames : Parser (List GeneralName) := manyToEnd GeneralName.parser

def subjectAltName : Parser AttributeValue := do
  let names ← within generalNames (← tagged tagSequence)
  return .ofTokens (names.map (·.text))

/-- The full names of a distribution point, if it has them. -/
def distributionPoint : Parser (List GeneralName) := do
  match ← taggedIf (tagExplicit 0) with
  | none => return []
  | some content => within (do
      let e ← anyElement
      if e.tag &&& 0x1f = 0 then
        match ← within (many GeneralName.parser) e.content with
        | [] => Der.fail
        | names => return names
      else if e.tag &&& 0x1f = 1 then return []
      else Der.fail) content

def crlDistributionPoints : Parser AttributeValue := do
  let points ← within (manyToEnd (inSequence distributionPoint)) (← tagged tagSequence)
  return .ofTokens (points.flatten.map (·.text))

/-- One list of subtrees, which is not empty. -/
def subtrees (n : Nat) : Parser (Option (List GeneralName)) := optionally do
  match ← within (manyToEnd (inSequence GeneralName.parser)) (← tagged (tagExplicit n)) with
  | [] => Der.fail
  | names => return names

def subtreesValue (names : List GeneralName) : AttributeValue :=
  .ofTokens (names.map (·.subtreeText))

def nameConstraints : Parser AttributeValue := inSequence do
  let permitted ← subtrees 0
  let excluded ← subtrees 1
  let entry (name : String) (names : Option (List GeneralName)) :=
    (names.map fun ns => (name, subtreesValue ns)).toList
  return .map (entry "excluded" excluded ++ entry "permitted" permitted)

def valueParser? : ExtensionKind → Option (Parser AttributeValue)
  | .basicConstraints => some basicConstraints
  | .keyUsage => some keyUsage
  | .extendedKeyUsage => some extendedKeyUsage
  | .subjectKeyIdentifier => some subjectKeyIdentifier
  | .authorityKeyIdentifier => some authorityKeyIdentifier
  | .subjectAltName => some subjectAltName
  | .crlDistributionPoints => some crlDistributionPoints
  | .nameConstraints => some nameConstraints
  | _ => none

/-- The value of an interpreted kind, if it is well formed. -/
def readValue? (k : ExtensionKind) (value : Bytes) : Option AttributeValue := do
  (← valueParser? k).parse? .tolerant value

/-- A comment is ASCII text. -/
def readComment? (value : Bytes) : Option AttributeValue := do
  let content ← (tagged tagIa5).parseAll? .distinguished value
  if Bytes.isAscii content then (Bytes.text? content).map .text else none

def canonicalValue (k : ExtensionKind) (value : Bytes) : AttributeValue :=
  match k with
  | .noCheck => .present
  | .nsComment => (readComment? value).getD (.bytes value)
  | _ => (readValue? k value).getD (.bytes value)

/-! ## Views -/

def viewOf (extensions : List Extension) : ExtensionSet :=
  .ofList (extensions.filterMap fun e => do
    let k ← kindOfOid? e.oid
    return (k, ⟨e.critical, canonicalValue k e.value⟩))

/-- The flag that a requested extension gets. -/
def impliedCritical (subjectIsEmpty : Bool) : ExtensionKind → Bool
  | .basicConstraints | .keyUsage | .nameConstraints => true
  | .subjectAltName => subjectIsEmpty
  | _ => false

/-- Kinds that a signing request is read for. -/
def requestableKinds : List ExtensionKind :=
  [.basicConstraints, .keyUsage, .extendedKeyUsage, .subjectKeyIdentifier, .subjectAltName,
   .crlDistributionPoints, .nameConstraints]

def requestedViewOf (extensions : List Extension) (subjectIsEmpty : Bool) : ExtensionSet :=
  .ofList (extensions.filterMap fun e => do
    let k ← kindOfOid? e.oid
    let v ← if requestableKinds.contains k then readValue? k e.value else none
    return (k, ⟨impliedCritical subjectIsEmpty k, v⟩))

end CertAuthority.X509
