import CertAuthority.Kind
import CertAuthority.Text.Quoted

/-!
# Distinguished names

* `NameAttribute` : the attribute types of a subject, with short name and object identifier;
* `DistinguishedName` : attributes in order; `push` puts a value in place of the one the attribute
  already has, else at the end;
* `DistinguishedName.parse` : `CN=host,O=Org`, a backslash taking the next character literally;
* `SubjectSpec` : a subject as text, as a list of pairs, or as a map. A map is ordered by attribute,
  not by the spelling of its keys.
-/

namespace CertAuthority

inductive NameAttribute where
  | c | st | l | street | o | ou | cn | mail | sn | gn | uid | serialNumber
deriving DecidableEq, Repr, Inhabited

namespace NameAttribute

def all : List NameAttribute :=
  [.c, .st, .l, .street, .o, .ou, .cn, .mail, .sn, .gn, .uid, .serialNumber]

def shortName : NameAttribute → String
  | .c => "C"
  | .st => "ST"
  | .l => "L"
  | .street => "STREET"
  | .o => "O"
  | .ou => "OU"
  | .cn => "CN"
  | .mail => "MAIL"
  | .sn => "SN"
  | .gn => "GN"
  | .uid => "UID"
  | .serialNumber => "SERIALNUMBER"

/-- Arcs of the object identifier. -/
def arcs : NameAttribute → List Nat
  | .c => [2, 5, 4, 6]
  | .st => [2, 5, 4, 8]
  | .l => [2, 5, 4, 7]
  | .street => [2, 5, 4, 9]
  | .o => [2, 5, 4, 10]
  | .ou => [2, 5, 4, 11]
  | .cn => [2, 5, 4, 3]
  | .mail => [1, 2, 840, 113549, 1, 9, 1]
  | .sn => [2, 5, 4, 4]
  | .gn => [2, 5, 4, 42]
  | .uid => [0, 9, 2342, 19200300, 100, 1, 1]
  | .serialNumber => [2, 5, 4, 5]

/-- Dotted object identifier. -/
def oid (a : NameAttribute) : String := ".".intercalate (a.arcs.map toString)

/-- Position in `all`, the order of attributes. -/
def rank (a : NameAttribute) : Nat := all.idxOf a

/-- Attribute of that short name, in any letter case and with blanks around it. -/
def ofShortName? (s : String) : Option NameAttribute :=
  all.find? fun a => Text.sameLetters a.shortName (Text.trim s)

def ofOid? (dotted : String) : Option NameAttribute := named? all oid dotted

def ofArcs? (arcs : List Nat) : Option NameAttribute := all.find? fun a => a.arcs == arcs

def read : Json.Reader NameAttribute := Json.asNamed all shortName

def toJson (a : NameAttribute) : Json := .str a.shortName

end NameAttribute

/-- Why a text is no name. -/
inductive NameError where
  | notPair (rdn : String)
  | unknownAttribute (name : String)
deriving DecidableEq, Repr

def NameError.message : NameError → String
  | .notPair rdn => Text.quoted rdn ++ " is not of the form ATTR=value"
  | .unknownAttribute name => "unknown name attribute " ++ Text.quoted name

structure DistinguishedName where
  entries : List (NameAttribute × String)
deriving DecidableEq, Repr, Inhabited

namespace DistinguishedName

def empty : DistinguishedName := ⟨[]⟩

def isEmpty (dn : DistinguishedName) : Bool := dn.entries.isEmpty

def get? (dn : DistinguishedName) (a : NameAttribute) : Option String := dn.entries.lookup a

def commonName? (dn : DistinguishedName) : Option String := dn.get? .cn

/-- Puts `value` where `a` stands first, else at the end. -/
def put (a : NameAttribute) (value : String) :
    List (NameAttribute × String) → List (NameAttribute × String)
  | [] => [(a, value)]
  | (b, v) :: rest => if b = a then (a, value) :: rest else (b, v) :: put a value rest

def push (dn : DistinguishedName) (a : NameAttribute) (value : String) : DistinguishedName :=
  ⟨put a value dn.entries⟩

def pushAll (dn : DistinguishedName) (pairs : List (NameAttribute × String)) : DistinguishedName :=
  pairs.foldl (fun dn (a, v) => dn.push a v) dn

def ofPairs (pairs : List (NameAttribute × String)) : DistinguishedName := empty.pushAll pairs

/-! ## Text form -/

/-- Pieces between commas. A backslash makes the next character literal; a last one is dropped. -/
def splitUnescaped : List Char → List (List Char)
  | [] => [[]]
  | ['\\'] => [[]]
  | '\\' :: c :: cs =>
    match splitUnescaped cs with
    | [] => [[c]]
    | piece :: pieces => (c :: piece) :: pieces
  | ',' :: cs => [] :: splitUnescaped cs
  | c :: cs =>
    match splitUnescaped cs with
    | [] => [[c]]
    | piece :: pieces => (c :: piece) :: pieces

/-- Attribute and value of `ATTR=value`. -/
def parsePair (rdn : String) : Except NameError (NameAttribute × String) :=
  match Text.splitOnce? '=' rdn with
  | none => .error (.notPair rdn)
  | some (attr, value) =>
    match NameAttribute.ofShortName? attr with
    | none => .error (.unknownAttribute (Text.trim attr))
    | some a => .ok (a, Text.trim value)

def parsePairs (rdns : List String) : Except NameError DistinguishedName :=
  ofPairs <$> rdns.mapM parsePair

/-- Blank pieces are skipped. -/
def parse (s : String) : Except NameError DistinguishedName :=
  parsePairs (((splitUnescaped s.toList).filter fun p => !(Text.trimChars p).isEmpty).map
    String.ofList)

/-- Commas of a value are escaped, and nothing else. -/
def escapeValue (v : List Char) : List Char :=
  v.flatMap fun c => if c = ',' then ['\\', ','] else [c]

def displayPair (p : NameAttribute × String) : String :=
  p.1.shortName ++ "=" ++ String.ofList (escapeValue p.2.toList)

def display (dn : DistinguishedName) : String := ",".intercalate (dn.entries.map displayPair)

/-! ## JSON -/

def readPair : Json.Reader (NameAttribute × String) := Json.asPair NameAttribute.read Json.asString

def pairToJson (p : NameAttribute × String) : Json := .arr [p.1.toJson, .str p.2]

def read : Json.Reader DistinguishedName := fun j => mk <$> Json.asList readPair j

def toJson (dn : DistinguishedName) : Json := .arr (dn.entries.map pairToJson)

end DistinguishedName

/-! ## Subjects -/

/-- A subject as a request or policy writes it; map entries stand in key order. -/
inductive SubjectSpec where
  | text (s : String)
  | list (rdns : List String)
  | map (entries : List (String × String))
deriving DecidableEq, Repr, Inhabited

namespace SubjectSpec

def mapEntry (e : String × String) : Except NameError (NameAttribute × String) :=
  match NameAttribute.ofShortName? e.1 with
  | some a => .ok (a, e.2)
  | none => .error (.unknownAttribute e.1)

def toName : SubjectSpec → Except NameError DistinguishedName
  | .text s => DistinguishedName.parse s
  | .list rdns => DistinguishedName.parsePairs rdns
  | .map entries => do
    let pairs ← entries.mapM mapEntry
    return .ofPairs (pairs.mergeSort fun a b => a.1.rank ≤ b.1.rank)

def toJson : SubjectSpec → Json
  | .text s => .str s
  | .list rdns => Json.ofStrings rdns
  | .map entries => .obj (entries.map fun (k, v) => (k, .str v))

def readEntry (m : String × Json) : Except Json.Refusal (String × String) := do
  return (m.1, ← Json.asString m.2)

def read : Json.Reader SubjectSpec
  | .str s => .ok (.text s)
  | .arr items => .list <$> items.mapM Json.asString
  | .obj members => .map <$> members.mapM readEntry
  | _ => Json.mismatch

end SubjectSpec
end CertAuthority
