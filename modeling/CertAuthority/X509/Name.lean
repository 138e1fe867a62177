import CertAuthority.Asn1.Decode
import CertAuthority.Name.Basic

/-!
# Names in certificates

A name is a sequence of sets of attributes, each an object identifier with a string of some kind.

* `X509.Name.view` : the attributes of the known vocabulary that are readable text;
* `X509.IssuedName` : the names this library writes, one attribute a set, each attribute once;
* `X509.IssuedName.ofName?` : the same name to write it again, if its strings are well formed;
* `X509.Name.text` : a name on one line, as key stores label their entries.
-/

namespace CertAuthority.X509

open Der

structure NameEntry where
  oid : List Nat
  value : Element
deriving DecidableEq, Repr, Inhabited

/-- Sets of attributes. -/
structure Name where
  sets : List (List NameEntry)
deriving DecidableEq, Repr, Inhabited

namespace Name

def entry : Parser NameEntry := inSequence do return ⟨← oidValue, ← anyElement⟩

def entrySet : Parser (List NameEntry) := do
  match ← within (many entry) (← tagged tagSet) with
  | [] => Der.fail
  | entries => return entries

/-- Sets are read as far as they are well formed. -/
def parser : Parser Name := inSequence do return ⟨← many entrySet⟩

end Name

/-- The value as text, for the string kinds that are plain ASCII or UTF-8. -/
def NameEntry.text? (e : NameEntry) : Option String :=
  if [tagNumeric, tagPrintable, tagUtf8, tagIa5].contains e.value.tag then
    Bytes.text? e.value.content
  else none

namespace Name

def view (n : Name) : DistinguishedName :=
  .ofPairs (n.sets.flatten.filterMap fun e => do
    let a ← NameAttribute.ofArcs? e.oid
    let s ← e.text?
    return (a, s))

/-! ## One line -/

/-- Short names of attribute types. -/
def shortNames : List (List Nat × String) :=
  [([2, 5, 4, 3], "CN"), ([2, 5, 4, 4], "SN"), ([2, 5, 4, 5], "serialNumber"), ([2, 5, 4, 6], "C"),
   ([2, 5, 4, 7], "L"), ([2, 5, 4, 8], "ST"), ([2, 5, 4, 9], "street"), ([2, 5, 4, 10], "O"),
   ([2, 5, 4, 11], "OU"), ([2, 5, 4, 12], "title"), ([2, 5, 4, 42], "GN"),
   ([0, 9, 2342, 19200300, 100, 1, 1], "UID"), ([0, 9, 2342, 19200300, 100, 1, 25], "DC"),
   ([1, 2, 840, 113549, 1, 9, 1], "Email")]

def entryText (e : NameEntry) : String :=
  let label := (shortNames.lookup e.oid).getD ("OID(" ++ dotted e.oid ++ ")")
  label ++ "=" ++ (Bytes.text? e.value.content).getD ""

def text (n : Name) : String :=
  ", ".intercalate (n.sets.map fun set => " + ".intercalate (set.map entryText))

end Name

/-! ## Names to be written -/

/-- Attributes in order, each an identifier with kind and content of its string. -/
structure IssuedName where
  entries : List (List Nat × UInt8 × Bytes)
deriving DecidableEq, Repr, Inhabited

namespace IssuedName

def put (oid : List Nat) (value : UInt8 × Bytes) :
    List (List Nat × UInt8 × Bytes) → List (List Nat × UInt8 × Bytes)
  | [] => [(oid, value)]
  | (o, v) :: rest => if o = oid then (oid, value) :: rest else (o, v) :: put oid value rest

/-- Attributes as UTF-8 strings. -/
def ofView (dn : DistinguishedName) : IssuedName :=
  ⟨dn.entries.foldl (fun out (a, v) => put a.arcs (tagUtf8, Bytes.ofText v) out) []⟩

def isEmpty (n : IssuedName) : Bool := n.entries.isEmpty

def encode (n : IssuedName) : Bytes :=
  seqOf (n.entries.map fun (o, tag, content) =>
    element tagSet (seqOf [oid o, element tag content]))

/-- The characters of a printable string. -/
def isPrintable (b : UInt8) : Bool :=
  (48 ≤ b && b ≤ 57) || (65 ≤ b && b ≤ 90) || (97 ≤ b && b ≤ 122) ||
    [32, 39, 40, 41, 43, 44, 45, 46, 47, 58, 61, 63].contains b

/-- Pairs of bytes that stand for characters of their own. -/
def isBmp : Bytes → Bool
  | a :: _ :: rest => !(0xd8 ≤ a && a < 0xe0) && isBmp rest
  | [] => true
  | _ => false

/-- Groups of four bytes that are code points. -/
def isUniversal : Bytes → Bool
  | a :: b :: c :: d :: rest =>
    let n := Bytes.toNat [a, b, c, d]
    (n < 0xd800 || (0xe000 ≤ n && n < 0x110000)) && isUniversal rest
  | [] => true
  | _ => false

/-- The string is well formed for its kind. -/
def isWellFormed (tag : UInt8) (content : Bytes) : Bool :=
  if tag = tagUtf8 then (Bytes.text? content).isSome
  else if tag = tagPrintable then content.all isPrintable
  else if tag = tagIa5 then Bytes.isAscii content
  else if tag = tagTeletex then content.all fun b => 0x20 ≤ b && b ≤ 0x7f
  else if tag = tagBmp then isBmp content
  else if tag = tagUniversal then isUniversal content
  else false

/-- One attribute of each set; a set of several is refused. -/
def ofSet? : List NameEntry → Option NameEntry
  | [e] => if isWellFormed e.value.tag e.value.content then some e else none
  | _ => none

def ofName? (n : Name) : Option IssuedName := do
  let entries ← n.sets.mapM ofSet?
  return ⟨entries.foldl (fun out e => put e.oid (e.value.tag, e.value.content) out) []⟩

end IssuedName
end CertAuthority.X509
