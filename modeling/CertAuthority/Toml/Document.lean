import CertAuthority.Toml.Scalar
import CertAuthority.Toml.Table

/-!
# TOML documents

* `Toml.parse?` : the table that a document describes, if it is well-formed. Lists and inline tables
  nest less than `nestingLimit` deep, and so do the parts of a key.
-/

namespace CertAuthority.Toml

open Scanner

def nestingLimit : Nat := 80

/-! ## Keys and values -/

def isBareKey (c : Char) : Bool := c.isAlphanum || c == '-' || c == '_'

def keyPart : Scanner String := do
  spaces
  let cs ← basicText <|> literalText <|> takeSome isBareKey
  spaces
  return String.ofList cs

/-- The parts of a key before the last, and the last. -/
def key : Scanner (List String × String) := do
  let parts ← separated keyPart (char '.')
  match parts.getLast? with
  | some last => if parts.length < nestingLimit then return (parts.dropLast, last) else failure
  | none => failure

/-- Space between the items of a list, over any number of lines. -/
def filler : Scanner Unit := do
  spaces
  let _ ← many (do
    lineBreak <|> (do comment; lineBreak)
    spaces)

def truthValue : Scanner Toml :=
  (do exactly "true"; return .boolean true) <|> (do exactly "false"; return .boolean false)

def scalar : Scanner Toml :=
  (Toml.text <$> string) <|> (Toml.date <$> dateText) <|> number <|> truthValue

def listOf (item : Scanner Toml) : Scanner Toml := do
  char '['
  let padded : Scanner Toml := do filler; let v ← item; filler; return v
  let items ← maybe (do
    let items ← separated padded (char ',')
    let _ ← maybe (char ',')
    return items)
  filler
  char ']'
  return .list (items.getD [])

def inlinePair (item : Scanner Toml) : Scanner ((List String × String) × Toml) := do
  let k ← key
  char '='
  spaces
  let v ← item
  spaces
  return (k, v)

def inlineTable (item : Scanner Toml) : Scanner Toml := do
  char '\x7b'
  let pairs ← maybe (separated (inlinePair item) (char ','))
  spaces
  char '\x7d'
  let members ← StateT.lift <| (pairs.getD []).foldlM
    (fun members ((path, k), v) => addValue path k v .header members) []
  return .table (membersToToml members)

/-- A value with at most `depth` containers around its innermost part. -/
def value : Nat → Scanner Toml
  | 0 => scalar
  | depth + 1 => scalar <|> listOf (value depth) <|> inlineTable (value depth)

/-! ## Lines -/

/-- What a line of a document says. -/
inductive Line where
  | blank
  | pair (path : List String) (key : String) (v : Toml)
  | table (path : List String) (key : String)
  | element (path : List String) (key : String)

/-- The rest of a line. -/
def lineEnd : Scanner Unit := do
  spaces
  let _ ← maybe comment
  lineBreak <|> atEnd

def headerLine : Scanner Line := do
  exactly "[["
  let (path, k) ← key
  exactly "]]"
  lineEnd
  return .element path k

def tableLine : Scanner Line := do
  char '['
  let (path, k) ← key
  char ']'
  lineEnd
  return .table path k

def pairLine : Scanner Line := do
  let (path, k) ← key
  char '='
  spaces
  let v ← value (nestingLimit - 1)
  lineEnd
  return .pair path k v

def blankLine : Scanner Line := do
  lineBreak <|> (do comment; lineBreak <|> atEnd)
  return .blank

def line : Scanner Line := do
  let l ← blankLine <|> headerLine <|> tableLine <|> pairLine
  spaces
  return l

def document : Scanner (List Line) := do
  let _ ← maybe (char '\ufeff')
  spaces
  let lines ← many line
  atEnd
  return lines

/-! ## The document -/

/-- A document being built: its tables, and the path to the one that lines add to. -/
structure Builder where
  members : Members
  here : List String

def Builder.add (b : Builder) : Line → Option Builder
  | .blank => some b
  | .pair path k v => do
    let members ← Item.under .passage (addValue path k v) b.here .header b.members
    return { b with members }
  | .table path k => do
    let members ← Item.under .passage (openTable k) path .header b.members
    return ⟨members, path ++ [k]⟩
  | .element path k => do
    let members ← Item.under .passage (openElement k) path .header b.members
    return ⟨members, path ++ [k]⟩

def parse? (s : String) : Option Toml := do
  let (lines, _) ← document s.toList
  let b ← lines.foldlM Builder.add ⟨[], []⟩
  return .table (membersToToml b.members)

end CertAuthority.Toml
