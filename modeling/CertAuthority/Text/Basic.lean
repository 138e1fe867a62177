import CertAuthority.Bytes.Basic

/-!
# Text

Cutting and trimming of character lists and strings.

* `Text.isBlank` : the `White_Space` property; `trim` removes such characters at both ends;
* `Text.splitOnChar` : the pieces between occurrences of a character, one more than occurrences;
* `Text.splitOnce?` : what stands before and after the first occurrence;
* `Text.natBelow?` : a decimal number below a bound, with an optional `+`.
-/

namespace CertAuthority.Text

/-- The characters with the `White_Space` property. -/
def isBlank (c : Char) : Bool :=
  let n := c.toNat
  (9 ≤ n && n ≤ 13) || n == 0x20 || n == 0x85 || n == 0xA0 || n == 0x1680 ||
    (0x2000 ≤ n && n ≤ 0x200A) || n == 0x2028 || n == 0x2029 || n == 0x202F || n == 0x205F ||
    n == 0x3000

def trimStartChars (cs : List Char) : List Char := cs.dropWhile isBlank

def trimEndChars (cs : List Char) : List Char := (cs.reverse.dropWhile isBlank).reverse

def trimChars (cs : List Char) : List Char := trimEndChars (trimStartChars cs)

def trim (s : String) : String := String.ofList (trimChars s.toList)

def trimStart (s : String) : String := String.ofList (trimStartChars s.toList)

/-- Pieces between occurrences of `sep`; never empty. -/
def splitChars (sep : Char) : List Char → List (List Char)
  | [] => [[]]
  | c :: cs =>
    if c = sep then [] :: splitChars sep cs
    else
      match splitChars sep cs with
      | [] => [[c]]
      | piece :: pieces => (c :: piece) :: pieces

def splitOnChar (sep : Char) (s : String) : List String :=
  (splitChars sep s.toList).map String.ofList

/-- The characters before and after the first `sep`. -/
def splitOnceChars? (sep : Char) : List Char → Option (List Char × List Char)
  | [] => none
  | c :: cs =>
    if c = sep then some ([], cs)
    else (splitOnceChars? sep cs).map fun (before, after) => (c :: before, after)

def splitOnce? (sep : Char) (s : String) : Option (String × String) :=
  (splitOnceChars? sep s.toList).map fun (a, b) => (String.ofList a, String.ofList b)

/-- Non-empty comma-separated pieces, trimmed. -/
def commaPieces (s : String) : List String :=
  (((splitChars ',' s.toList).map trimChars).filter (!·.isEmpty)).map String.ofList

def isDigit (c : Char) : Bool := '0' ≤ c && c ≤ '9'

def digitValue (c : Char) : Nat := c.toNat - 48

/-- Value of a string of decimal digits. -/
def digitsValue (cs : List Char) : Nat := cs.foldl (fun n c => n * 10 + digitValue c) 0

/-- A decimal number below `bound`: digits, after at most one `+`. -/
def natBelow? (bound : Nat) (cs : List Char) : Option Nat :=
  let ds := match cs with
    | '+' :: rest => rest
    | _ => cs
  if ds ≠ [] ∧ ds.all isDigit ∧ digitsValue ds < bound then some (digitsValue ds) else none

/-- Upper-case ASCII letters made lower-case; all else kept. -/
def lowerChar (c : Char) : Char :=
  if 'A' ≤ c ∧ c ≤ 'Z' then Char.ofNat (c.toNat + 32) else c

def lower (s : String) : String := String.ofList (s.toList.map lowerChar)

/-- Equal up to the case of ASCII letters. -/
def sameLetters (a b : String) : Bool := lower a == lower b

def isAscii (s : String) : Bool := s.toList.all fun c => c.toNat < 128

/-- Decimal digits of `n`, padded with zeros on the left to `width`. -/
def padded (width n : Nat) : String :=
  let ds := (toString n).toList
  String.ofList (List.replicate (width - ds.length) '0' ++ ds)

/-- The control characters of ASCII and Latin-1. -/
def isControl (c : Char) : Bool := c.toNat < 32 || (127 ≤ c.toNat && c.toNat < 160)

/-- Text before the first line break. -/
def firstLine (s : String) : String :=
  String.ofList (s.toList.takeWhile (· != '\n'))

/-- The first line without a carriage return at its end. -/
def headLine (s : String) : String :=
  match (firstLine s).toList.reverse with
  | '\r' :: rest => String.ofList rest.reverse
  | cs => String.ofList cs.reverse

end CertAuthority.Text
