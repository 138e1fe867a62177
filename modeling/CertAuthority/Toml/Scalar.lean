import CertAuthority.Text.Basic
import CertAuthority.Time.Instant
import CertAuthority.Toml.Table

/-!
# Strings, numbers and dates of TOML

A scanner takes some characters off the front of a text, or refuses it. `p <|> q` tries `q` where
`p` refuses.

* `basicText`, `literalText`, `multiLineText` : strings; a line break in one is a line feed;
* `number` : integers of 64 bits in four bases, and decimal fractions below the largest double;
* `dateText` : dates and times of day, in their shortest spelling.
-/

namespace CertAuthority.Toml

/-! ## Scanning text -/

abbrev Scanner (α : Type) := StateT (List Char) Option α

namespace Scanner

/-- The next character, which stays. -/
def peek? : Scanner (Option Char) := fun cs => some (cs.head?, cs)

def satisfy (p : Char → Bool) : Scanner Char
  | [] => none
  | c :: cs => if p c then some (c, cs) else none

def char (c : Char) : Scanner Unit := do let _ ← satisfy (· == c)

/-- All the characters up to the first that `p` does not accept. -/
def takeWhile (p : Char → Bool) : Scanner (List Char) := fun cs => some (cs.span p)

def takeSome (p : Char → Bool) : Scanner (List Char) := do
  let cs ← takeWhile p
  if cs.isEmpty then failure else return cs

/-- This text. -/
def exactly (s : String) : Scanner Unit := s.toList.forM char

def maybe {α : Type} (p : Scanner α) : Scanner (Option α) := some <$> p <|> pure none

/-- The text is over. -/
def atEnd : Scanner Unit := fun cs => if cs.isEmpty then some ((), cs) else none

/-- As many `p` as there are, each of at least one character; at most `fuel`. -/
def repeated {α : Type} (p : Scanner α) : Nat → Scanner (List α)
  | 0 => pure []
  | fuel + 1 => do
    match ← maybe p with
    | none => return []
    | some a => return a :: (← repeated p fuel)

/-- As many `p` as there are. -/
def many {α : Type} (p : Scanner α) : Scanner (List α) := fun cs => repeated p cs.length cs

/-- One or more `p` with `separator` between them. -/
def separated {α : Type} (p : Scanner α) (separator : Scanner Unit) : Scanner (List α) := do
  let first ← p
  return first :: (← many (do separator; p))

end Scanner

/-! ## Scalars -/

open Scanner

/-! ## Spaces -/

def isSpace (c : Char) : Bool := c == ' ' || c == '\t'

def spaces : Scanner Unit := do let _ ← takeWhile isSpace

def lineBreak : Scanner Unit := char '\n' <|> exactly "\r\n"

/-- Characters that text on one line may hold. -/
def isInline (c : Char) : Bool := c == '\t' || (' ' ≤ c && c != '\x7f')

def comment : Scanner Unit := do
  char '#'
  let _ ← takeWhile isInline

/-! ## Strings -/

def hexValue? (c : Char) : Option Nat :=
  if Text.isDigit c then some (Text.digitValue c)
  else if 'a' ≤ c ∧ c ≤ 'f' then some (c.toNat - 87)
  else if 'A' ≤ c ∧ c ≤ 'F' then some (c.toNat - 55)
  else none

/-- Value of digits below `base`. -/
def valueIn? (base : Nat) (cs : List Char) : Option Nat :=
  cs.foldlM (fun n c => do
    let d ← hexValue? c
    if d < base then some (n * base + d) else none) 0

/-- The character of a code point in `n` hex digits. -/
def codePoint (n : Nat) : Scanner Char := do
  let digits ← (List.replicate n ()).mapM fun _ => satisfy fun c => (hexValue? c).isSome
  let value ← StateT.lift (valueIn? 16 digits)
  if value.isValidChar then return Char.ofNat value else failure

/-- What stands after a backslash. -/
def escaped : Scanner Char := do
  match ← satisfy fun _ => true with
  | 'b' => return '\x08'
  | 't' => return '\t'
  | 'n' => return '\n'
  | 'f' => return '\x0c'
  | 'r' => return '\r'
  | '"' => return '"'
  | '\\' => return '\\'
  | 'u' => codePoint 4
  | 'U' => codePoint 8
  | _ => failure

def basicChar : Scanner Char := do
  let c ← satisfy fun c => isInline c && c != '"'
  if c = '\\' then escaped else return c

def basicText : Scanner (List Char) := do
  char '"'
  let cs ← many basicChar
  char '"'
  return cs

def literalText : Scanner (List Char) := do
  char '\''
  let cs ← takeWhile fun c => isInline c && c != '\''
  char '\''
  return cs

/-- A backslash at the end of a line, and all the space up to the next text. -/
def lineJoint : Scanner (List Char) := do
  char '\\'
  spaces
  lineBreak
  let _ ← many ((do let _ ← satisfy isSpace) <|> lineBreak)
  return []

/-- Some of a string of several lines, up to a quote. -/
def multiLinePiece (quote : Char) (escapes : Bool) : Scanner (List Char) :=
  (do lineBreak; return ['\n']) <|>
  (if escapes then lineJoint <|> (do char '\\'; return [← escaped]) else failure) <|>
  takeSome fun c => isInline c && c != quote && !(escapes && c == '\\')

/-- One or two quotes that do not end the string. -/
def innerQuotes (quote : Char) : Scanner (List Char) := do
  let quotes ← takeSome (· == quote)
  if quotes.length < 3 then return quotes else failure

/-- A string in three quotes each side; up to two more may stand before the closing ones. -/
def multiLineText (quote : Char) (escapes : Bool) : Scanner (List Char) := do
  let fence := exactly (String.ofList [quote, quote, quote])
  fence
  let _ ← maybe lineBreak
  let pieces ← many (multiLinePiece quote escapes <|> innerQuotes quote)
  let last ← (do exactly (String.ofList [quote, quote]); fence; return [quote, quote]) <|>
    (do char quote; fence; return [quote]) <|> (do fence; return [])
  return pieces.flatten ++ last

def string : Scanner String := String.ofList <$>
  (multiLineText '"' true <|> basicText <|> multiLineText '\'' false <|> literalText)

/-! ## Numbers -/

/-- Digits with single underscores between them, the underscores dropped. -/
def digitGroups (isDigit : Char → Bool) : Scanner (List Char) := do
  let first ← satisfy isDigit
  let rest ← many (satisfy isDigit <|> (do char '_'; satisfy isDigit))
  match ← peek? with
  | some '_' => failure
  | _ => return first :: rest

def sign : Scanner Bool :=
  (do char '-'; return true) <|> (do char '+'; return false) <|> pure false

/-- Decimal digits without a leading zero. -/
def decimalDigits : Scanner (List Char) := do
  match ← peek? with
  | some '0' => do char '0'; return ['0']
  | _ => digitGroups Text.isDigit

/-- Integers have 64 bits. -/
def bounded (n : Int) : Scanner Toml :=
  if -(bitLimit 63 : Int) ≤ n ∧ n < bitLimit 63 then return .integer n else failure

def integerIn (mark : String) (base : Nat) : Scanner Toml := do
  exactly mark
  let digits ← digitGroups fun c => (hexValue? c).any (· < base)
  bounded (← StateT.lift (valueIn? base digits))

def decimalInteger : Scanner Toml := do
  let negative ← sign
  let n : Int := Text.digitsValue (← decimalDigits)
  bounded (if negative then -n else n)

/-- `digits`, of which `places` are behind the point, times a power of ten, rounds to a double
rather than to infinity. -/
def isFinite (digits : List Char) (places : Nat) (exponent : Int) : Bool :=
  let n := Text.digitsValue digits
  let significant := (digits.dropWhile (· == '0')).length
  let scale := exponent - places
  let limit := bitLimit 1024 - bitLimit 970
  if n = 0 ∨ significant + scale < 309 then true
  else if 310 < significant + scale then false
  else if 0 ≤ scale then n * Nat.pow 10 scale.toNat < limit
  else n < limit * Nat.pow 10 (-scale).toNat

/-- A fraction, an exponent or both; a number beyond the largest double is refused unless it is
negative. -/
def decimalFloat : Scanner Toml := do
  let negative ← sign
  let whole ← decimalDigits
  let places ← maybe (do char '.'; digitGroups Text.isDigit)
  let exponent ← maybe (do
    let _ ← satisfy fun c => c == 'e' || c == 'E'
    let down ← sign
    let n : Int := Text.digitsValue (← digitGroups Text.isDigit)
    return if down then -n else n)
  if places.isNone ∧ exponent.isNone then failure
  let behind := places.getD []
  if negative ∨ isFinite (whole ++ behind) behind.length (exponent.getD 0) then return .float
  else failure

def specialFloat : Scanner Toml := do
  let _ ← sign
  exactly "inf" <|> exactly "nan"
  return .float

def number : Scanner Toml :=
  decimalFloat <|> specialFloat <|> integerIn "0x" 16 <|> integerIn "0o" 8 <|> integerIn "0b" 2 <|>
  decimalInteger

/-! ## Dates -/

/-- A number of exactly `width` digits between two bounds. -/
def fixedDigits (width low high : Nat) : Scanner Nat := do
  let digits ← (List.replicate width ()).mapM fun _ => satisfy Text.isDigit
  let n := Text.digitsValue digits
  if low ≤ n ∧ n ≤ high then return n else failure

def calendarDate : Scanner String := do
  let year ← fixedDigits 4 0 9999
  char '-'
  let month ← fixedDigits 2 1 12
  char '-'
  let day ← fixedDigits 2 1 31
  if daysInMonth year month < day then failure
  return Text.padded 4 year ++ "-" ++ Text.padded 2 month ++ "-" ++ Text.padded 2 day

/-- A fraction of a second, in at most nine digits and without zeros at the end. -/
def fractionText (digits : List Char) : String :=
  let kept := ((digits.take 9).reverse.dropWhile (· == '0')).reverse
  if kept.isEmpty then "" else "." ++ String.ofList kept

def timeOfDay : Scanner String := do
  let hour ← fixedDigits 2 0 23
  char ':'
  let minute ← fixedDigits 2 0 59
  char ':'
  let second ← fixedDigits 2 0 60
  let fraction ← maybe (do char '.'; takeSome Text.isDigit)
  return Text.padded 2 hour ++ ":" ++ Text.padded 2 minute ++ ":" ++ Text.padded 2 second ++
    fractionText (fraction.getD [])

def offsetText : Scanner String :=
  (do let _ ← satisfy fun c => c == 'Z' || c == 'z'; return "Z") <|> (do
    let mark ← satisfy fun c => c == '+' || c == '-'
    let hour ← fixedDigits 2 0 23
    char ':'
    let minute ← fixedDigits 2 0 59
    let mark := if hour = 0 ∧ minute = 0 then '+' else mark
    return String.ofList [mark] ++ Text.padded 2 hour ++ ":" ++ Text.padded 2 minute)

/-- A time of day with its offset, behind a date. -/
def timeBehindDate : Scanner String := do
  let _ ← satisfy fun c => c == 'T' || c == 't' || c == ' '
  let time ← timeOfDay
  return "T" ++ time ++ (← maybe offsetText).getD ""

def dateText : Scanner String :=
  (do
    let date ← calendarDate
    return date ++ (← maybe timeBehindDate).getD "") <|> timeOfDay

end CertAuthority.Toml
