import CertAuthority.Bytes.Basic

/-!
# The wire format of OpenSSH

Numbers are big-endian words, byte strings follow their length in four bytes, and big numbers are
byte strings in two's complement.

* `Wire.Parser` reads values off the front of a byte string, `Wire.parseAll?` needs nothing left;
* `Wire.many` reads to the end of the string at hand, `Wire.inside` the content of the next string;
* `Wire.string`, `Wire.number` write.
-/

namespace CertAuthority.Wire

abbrev Parser (α : Type) := StateT Bytes Option α

def fail {α : Type} : Parser α := fun _ => none

def ofOption {α : Type} : Option α → Parser α
  | some a => pure a
  | none => fail

def atEnd : Parser Bool := fun b => some (b.isEmpty, b)

def rest : Parser Bytes := fun b => some (b, b)

/-- The value, if nothing is left. -/
def parseAll? {α : Type} (p : Parser α) (b : Bytes) : Option α :=
  match p b with
  | some (a, []) => some a
  | _ => none

/-! ## Reading -/

/-- The next `n` bytes. -/
def take (n : Nat) : Parser Bytes := fun b =>
  if b.length < n then none else some (b.take n, b.drop n)

def takeWord32 : Parser Nat := Bytes.toNat <$> take 4

def takeWord64 : Parser Nat := Bytes.toNat <$> take 8

def takeString : Parser Bytes := do take (← takeWord32)

def takeText : Parser String := do ofOption (Bytes.text? (← takeString))

def takeStrings : Nat → Parser (List Bytes)
  | 0 => return []
  | n + 1 => do
    let b ← takeString
    return b :: (← takeStrings n)

/-- Reads all of the next string with `p`. -/
def inside {α : Type} (p : Parser α) : Parser α := do ofOption (parseAll? p (← takeString))

def manyFuel {α : Type} (p : Parser α) : Nat → Parser (List α)
  | 0 => return []
  | fuel + 1 => do
    if ← atEnd then return []
    else
      let a ← p
      return a :: (← manyFuel p fuel)

/-- Values up to the end. -/
def many {α : Type} (p : Parser α) : Parser (List α) := do manyFuel p (← rest).length

/-! ## Writing -/

def word32 (n : Nat) : Bytes := Bytes.ofNatWidth 4 n

def word64 (n : Nat) : Bytes := Bytes.ofNatWidth 8 n

def string (b : Bytes) : Bytes := word32 b.length ++ b

def text (s : String) : Bytes := string (Bytes.ofText s)

/-- Content of a big number: no superfluous zero byte, and a clear top bit; empty for zero. -/
def number (n : Nat) : Bytes :=
  match Bytes.ofNat n with
  | [] => []
  | d :: ds => if d < 128 then d :: ds else 0 :: d :: ds

/-- The content has no superfluous leading zero byte. -/
def isNumber : Bytes → Bool
  | [0] => false
  | 0 :: d :: _ => 128 ≤ d
  | _ => true

/-- The number, unless it is negative. -/
def nat? : Bytes → Option Nat
  | [] => some 0
  | d :: ds => if d < 128 then some (Bytes.toNat (d :: ds)) else none

end CertAuthority.Wire
