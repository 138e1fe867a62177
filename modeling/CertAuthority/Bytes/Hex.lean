import CertAuthority.Bytes.Basic

/-!
# Hexadecimal text

Two lower-case digits a byte, high digit first. Reading takes either case and says at which byte a
foreign character stands; the text is read as UTF-8 bytes, and a byte above 127 is named by the
Latin-1 character of its value.
-/

namespace CertAuthority.Hex

def digit (n : Nat) : Char :=
  if n < 10 then Char.ofNat (48 + n) else Char.ofNat (87 + n)

/-- Value of a digit in either case, given as an ASCII code. -/
def digitValue? (b : UInt8) : Option Nat :=
  if 48 ≤ b ∧ b ≤ 57 then some (b.toNat - 48)
  else if 97 ≤ b ∧ b ≤ 102 then some (b.toNat - 87)
  else if 65 ≤ b ∧ b ≤ 70 then some (b.toNat - 55)
  else none

def encodeChars (b : Bytes) : List Char :=
  b.flatMap fun x => [digit (x.toNat / 16), digit (x.toNat % 16)]

def encode (b : Bytes) : String := String.ofList (encodeChars b)

inductive Error where
  | oddLength
  | invalidDigit (char : Char) (position : Nat)
deriving DecidableEq, Repr

/-- Reads digit pairs from position `i` on. -/
def decodeFrom (i : Nat) : Bytes → Except Error Bytes
  | [] => .ok []
  | [_] => .error .oddLength
  | hi :: lo :: rest =>
    match digitValue? hi, digitValue? lo with
    | none, _ => .error (.invalidDigit (Char.ofNat hi.toNat) i)
    | _, none => .error (.invalidDigit (Char.ofNat lo.toNat) (i + 1))
    | some h, some l => (decodeFrom (i + 2) rest).map (UInt8.ofNat (h * 16 + l) :: ·)

def decode (digits : Bytes) : Except Error Bytes :=
  if digits.length % 2 = 1 then .error .oddLength else decodeFrom 0 digits

end CertAuthority.Hex
