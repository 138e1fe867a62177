import CertAuthority.Bytes.Hex
import CertAuthority.Json.Basic
import CertAuthority.Text.Quoted

/-!
# Serial numbers

A serial number is a natural number; its bytes are the shortest big-endian ones, a single zero byte
for zero, and its text is their lower-case hex. Reading hex skips colons and pads an odd number of
digits.
-/

namespace CertAuthority

structure SerialNumber where
  value : Nat
deriving DecidableEq, Repr, Inhabited

namespace SerialNumber

def ofBytes (b : Bytes) : SerialNumber := ⟨b.toNat⟩

def toBytes (s : SerialNumber) : Bytes :=
  if s.value = 0 then [0] else Bytes.ofNat s.value

/-- Low 64 bits, for formats with a fixed-width serial. -/
def low64 (s : SerialNumber) : Nat := s.value % bitLimit 64

def text (s : SerialNumber) : String := Hex.encode s.toBytes

def hexFault : Hex.Error → String
  | .oddLength => "Odd number of digits"
  | .invalidDigit c i => "Invalid character " ++ Text.quotedChar c ++ " at position " ++ toString i

/-- The refusal of a text. -/
def invalid (s : String) (e : Hex.Error) : String :=
  "invalid serial number " ++ Text.quoted s ++ ": " ++ hexFault e

/-- The hex digits of a text: colons removed, and an even number of them. -/
def digitsOf (s : String) : Bytes :=
  let cleaned := Bytes.ofText (String.ofList (s.toList.filter (· != ':')))
  if cleaned.length % 2 = 1 then 48 :: cleaned else cleaned

def parse (s : String) : Except String SerialNumber :=
  match Hex.decode (digitsOf s) with
  | .ok b => .ok (ofBytes b)
  | .error e => .error (invalid s e)

def toJson (s : SerialNumber) : Json := .str s.text

def read : Json.Reader SerialNumber
  | .str s => match parse s with
    | .ok n => .ok n
    | .error e => .error (.worded e)
  | _ => Json.mismatch

end SerialNumber
end CertAuthority
