import CertAuthority.Bytes.Basic

/-!
# Base64 text

The standard alphabet with padding. Reading is strict: padding is required, no other character is
skipped, and the bits that do not reach a byte are zero, so each byte string has one written form.
-/

namespace CertAuthority.Base64

def symbol (n : Nat) : UInt8 :=
  if n < 26 then UInt8.ofNat (65 + n)
  else if n < 52 then UInt8.ofNat (71 + n)
  else if n < 62 then UInt8.ofNat (n - 4)
  else if n = 62 then 43 else 47

def symbolValue? (b : UInt8) : Option Nat :=
  if 65 ≤ b ∧ b ≤ 90 then some (b.toNat - 65)
  else if 97 ≤ b ∧ b ≤ 122 then some (b.toNat - 71)
  else if 48 ≤ b ∧ b ≤ 57 then some (b.toNat + 4)
  else if b = 43 then some 62
  else if b = 47 then some 63
  else none

/-- The padding sign `=`. -/
def pad : UInt8 := 61

def encodeBytes : Bytes → Bytes
  | [] => []
  | [a] => [symbol (a.toNat / 4), symbol (a.toNat % 4 * 16), pad, pad]
  | [a, b] =>
    [symbol (a.toNat / 4), symbol (a.toNat % 4 * 16 + b.toNat / 16), symbol (b.toNat % 16 * 4), pad]
  | a :: b :: c :: rest =>
    symbol (a.toNat / 4) :: symbol (a.toNat % 4 * 16 + b.toNat / 16) ::
      symbol (b.toNat % 16 * 4 + c.toNat / 64) :: symbol (c.toNat % 64) :: encodeBytes rest

def encode (b : Bytes) : String :=
  String.ofList ((encodeBytes b).map fun x => Char.ofNat x.toNat)

def decode? : Bytes → Option Bytes
  | [] => some []
  | s :: t :: u :: v :: rest => do
    let a ← symbolValue? s
    let b ← symbolValue? t
    if u = pad then
      if v = pad ∧ rest = [] ∧ b % 16 = 0 then some [UInt8.ofNat (a * 4 + b / 16)] else none
    else
      let c ← symbolValue? u
      if v = pad then
        if rest = [] ∧ c % 4 = 0 then
          some [UInt8.ofNat (a * 4 + b / 16), UInt8.ofNat (b % 16 * 16 + c / 4)]
        else none
      else
        let d ← symbolValue? v
        let tail ← decode? rest
        some (UInt8.ofNat (a * 4 + b / 16) :: UInt8.ofNat (b % 16 * 16 + c / 4) ::
          UInt8.ofNat (c % 4 * 64 + d) :: tail)
  | _ => none

def decodeText? (s : String) : Option Bytes := decode? (Bytes.ofText s)

end CertAuthority.Base64
