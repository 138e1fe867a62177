import CertAuthority.Bytes.Basic

/-!
# Distinguished encoding

Writers for the distinguished encoding rules of ASN.1. An element is an identifier octet, the length
of its content in as few octets as it takes, and the content.

* `Der.element`, `Der.seqOf`, `Der.setOf` : containers; the parts of a set are sorted;
* `Der.nat`, `Der.octets`, `Der.bits`, `Der.oid`, … : the primitive types;
* `Der.explicit`, `Der.implicit` : context-specific tags.
-/

namespace CertAuthority.Der

/-! ## Identifier octets -/

def tagBoolean : UInt8 := 0x01
def tagInteger : UInt8 := 0x02
def tagBitString : UInt8 := 0x03
def tagOctetString : UInt8 := 0x04
def tagNull : UInt8 := 0x05
def tagOid : UInt8 := 0x06
def tagEnumerated : UInt8 := 0x0a
def tagUtf8 : UInt8 := 0x0c
def tagNumeric : UInt8 := 0x12
def tagPrintable : UInt8 := 0x13
def tagTeletex : UInt8 := 0x14
def tagIa5 : UInt8 := 0x16
def tagUtcTime : UInt8 := 0x17
def tagGeneralizedTime : UInt8 := 0x18
def tagUniversal : UInt8 := 0x1c
def tagBmp : UInt8 := 0x1e
def tagSequence : UInt8 := 0x30
def tagSet : UInt8 := 0x31

/-- Tag `n` of the element's own context, around another element. -/
def tagExplicit (n : Nat) : UInt8 := UInt8.ofNat (0xa0 + n)

/-- Tag `n` of the element's own context, in place of a primitive type's. -/
def tagImplicit (n : Nat) : UInt8 := UInt8.ofNat (0x80 + n)

/-! ## Elements -/

/-- A length in one octet, or behind an octet with the number of its octets. No reader takes
`0xff` for a number of octets, so it stands where there are too many. -/
def lengthBytes (n : Nat) : Bytes :=
  if n < 128 then [UInt8.ofNat n]
  else
    let digits := Bytes.ofNat n
    UInt8.ofNat (min 0xff (0x80 + digits.length)) :: digits

def element (tag : UInt8) (content : Bytes) : Bytes :=
  tag :: (lengthBytes content.length ++ content)

def seqOf (parts : List Bytes) : Bytes := element tagSequence parts.flatten

def setOf (parts : List Bytes) : Bytes := element tagSet (parts.mergeSort Bytes.le).flatten

def explicit (n : Nat) (part : Bytes) : Bytes := element (tagExplicit n) part

def implicit (n : Nat) (content : Bytes) : Bytes := element (tagImplicit n) content

/-! ## Primitive types -/

def boolean (b : Bool) : Bytes := element tagBoolean [if b then 0xff else 0]

/-- Big-endian bytes of a natural number with a clear top bit. -/
def natContent (n : Nat) : Bytes :=
  let digits := Bytes.ofNat n
  match digits with
  | [] => [0]
  | d :: _ => if d < 128 then digits else 0 :: digits

def nat (n : Nat) : Bytes := element tagInteger (natContent n)

def octets (b : Bytes) : Bytes := element tagOctetString b

/-- A bit string of whole bytes. -/
def bits (b : Bytes) : Bytes := element tagBitString (0 :: b)

/-- A bit string whose last `unused` bits do not count. -/
def namedBits (unused : Nat) (b : Bytes) : Bytes :=
  element tagBitString (UInt8.ofNat unused :: b)

def null : Bytes := element tagNull []

def ia5 (s : String) : Bytes := element tagIa5 (Bytes.ofText s)

/-! ## Object identifiers -/

/-- Groups of seven bits, all but the last marked; `acc` is appended. -/
def arcBytes (n : Nat) (acc : Bytes) : Bytes :=
  if n < 128 then
    match acc with
    | [] => [UInt8.ofNat n]
    | _ => UInt8.ofNat (n + 128) :: acc
  else
    let low := n % 128 + (if acc.isEmpty then 0 else 128)
    arcBytes (n / 128) (UInt8.ofNat low :: acc)
termination_by n
decreasing_by omega

/-- The first two arcs share one group. -/
def oidContent : List Nat → Bytes
  | a :: b :: rest => ((a * 40 + b) :: rest).flatMap fun n => arcBytes n []
  | _ => []

def oid (arcs : List Nat) : Bytes := element tagOid (oidContent arcs)

/-- The first arc is at most 2, and below it the second is less than 40. -/
def isOid : List Nat → Bool
  | a :: b :: _ => a < 2 && b < 40 || a == 2
  | _ => false

end CertAuthority.Der
