import CertAuthority.Bytes.Basic
import CertAuthority.Text.Basic

/-!
# Internet addresses

* `Address.parse?` : dotted decimal without leading zeros; groups of up to four hex digits with at
  most one `::`, whose last two groups may be dotted decimal;
* `Address.print` : the longest run of two or more zero groups becomes `::`, the first of equal
  runs; an address that embeds an IPv4 address after `ffff` ends in dotted decimal;
* `Subnet` : an address and a prefix length; its mask has that many leading ones.
-/

namespace CertAuthority

/-- Four or sixteen bytes. -/
inductive Address where
  | v4 (bytes : Bytes)
  | v6 (groups : List Nat)
deriving DecidableEq, Repr

namespace Address

/-! ## Reading -/

/-- One to three digits below 256, no leading zero. -/
def octet? (cs : List Char) : Option Nat :=
  if cs.isEmpty ∨ 3 < cs.length ∨ !cs.all Text.isDigit then none
  else if 1 < cs.length ∧ cs.head? = some '0' then none
  else if Text.digitsValue cs < 256 then some (Text.digitsValue cs) else none

def dotted? (cs : List Char) : Option (List Nat) := do
  let octets ← (Text.splitChars '.' cs).mapM octet?
  if octets.length = 4 then some octets else none

def hexValue? (c : Char) : Option Nat :=
  if Text.isDigit c then some (c.toNat - 48)
  else if 'a' ≤ c ∧ c ≤ 'f' then some (c.toNat - 87)
  else if 'A' ≤ c ∧ c ≤ 'F' then some (c.toNat - 55)
  else none

/-- One to four hex digits. -/
def group? (cs : List Char) : Option Nat :=
  if cs.isEmpty ∨ 4 < cs.length then none
  else do
    let digits ← cs.mapM hexValue?
    return digits.foldl (fun n d => n * 16 + d) 0

/-- Groups between colons; the last piece may be dotted decimal and stands for two. -/
def groups? (pieces : List (List Char)) : Option (List Nat) :=
  match pieces with
  | [] => some []
  | [last] =>
    match group? last with
    | some g => some [g]
    | none => match dotted? last with
      | some [a, b, c, d] => some [a * 256 + b, c * 256 + d]
      | _ => none
  | piece :: rest => do
    let g ← group? piece
    let gs ← groups? rest
    return g :: gs

/-- Splits at the first `::`. -/
def splitGap? : List Char → Option (List Char × List Char)
  | ':' :: ':' :: rest => some ([], rest)
  | c :: rest => (splitGap? rest).map fun (a, b) => (c :: a, b)
  | [] => none

def pieces (cs : List Char) : List (List Char) :=
  if cs.isEmpty then [] else Text.splitChars ':' cs

/-- The groups before `::` have no dotted form. -/
def plainGroups? (ps : List (List Char)) : Option (List Nat) := ps.mapM group?

def parseV6? (cs : List Char) : Option (List Nat) :=
  match splitGap? cs with
  | none => do
    let gs ← groups? (Text.splitChars ':' cs)
    if gs.length = 8 then some gs else none
  | some (before, after) => do
    let front ← plainGroups? (pieces before)
    let back ← groups? (pieces after)
    if front.length + back.length ≤ 7 then
      some (front ++ List.replicate (8 - front.length - back.length) 0 ++ back)
    else none

def parse? (s : String) : Option Address :=
  match dotted? s.toList with
  | some octets => some (.v4 (octets.map UInt8.ofNat))
  | none => (parseV6? s.toList).map .v6

/-! ## Bytes -/

def toBytes : Address → Bytes
  | .v4 b => b
  | .v6 gs => gs.flatMap fun g => [UInt8.ofNat (g / 256), UInt8.ofNat (g % 256)]

def pairGroups : Bytes → List Nat
  | a :: b :: rest => (a.toNat * 256 + b.toNat) :: pairGroups rest
  | _ => []

def ofBytes? (b : Bytes) : Option Address :=
  if b.length = 4 then some (.v4 b)
  else if b.length = 16 then some (.v6 (pairGroups b))
  else none

/-! ## Printing -/

def printDotted (b : Bytes) : String :=
  ".".intercalate (b.map fun x => toString x.toNat)

def hexText (n : Nat) : String := String.ofList (Nat.toDigits 16 n)

/-- Length of the run of zero groups at the head. -/
def zeroRun (gs : List Nat) : Nat := (gs.takeWhile (· == 0)).length

/-- Start and length of the first longest run of zero groups. -/
def longestRun (gs : List Nat) : Nat × Nat :=
  (List.range gs.length).foldl
    (fun (start, len) i =>
      let here := zeroRun (gs.drop i)
      if len < here then (i, here) else (start, len))
    (0, 0)

def printV6 (gs : List Nat) : String :=
  if gs.take 5 = [0, 0, 0, 0, 0] ∧ gs[5]? = some 0xffff then
    "::ffff:" ++ printDotted ((gs.drop 6).flatMap fun g =>
      [UInt8.ofNat (g / 256), UInt8.ofNat (g % 256)])
  else
    let (start, len) := longestRun gs
    let join (l : List Nat) := ":".intercalate (l.map hexText)
    if 1 < len then join (gs.take start) ++ "::" ++ join (gs.drop (start + len)) else join gs

def print : Address → String
  | .v4 b => printDotted b
  | .v6 gs => printV6 gs

end Address

/-! ## Subnets -/

structure Subnet where
  address : Address
  prefixLength : Nat
deriving DecidableEq, Repr

namespace Subnet

/-- `address/length`, the length at most the address's bits. -/
def parse? (s : String) : Option Subnet := do
  let (addr, len) ← Text.splitOnce? '/' s
  let n ← Text.natBelow? 256 len.toList
  let a ← Address.parse? addr
  match a with
  | .v4 _ => if n ≤ 32 then some ⟨a, n⟩ else none
  | .v6 _ => if n ≤ 128 then some ⟨a, n⟩ else none

/-- `width` bytes whose first `n` bits are set. -/
def maskBytes : Nat → Nat → Bytes
  | 0, _ => []
  | width + 1, n =>
    UInt8.ofNat (256 - bitLimit (8 - min n 8)) :: maskBytes width (n - 8)

/-- The address's bytes, then the mask's. -/
def toBytes (s : Subnet) : Bytes :=
  let a := s.address.toBytes
  a ++ maskBytes a.length s.prefixLength

end Subnet
end CertAuthority
