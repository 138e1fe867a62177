import CertAuthority.Hash.Sha512
import CertAuthority.Signature.Modular

/-!
# Ed25519

The twisted Edwards curve `-x² + y² = 1 + d x² y²` over the field of `2 ^ 255 - 19` elements, in
extended coordinates `(x, y, z, t)` with `x y = z t`. Points and numbers are written least
significant byte first; the top bit of a point carries the parity of `x`.
-/

namespace CertAuthority.Ed25519

/-! ## The curve -/

def p : Nat := bitLimit 255 - 19

/-- Order of the base point. -/
def order : Nat := bitLimit 252 + 27742317777372353535851937790883648493

/-- The curve constant `-121665 / 121666`. -/
def d : Nat := 37095705934669439343138083508754565189542113879843219016388785533085940283555

/-- A square root of `-1`. -/
def rootOfMinusOne : Nat :=
  19681161376707505956807079304988542015446066515923890162744021073123829784752

structure Point where
  x : Nat
  y : Nat
  z : Nat
  t : Nat

def neutral : Point := ⟨0, 1, 1, 0⟩

def base : Point :=
  let x := 15112221349535400772501151409588531511454012693041857206046113283949847762202
  let y := 46316835694926478169428394003475163141307993866256225615783033603165251855960
  ⟨x, y, 1, x * y % p⟩

def add (a b : Point) : Point :=
  let u := subMod p a.y a.x * subMod p b.y b.x % p
  let v := (a.y + a.x) * (b.y + b.x) % p
  let c := 2 * a.t * b.t * d % p
  let w := 2 * a.z * b.z % p
  let e := subMod p v u
  let f := subMod p w c
  let g := (w + c) % p
  let h := (v + u) % p
  ⟨e * f % p, g * h % p, f * g % p, e * h % p⟩

def negate (a : Point) : Point := ⟨subMod p 0 a.x % p, a.y, a.z, subMod p 0 a.t % p⟩

def multiply (k : Nat) (a : Point) : Point :=
  (bitsOf 256 k).foldl
    (fun acc bit => let twice := add acc acc; if bit then add twice a else twice) neutral

/-! ## Bytes -/

def ofLittle (b : Bytes) : Nat := Bytes.toNat b.reverse

def toLittle (n : Nat) : Bytes := (Bytes.ofNatWidth 32 n).reverse

def encode (a : Point) : Bytes :=
  let w := invMod p a.z
  let x := a.x * w % p
  let y := a.y * w % p
  toLittle (y + (x % 2) * bitLimit 255)

/-- The point of that `y` coordinate and parity of `x`. -/
def decode? (b : Bytes) : Option Point :=
  let n := ofLittle b
  let y := n % bitLimit 255 % p
  let odd := n / bitLimit 255 % 2
  let u := subMod p (y * y % p) 1
  let v := (d * (y * y % p) + 1) % p
  let candidate := u * powMod p v 3 % p * powMod p (u * powMod p v 7 % p) ((p - 5) / 8) % p
  let square := v * (candidate * candidate % p) % p
  let root? :=
    if square = u then some candidate
    else if square = subMod p 0 u % p then some (candidate * rootOfMinusOne % p)
    else none
  root?.map fun root =>
    let x := if root % 2 = odd then root else subMod p 0 root % p
    ⟨x, y, 1, x * y % p⟩

/-! ## Keys and signatures -/

/-- Secret factor and hash key of a seed. -/
def expand (seed : Bytes) : Nat × Bytes :=
  let h := Sha512.digest seed
  let n := ofLittle (h.take 32)
  (n % bitLimit 254 / 8 * 8 + bitLimit 254, h.drop 32)

def publicKey (seed : Bytes) : Bytes := encode (multiply (expand seed).1 base)

def sign (seed message : Bytes) : Bytes :=
  let (a, hashKey) := expand seed
  let pub := encode (multiply a base)
  let r := ofLittle (Sha512.digest (hashKey ++ message)) % order
  let big := encode (multiply r base)
  let k := ofLittle (Sha512.digest (big ++ pub ++ message)) % order
  big ++ toLittle ((r + k * a) % order)

def verify (publicKey message signature : Bytes) : Bool :=
  if publicKey.length = 32 ∧ signature.length = 64 then
    match decode? publicKey with
    | none => false
    | some a =>
      let s := ofLittle (signature.drop 32)
      let k := ofLittle (Sha512.digest (signature.take 32 ++ publicKey ++ message)) % order
      s < order && encode (add (multiply s base) (multiply k (negate a))) == signature.take 32
  else false

end CertAuthority.Ed25519
