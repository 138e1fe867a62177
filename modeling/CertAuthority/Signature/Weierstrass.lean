import CertAuthority.Bytes.Basic
import CertAuthority.Signature.Modular

/-!
# Elliptic curves in short Weierstrass form

The NIST curves P-256 and P-384, `y² = x³ - 3x + b` over a prime field. Points are computed with in
Jacobian coordinates, where `(x, y, z)` stands for `(x / z², y / z³)` and `z = 0` for the neutral
element.

* `Curve.multiply` : multiples of a point, by doubling and adding;
* `Curve.encodePoint`, `Curve.decodePoint?` : the uncompressed form, `4`, then both coordinates.
-/

namespace CertAuthority

structure Curve where
  /-- Prime of the field -/
  p : Nat
  b : Nat
  /-- Order of the base point -/
  n : Nat
  gx : Nat
  gy : Nat
  /-- Bytes of a coordinate -/
  size : Nat

/-- Jacobian coordinates. -/
structure CurvePoint where
  x : Nat
  y : Nat
  z : Nat

namespace Curve

def p256 : Curve :=
  { p := 0xffffffff00000001000000000000000000000000ffffffffffffffffffffffff
    b := 0x5ac635d8aa3a93e7b3ebbd55769886bc651d06b0cc53b0f63bce3c3e27d2604b
    n := 0xffffffff00000000ffffffffffffffffbce6faada7179e84f3b9cac2fc632551
    gx := 0x6b17d1f2e12c4247f8bce6e563a440f277037d812deb33a0f4a13945d898c296
    gy := 0x4fe342e2fe1a7f9b8ee7eb4a7c0f9e162bce33576b315ececbb6406837bf51f5
    size := 32 }

def p384 : Curve :=
  { p := 0xfffffffffffffffffffffffffffffffffffffffffffffffffffffffffffffffeffffffff0000000000000000ffffffff
    b := 0xb3312fa7e23ee7e4988e056be3f82d19181d9c6efe8141120314088f5013875ac656398d8a2ed19d2a85c8edd3ec2aef
    n := 0xffffffffffffffffffffffffffffffffffffffffffffffffc7634d81f4372ddf581a0db248b0a77aecec196accc52973
    gx := 0xaa87ca22be8b05378eb1c71ef320ad746e1d3b628ba79b9859f741e082542a385502f25dbf55296c3a545e3872760ab7
    gy := 0x3617de4a96262c6f5d9e98bf9292dc29f8f41dbd289a147ce9da3113b5f0b8c00a60b1ce1d7e819d7a431d7c90ea0e5f
    size := 48 }

def base (c : Curve) : CurvePoint := ⟨c.gx, c.gy, 1⟩

def neutral : CurvePoint := ⟨1, 1, 0⟩

def double (c : Curve) (a : CurvePoint) : CurvePoint :=
  if a.z = 0 then neutral
  else
    let zz := a.z * a.z % c.p
    let yy := a.y * a.y % c.p
    let s := 4 * a.x * yy % c.p
    let m := 3 * subMod c.p a.x zz * (a.x + zz) % c.p
    let x := subMod c.p (m * m % c.p) (2 * s % c.p)
    let y := subMod c.p (m * subMod c.p s x % c.p) (8 * yy * yy % c.p)
    ⟨x, y, 2 * a.y * a.z % c.p⟩

def add (c : Curve) (a b : CurvePoint) : CurvePoint :=
  if a.z = 0 then b
  else if b.z = 0 then a
  else
    let aa := a.z * a.z % c.p
    let bb := b.z * b.z % c.p
    let u := a.x * bb % c.p
    let v := b.x * aa % c.p
    let s := a.y * bb * b.z % c.p
    let t := b.y * aa * a.z % c.p
    let h := subMod c.p v u
    let r := subMod c.p t s
    if h = 0 then (if r = 0 then c.double a else neutral)
    else
      let hh := h * h % c.p
      let hhh := h * hh % c.p
      let uhh := u * hh % c.p
      let x := subMod c.p (subMod c.p (r * r % c.p) hhh) (2 * uhh % c.p)
      let y := subMod c.p (r * subMod c.p uhh x % c.p) (s * hhh % c.p)
      ⟨x, y, h * a.z * b.z % c.p⟩

/-- `k` times the point, for `k` below two to the power of the field's bits. -/
def multiply (c : Curve) (k : Nat) (a : CurvePoint) : CurvePoint :=
  (bitsOf (8 * c.size) k).foldl
    (fun acc bit => let twice := c.double acc; if bit then c.add twice a else twice) neutral

/-- Affine coordinates; the neutral element has none. -/
def affine? (c : Curve) (a : CurvePoint) : Option (Nat × Nat) :=
  if a.z = 0 then none
  else
    let w := invMod c.p a.z
    let ww := w * w % c.p
    some (a.x * ww % c.p, a.y * ww * w % c.p)

def isOnCurve (c : Curve) (x y : Nat) : Bool :=
  x < c.p && y < c.p && y * y % c.p == (x * x * x + (c.p - 3) * x + c.b) % c.p

def encodePoint (c : Curve) (x y : Nat) : Bytes :=
  4 :: (Bytes.ofNatWidth c.size x ++ Bytes.ofNatWidth c.size y)

/-- A point of the curve in uncompressed form. -/
def decodePoint? (c : Curve) : Bytes → Option CurvePoint
  | 4 :: rest =>
    let x := Bytes.toNat (rest.take c.size)
    let y := Bytes.toNat (rest.drop c.size)
    if rest.length = 2 * c.size ∧ c.isOnCurve x y then some ⟨x, y, 1⟩ else none
  | _ => none

/-- A secret factor from random bytes: between one and the order. -/
def factorOf (c : Curve) (random : Bytes) : Nat := Bytes.toNat random % (c.n - 1) + 1

/-- Public key of the private key `d`, in uncompressed form; `0 < d < n`. -/
def publicKey? (c : Curve) (d : Nat) : Option Bytes := do
  let (x, y) ← if 0 < d ∧ d < c.n then c.affine? (c.multiply d c.base) else none
  return c.encodePoint x y

end Curve
end CertAuthority
