import CertAuthority.Hash.Hmac
import CertAuthority.Signature.Weierstrass

/-!
# ECDSA

Signatures are pairs of numbers. The secret factor is derived from the key and the digest with an
HMAC chain, as RFC 6979 does, so signing the same message twice gives the same signature.
-/

namespace CertAuthority.Ecdsa

/-- Leftmost bits of a digest, as many as the order of the base point has. -/
def scalarOf (c : Curve) (digest : Bytes) : Nat :=
  let bits := bitLength c.n
  let n := Bytes.toNat digest
  if bits < 8 * digest.length then n / bitLimit (8 * digest.length - bits) else n

/-- State of the HMAC chain. -/
structure Chain where
  k : Bytes
  v : Bytes

/-- Mixes `extra` into the chain. -/
def Chain.reseed (h : HashAlgorithm) (s : Chain) (mark : UInt8) (extra : Bytes) : Chain :=
  let k := hmac h s.k (s.v ++ mark :: extra)
  ⟨k, hmac h k s.v⟩

/-- At least `n` bytes of chain values; `fuel` values suffice if `n ≤ fuel * size`. -/
def Chain.output (h : HashAlgorithm) (s : Chain) (n : Nat) : Nat → Bytes → Chain × Bytes
  | 0, out => (s, out)
  | fuel + 1, out =>
    if n ≤ out.length then (s, out)
    else
      let v := hmac h s.k s.v
      Chain.output h ⟨s.k, v⟩ n fuel (out ++ v)

def signWith (c : Curve) (d e k : Nat) : Option (Nat × Nat) := do
  let (x, _) ← c.affine? (c.multiply k c.base)
  let r := x % c.n
  let s := invMod c.n k * (e + r * d) % c.n
  if r = 0 ∨ s = 0 then none else some (r, s)

/-- Takes candidates for the secret factor off the chain until one signs. -/
def attempt (c : Curve) (h : HashAlgorithm) (d e : Nat) : Nat → Chain → Option (Nat × Nat)
  | 0, _ => none
  | fuel + 1, s =>
    let (s, out) := s.output h c.size c.size []
    let k := Bytes.toNat (out.take c.size)
    let signed := if 0 < k ∧ k < c.n then signWith c d e k else none
    match signed with
    | some signature => some signature
    | none => attempt c h d e fuel (s.reseed h 0 [])

def sign? (c : Curve) (h : HashAlgorithm) (d : Nat) (message : Bytes) : Option (Nat × Nat) :=
  let digest := h.digest message
  let e := scalarOf c digest % c.n
  let seed := Bytes.ofNatWidth c.size d ++ Bytes.ofNatWidth c.size e
  let start : Chain := ⟨List.replicate h.size 0, List.replicate h.size 1⟩
  attempt c h d e 128 ((start.reseed h 0 seed).reseed h 1 seed)

/-- The signature `(r, s)` of the message verifies with the public key. -/
def verify (c : Curve) (h : HashAlgorithm) (publicKey message : Bytes) (r s : Nat) : Bool :=
  match c.decodePoint? publicKey with
  | none => false
  | some q =>
    if 0 < r ∧ r < c.n ∧ 0 < s ∧ s < c.n then
      let e := scalarOf c (h.digest message)
      let w := invMod c.n s
      let point := c.add (c.multiply (e * w % c.n) c.base) (c.multiply (r * w % c.n) q)
      match c.affine? point with
      | some (x, _) => x % c.n == r
      | none => false
    else false

end CertAuthority.Ecdsa
