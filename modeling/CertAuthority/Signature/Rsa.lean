import CertAuthority.Hash.Hmac
import CertAuthority.Signature.Modular

/-!
# RSA signatures

PKCS#1 version 1.5: the digest is wrapped in a structure that names its algorithm, padded to the
width of the modulus, and raised to the private exponent. `verifyPss` checks the probabilistic
scheme, whose salt is as long as the digest.
-/

namespace CertAuthority.Rsa

structure PublicKey where
  modulus : Nat
  exponent : Nat
deriving DecidableEq, Repr

structure PrivateKey where
  modulus : Nat
  publicExponent : Nat
  privateExponent : Nat
  prime1 : Nat
  prime2 : Nat
  exponent1 : Nat
  exponent2 : Nat
  coefficient : Nat
deriving DecidableEq, Repr

def PrivateKey.publicKey (k : PrivateKey) : PublicKey := ⟨k.modulus, k.publicExponent⟩

/-- Bytes of the modulus. -/
def PublicKey.size (k : PublicKey) : Nat := (bitLength k.modulus + 7) / 8

/-- Encoding of the structure around a digest, up to the digest. -/
def digestHeader : HashAlgorithm → Bytes
  | .sha1 => [0x30, 0x21, 0x30, 0x09, 0x06, 0x05, 0x2b, 0x0e, 0x03, 0x02, 0x1a, 0x05, 0x00, 0x04,
      0x14]
  | h =>
    let size := UInt8.ofNat h.size
    let arc : UInt8 := match h with
      | .sha384 => 2
      | .sha512 => 3
      | .sha224 => 4
      | _ => 1
    [0x30, size + 17, 0x30, 0x0d, 0x06, 0x09, 0x60, 0x86, 0x48, 0x01, 0x65, 0x03, 0x04, 0x02, arc,
      0x05, 0x00, 0x04, size]

/-- The padded digest, if it fits `size` bytes. -/
def padded? (h : HashAlgorithm) (size : Nat) (message : Bytes) : Option Bytes :=
  let t := digestHeader h ++ h.digest message
  if t.length + 11 ≤ size then
    some ([0, 1] ++ List.replicate (size - t.length - 3) 0xff ++ [0] ++ t)
  else none

def sign? (h : HashAlgorithm) (k : PrivateKey) (message : Bytes) : Option Bytes := do
  let size := k.publicKey.size
  let m ← padded? h size message
  return Bytes.ofNatWidth size (powMod k.modulus (Bytes.toNat m) k.privateExponent)

/-- The padded message a signature stands for. -/
def opened? (k : PublicKey) (signature : Bytes) : Option Bytes :=
  let s := Bytes.toNat signature
  if signature.length = k.size ∧ s < k.modulus then
    some (Bytes.ofNatWidth k.size (powMod k.modulus s k.exponent))
  else none

def verify (h : HashAlgorithm) (k : PublicKey) (message signature : Bytes) : Bool :=
  match opened? k signature, padded? h k.size message with
  | some m, some expected => m == expected
  | _, _ => false

/-! ## Probabilistic scheme -/

/-- Mask of `n` bytes generated from a seed. -/
def mask (h : HashAlgorithm) (seed : Bytes) (n : Nat) : Bytes :=
  ((List.range (n / h.size + 1)).flatMap fun i => h.digest (seed ++ Bytes.ofWord32 i)).take n

def verifyPss (h : HashAlgorithm) (k : PublicKey) (message signature : Bytes) : Bool :=
  match opened? k signature with
  | none => false
  | some m =>
    let bits := bitLength k.modulus - 1
    let size := (bits + 7) / 8
    let m := m.drop (k.size - size)
    let dbSize := size - h.size - 1
    let masked := m.take dbSize
    let digest := (m.drop dbSize).take h.size
    let spare := 8 * size - bits
    let db := Bytes.ofNatWidth dbSize
      (Bytes.toNat (Bytes.xor masked (mask h digest dbSize)) % bitLimit (8 * dbSize - spare))
    let padLength := dbSize - h.size - 1
    let salt := db.drop (padLength + 1)
    2 * h.size + 2 ≤ size && m.getLast? == some 0xbc &&
      Bytes.toNat masked < bitLimit (8 * dbSize - spare) &&
      db.take (padLength + 1) == List.replicate padLength 0 ++ [1] &&
      h.digest (List.replicate 8 0 ++ h.digest message ++ salt) == digest

end CertAuthority.Rsa
