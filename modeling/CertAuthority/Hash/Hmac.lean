import CertAuthority.Hash.Sha1
import CertAuthority.Hash.Sha256
import CertAuthority.Hash.Sha512

/-!
# Hash algorithms and keyed hashing

* `HashAlgorithm` : the hashes that signatures, stores and key derivation use;
* `hmac` : RFC 2104. A key longer than a block is hashed first.
-/

namespace CertAuthority

inductive HashAlgorithm where
  | sha1 | sha224 | sha256 | sha384 | sha512
deriving DecidableEq, Repr, Inhabited

namespace HashAlgorithm

def digest : HashAlgorithm → Bytes → Bytes
  | .sha1 => Sha1.digest
  | .sha224 => Sha256.digest224
  | .sha256 => Sha256.digest
  | .sha384 => Sha512.digest384
  | .sha512 => Sha512.digest

/-- Bytes of a block. -/
def blockSize : HashAlgorithm → Nat
  | .sha1 | .sha224 | .sha256 => 64
  | .sha384 | .sha512 => 128

/-- Bytes of a digest. -/
def size : HashAlgorithm → Nat
  | .sha1 => 20
  | .sha224 => 28
  | .sha256 => 32
  | .sha384 => 48
  | .sha512 => 64

end HashAlgorithm

namespace Hmac

/-- The key as one block. -/
def blockKey (h : HashAlgorithm) (key : Bytes) : Bytes :=
  let k := if h.blockSize < key.length then h.digest key else key
  k ++ List.replicate (h.blockSize - k.length) 0

def masked (mask : UInt8) (block : Bytes) : Bytes := block.map (· ^^^ mask)

/-- Keyed hash for one key; for SHA-256 the two key blocks are absorbed once for all messages. -/
def withKey (h : HashAlgorithm) (key : Bytes) : Bytes → Bytes :=
  let block := blockKey h key
  let inner := masked 0x36 block
  let outer := masked 0x5c block
  match h with
  | .sha256 =>
    let si := Sha256.absorb Sha256.initial inner
    let so := Sha256.absorb Sha256.initial outer
    fun message => Sha256.finish so 64 (Sha256.finish si 64 message)
  | _ => fun message => h.digest (outer ++ h.digest (inner ++ message))

end Hmac

def hmac (h : HashAlgorithm) (key message : Bytes) : Bytes := Hmac.withKey h key message

end CertAuthority
