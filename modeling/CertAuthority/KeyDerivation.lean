import CertAuthority.Cipher.Blowfish
import CertAuthority.Hash.Hmac
import CertAuthority.Hash.Sha512

/-!
# Keys from passwords

* `Pbkdf2` : key derivation of PKCS#5. Each block of the key combines as many values of an HMAC chain
  as there are iterations;
* `Scrypt` : key derivation of RFC 7914. PBKDF2 with one iteration around a mixing step that fills a
  table of `cost` blocks and reads it back at places that depend on the data. A block is `32 * size`
  words, least significant byte first;
* `Pkcs12Derivation` : appendix B of RFC 7292. Password and salt are repeated to whole blocks, hashed
  together with a purpose byte, and advanced by each block of output. The password is UTF-16 with a
  closing zero;
* `BcryptPbkdf` : the derivation that encrypted OpenSSH keys use. Blocks of 32 bytes, each from many
  rounds of a hash built on Blowfish, are dealt out to the key byte by byte.
-/

namespace CertAuthority.Pbkdf2

/-- Combines `n` further chain values into `out`. -/
def chain (f : Bytes → Bytes) : Nat → Bytes → Bytes → Bytes
  | 0, _, out => out
  | n + 1, last, out => let next := f last; chain f n next (Bytes.xor out next)

def block (f : Bytes → Bytes) (salt : Bytes) (iterations i : Nat) : Bytes :=
  let first := f (salt ++ Bytes.ofWord32 i)
  chain f (iterations - 1) first first

def derive (h : HashAlgorithm) (password salt : Bytes) (iterations length : Nat) : Bytes :=
  let f := Hmac.withKey h password
  ((List.range ((length + h.size - 1) / h.size)).flatMap fun i =>
    block f salt iterations (i + 1)).take length

end CertAuthority.Pbkdf2

namespace CertAuthority.Scrypt

def rotl (x n : UInt32) : UInt32 := (x <<< n) ||| (x >>> (32 - n))

/-- One quarter of a round: four words of `s` updated in turn. -/
def quarter (s : Array UInt32) (a b c d : Nat) : Array UInt32 :=
  let word (t : Array UInt32) (i : Nat) := t.getD i 0
  let s := s.set! b (word s b ^^^ rotl (word s a + word s d) 7)
  let s := s.set! c (word s c ^^^ rotl (word s b + word s a) 9)
  let s := s.set! d (word s d ^^^ rotl (word s c + word s b) 13)
  s.set! a (word s a ^^^ rotl (word s d + word s c) 18)

/-- A round on the columns and one on the rows. -/
def doubleRound (s : Array UInt32) : Array UInt32 :=
  let s := quarter s 0 4 8 12
  let s := quarter s 5 9 13 1
  let s := quarter s 10 14 2 6
  let s := quarter s 15 3 7 11
  let s := quarter s 0 1 2 3
  let s := quarter s 5 6 7 4
  let s := quarter s 10 11 8 9
  quarter s 15 12 13 14

def combine (a b : Array UInt32) : Array UInt32 := Array.zipWith (· ^^^ ·) a b

/-- Eight rounds, then the input added. -/
def core (x : Array UInt32) : Array UInt32 :=
  Array.zipWith (· + ·) x (doubleRound (doubleRound (doubleRound (doubleRound x))))

/-- Each part of 16 words combined with the result for the part before it. -/
def mixParts : Array UInt32 → List (Array UInt32) → List (Array UInt32)
  | _, [] => []
  | x, part :: rest => let y := core (combine x part); y :: mixParts y rest

def parts (b : Array UInt32) : List (Array UInt32) :=
  (List.range (b.size / 16)).map fun i => b.extract (16 * i) (16 * i + 16)

/-- The parts at even places, then those at odd ones. -/
def unzipped : List (Array UInt32) → List (Array UInt32) × List (Array UInt32)
  | a :: b :: rest => let (l, r) := unzipped rest; (a :: l, b :: r)
  | rest => (rest, [])

def mixBlock (b : Array UInt32) : Array UInt32 :=
  let (even, odd) := unzipped (mixParts (b.extract (b.size - 16) b.size) (parts b))
  (even ++ odd).foldl (· ++ ·) #[]

def fill : Nat → Array UInt32 → Array (Array UInt32) → Array UInt32 × Array (Array UInt32)
  | 0, x, table => (x, table)
  | n + 1, x, table => fill n (mixBlock x) (table.push x)

def readBack (table : Array (Array UInt32)) : Nat → Array UInt32 → Array UInt32
  | 0, x => x
  | n + 1, x =>
    let j := (x.getD (x.size - 16) 0).toNat % table.size
    readBack table n (mixBlock (combine x (table.getD j #[])))

def littleWords (b : Bytes) : Array UInt32 :=
  ((Bytes.chunks 4 b).map fun w => UInt32.ofNat (Bytes.toNat w.reverse)).toArray

def mix (cost : Nat) (b : Bytes) : Bytes :=
  let (x, table) := fill cost (littleWords b) #[]
  (readBack table cost x).toList.flatMap fun w => (Bytes.ofNatWidth 4 w.toNat).reverse

def derive (password salt : Bytes) (cost size parallel length : Nat) : Bytes :=
  let b := Pbkdf2.derive .sha256 password salt 1 (128 * size * parallel)
  Pbkdf2.derive .sha256 password ((Bytes.chunks (128 * size) b).flatMap (mix cost)) 1 length

end CertAuthority.Scrypt

namespace CertAuthority.Pkcs12Derivation

inductive Purpose where
  | key | iv | mac

def Purpose.byte : Purpose → UInt8
  | .key => 1
  | .iv => 2
  | .mac => 3

/-- Units of two bytes; a character beyond the first plane takes two. -/
def utf16 (s : String) : Bytes :=
  s.toList.flatMap fun c =>
    let n := c.toNat
    if n < 0x10000 then Bytes.ofNatWidth 2 n
    else
      Bytes.ofNatWidth 2 (0xd800 + (n - 0x10000) / 0x400) ++
        Bytes.ofNatWidth 2 (0xdc00 + (n - 0x10000) % 0x400)

def password (s : String) : Bytes := utf16 s ++ [0, 0]

/-- As many copies as fill whole blocks of `v` bytes. -/
def repeated (v : Nat) (b : Bytes) : Bytes :=
  if b.isEmpty then []
  else
    let size := (b.length + v - 1) / v * v
    ((List.replicate (size / b.length + 1) b).flatten).take size

def iterate (h : HashAlgorithm) : Nat → Bytes → Bytes
  | 0, b => b
  | n + 1, b => iterate h n (h.digest b)

/-- Adds `b + 1` to each block of `v` bytes. -/
def advance (v : Nat) (b i : Bytes) : Bytes :=
  (Bytes.chunks v i).flatMap fun block =>
    Bytes.ofNatWidth v (Bytes.toNat block + Bytes.toNat b + 1)

def blocks (h : HashAlgorithm) (diversifier : Bytes) (iterations : Nat) : Nat → Bytes → Bytes
  | 0, _ => []
  | n + 1, i =>
    let a := iterate h iterations (diversifier ++ i)
    let b := (repeated h.blockSize a).take h.blockSize
    a ++ blocks h diversifier iterations n (advance h.blockSize b i)

def derive (h : HashAlgorithm) (purpose : Purpose) (pass salt : Bytes) (iterations length : Nat) :
    Bytes :=
  let v := h.blockSize
  (blocks h (List.replicate v purpose.byte) iterations ((length + h.size - 1) / h.size)
    (repeated v salt ++ repeated v pass)).take length

end CertAuthority.Pkcs12Derivation

namespace CertAuthority.BcryptPbkdf

open Blowfish

/-- The text that is encrypted under the expanded state. -/
def magic : Bytes := Bytes.ofText "OxychromaticBlowfishSwatDynamite"

def expandTurns (pass salt : Array UInt32) : Nat → State → State
  | 0, s => s
  | n + 1, s => expandTurns pass salt n (expand pass (expand salt s))

def encryptTimes (s : State) : Nat → UInt32 → UInt32 → UInt32 × UInt32
  | 0, l, r => (l, r)
  | n + 1, l, r => let (l, r) := encrypt s l r; encryptTimes s n l r

def encryptPairs (s : State) : List UInt32 → List UInt32
  | l :: r :: rest =>
    let (l, r) := encryptTimes s 64 l r
    l :: r :: encryptPairs s rest
  | _ => []

/-- Hash of 64 bytes of password and salt each, least significant byte of every word first. -/
def hash (pass salt : Bytes) : Bytes :=
  let pass := words pass
  let salt := words salt
  let s := expandTurns pass salt 64 (expandSalted salt pass initial)
  (encryptPairs s (words magic).toList).flatMap fun w => (Bytes.ofNatWidth 4 w.toNat).reverse

/-- Combines the hashes of further rounds into `out`. -/
def roundsFrom (pass : Bytes) : Nat → Bytes → Bytes → Bytes
  | 0, _, out => out
  | n + 1, last, out =>
    let next := hash pass (Sha512.digest last)
    roundsFrom pass n next (Bytes.xor out next)

def block (pass salt : Bytes) (rounds count : Nat) : Bytes :=
  let first := hash pass (Sha512.digest (salt ++ Bytes.ofWord32 count))
  roundsFrom pass (rounds - 1) first first

/-- Byte `i` of the key is byte `i / stride` of block `i % stride`. -/
def derive (password salt : Bytes) (rounds length : Nat) : Bytes :=
  let pass := Sha512.digest password
  let stride := (length + 31) / 32
  let blocks := (List.range stride).map fun i => block pass salt rounds (i + 1)
  (List.range length).map fun i => (blocks.getD (i % stride) []).getD (i / stride) 0

end CertAuthority.BcryptPbkdf
