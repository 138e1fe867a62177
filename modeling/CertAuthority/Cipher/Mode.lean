import CertAuthority.Bytes.Basic

/-!
# Modes of operation

* chaining mode: each plain block is combined with the cipher block before it, the first with an
  initial block; the plain text is padded to whole blocks with the number of bytes added;
* counter mode: the text is combined with encrypted values of a big-endian counter.
-/

namespace CertAuthority.Cipher

/-- A padded text: one to `size` bytes added, each their number. -/
def pad (size : Nat) (text : Bytes) : Bytes :=
  let n := size - text.length % size
  text ++ List.replicate n (UInt8.ofNat n)

/-- The text before its padding, if that is well formed. -/
def unpad? (size : Nat) (padded : Bytes) : Option Bytes := do
  let last ← padded.getLast?
  let n := last.toNat
  if 0 < n ∧ n ≤ size ∧ padded.drop (padded.length - n) = List.replicate n last then
    some (padded.take (padded.length - n))
  else none

def chainEncrypt (encrypt : Bytes → Bytes) (before : Bytes) : List Bytes → Bytes
  | [] => []
  | block :: rest =>
    let out := encrypt (Bytes.xor block before)
    out ++ chainEncrypt encrypt out rest

def chainDecrypt (decrypt : Bytes → Bytes) (before : Bytes) : List Bytes → Bytes
  | [] => []
  | block :: rest => Bytes.xor (decrypt block) before ++ chainDecrypt decrypt block rest

/-- Encrypts in chaining mode with padding; `iv` is one block. -/
def encryptChained (encrypt : Bytes → Bytes) (iv text : Bytes) : Bytes :=
  chainEncrypt encrypt iv (Bytes.chunks iv.length (pad iv.length text))

/-- Decrypts in chaining mode; refuses a text that is not whole blocks or ill padded. -/
def decryptChained? (decrypt : Bytes → Bytes) (iv text : Bytes) : Option Bytes :=
  if iv.isEmpty ∨ text.isEmpty ∨ text.length % iv.length ≠ 0 then none
  else unpad? iv.length (chainDecrypt decrypt iv (Bytes.chunks iv.length text))

/-- Counter mode; the same both ways. -/
def counterBlocks (encrypt : Bytes → Bytes) (size : Nat) (counter : Nat) : List Bytes → Bytes
  | [] => []
  | block :: rest =>
    Bytes.xor block (encrypt (Bytes.ofNatWidth size counter)) ++
      counterBlocks encrypt size (counter + 1) rest

def counterMode (encrypt : Bytes → Bytes) (iv text : Bytes) : Bytes :=
  counterBlocks encrypt iv.length (Bytes.toNat iv) (Bytes.chunks iv.length text)

end CertAuthority.Cipher
