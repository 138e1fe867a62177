import CertAuthority.Cipher.Aes
import CertAuthority.Cipher.Mode
import CertAuthority.KeyDerivation
import CertAuthority.X509.KeyInfo

/-!
# Encryption under a password

The second scheme of PKCS#5: a key derived from the password, and AES in chaining mode. The outdated
choices of the standard are recognized but never open anything.

* `PasswordScheme.ofIdentifier?` : the scheme an algorithm identifier describes;
* `PasswordScheme.decrypt?`, `PasswordScheme.encrypt` : under a password given as bytes;
* `PasswordScheme.fresh` : the scheme this library encrypts with, from a source of random bytes.
-/

namespace CertAuthority.X509

open Der

inductive PasswordDerivation where
  /-- `prf` is none for a function that is not used any more -/
  | pbkdf2 (salt : Bytes) (iterations : Nat) (keyLength : Option Nat) (prf : Option HashAlgorithm)
  | scrypt (salt : Bytes) (cost size parallel : Nat) (keyLength : Option Nat)
deriving DecidableEq, Repr

inductive PasswordScheme where
  /-- AES with keys of `keySize` bytes -/
  | aes (derivation : PasswordDerivation) (keySize : Nat) (iv : Bytes)
  | outdated
deriving DecidableEq, Repr

def oidPbes2 : List Nat := [1, 2, 840, 113549, 1, 5, 13]
def oidPbkdf2 : List Nat := [1, 2, 840, 113549, 1, 5, 12]
def oidScrypt : List Nat := [1, 3, 6, 1, 4, 1, 11591, 4, 11]

/-- Keyed hashes of the key derivation. -/
def prfOids : List (List Nat × Option HashAlgorithm) :=
  [([1, 2, 840, 113549, 2, 7], none), ([1, 2, 840, 113549, 2, 8], some .sha224),
   ([1, 2, 840, 113549, 2, 9], some .sha256), ([1, 2, 840, 113549, 2, 10], some .sha384),
   ([1, 2, 840, 113549, 2, 11], some .sha512)]

/-- Ciphers with the bytes of their keys. -/
def cipherOids : List (List Nat × Nat) :=
  [([2, 16, 840, 1, 101, 3, 4, 1, 2], 16), ([2, 16, 840, 1, 101, 3, 4, 1, 22], 24),
   ([2, 16, 840, 1, 101, 3, 4, 1, 42], 32)]

/-- Ciphers and schemes that are recognized and not used any more. -/
def outdatedCiphers : List (List Nat) := [[1, 3, 14, 3, 2, 7], [1, 2, 840, 113549, 3, 7]]

def outdatedSchemes : List (List Nat) :=
  [1, 3, 4, 6, 10, 11].map fun n => [1, 2, 840, 113549, 1, 5, n]

/-! ## Reading -/

/-- An identifier whose parameters are empty. -/
def prfParser : Parser (Option HashAlgorithm) := do
  let a ← AlgorithmIdentifier.parser
  if a.parameters.map (·.raw) = some null then ofOption (prfOids.lookup a.oid) else Der.fail

def keyLengthParser : Parser (Option Nat) := do
  if (← peek) = some tagInteger then some <$> natBelow (bitLimit 16) else return none

def pbkdf2Fields : Parser PasswordDerivation := do
  let salt ← tagged tagOctetString
  let iterations ← natBelow 100000001
  let keyLength ← keyLengthParser
  let prf ← if ← atEnd then pure none else prfParser
  return .pbkdf2 salt iterations keyLength prf

def scryptFields : Parser PasswordDerivation := do
  let salt ← tagged tagOctetString
  let cost ← natBelow (bitLimit 64)
  let size ← natBelow (bitLimit 16)
  let parallel ← natBelow (bitLimit 16)
  return .scrypt salt cost size parallel (← keyLengthParser)

def derivationOf? (a : AlgorithmIdentifier) : Option PasswordDerivation := do
  let e ← a.parameters
  if e.tag ≠ tagSequence then none
  else if a.oid = oidPbkdf2 then pbkdf2Fields.parseAll? .distinguished e.content
  else if a.oid = oidScrypt then scryptFields.parseAll? .distinguished e.content
  else none

namespace PasswordScheme

def fields : Parser PasswordScheme := do
  let derivation ← AlgorithmIdentifier.parser
  let cipher ← AlgorithmIdentifier.parser
  let d ← ofOption (derivationOf? derivation)
  let iv ← ofOption cipher.parameters
  match cipherOids.lookup cipher.oid with
  | some size =>
    if iv.tag = tagOctetString ∧ iv.content.length = 16 then return .aes d size iv.content
    else Der.fail
  | none => if outdatedCiphers.contains cipher.oid then return .outdated else Der.fail

def ofIdentifier? (a : AlgorithmIdentifier) : Option PasswordScheme :=
  if a.oid = oidPbes2 then do
    let e ← a.parameters
    if e.tag = tagSequence then fields.parseAll? .distinguished e.content else none
  else if outdatedSchemes.contains a.oid then some .outdated
  else none

end PasswordScheme

/-! ## Keys -/

/-- A key of `size` bytes. -/
def PasswordDerivation.key? (d : PasswordDerivation) (password : Bytes) (size : Nat) :
    Option Bytes :=
  match d with
  | .pbkdf2 salt iterations keyLength prf => do
    let h ← prf
    if keyLength.all (· == size) then some (Pbkdf2.derive h password salt iterations size) else none
  | .scrypt salt cost blockSize parallel keyLength =>
    if keyLength.all (· == size) ∧ 1 < cost ∧ cost = bitLimit cost.log2 ∧ 0 < blockSize ∧
        0 < parallel then
      some (Scrypt.derive password salt cost blockSize parallel size)
    else none

namespace PasswordScheme

def decrypt? (s : PasswordScheme) (password data : Bytes) : Option Bytes :=
  match s with
  | .outdated => none
  | .aes d size iv => do
    let key ← d.key? password size
    Cipher.decryptChained? (Aes.decryptBlock (Aes.roundKeys key)) iv data

def encrypt (s : PasswordScheme) (password data : Bytes) : Bytes :=
  match s with
  | .outdated => []
  | .aes d size iv =>
    let key := (d.key? password size).getD []
    Cipher.encryptChained (Aes.encryptBlock (Aes.roundKeys key)) iv data

/-! ## Writing -/

/-- Iterations of the key derivation. -/
def iterations : Nat := 2048

/-- The scheme for new data; `random` is 32 bytes. -/
def fresh (random : Bytes) : PasswordScheme :=
  .aes (.pbkdf2 (random.take 16) iterations none (some .sha256)) 32 ((random.drop 16).take 16)

/-- Identifier of a scheme with SHA-256. -/
def encode : PasswordScheme → Bytes
  | .aes (.pbkdf2 salt n _ _) _ iv =>
    let prf := seqOf [oid [1, 2, 840, 113549, 2, 9], null]
    let derivation := seqOf [oid oidPbkdf2, seqOf [octets salt, nat n, prf]]
    let cipher := seqOf [oid [2, 16, 840, 1, 101, 3, 4, 1, 42], octets iv]
    seqOf [oid oidPbes2, seqOf [derivation, cipher]]
  | _ => []

end PasswordScheme
end CertAuthority.X509
