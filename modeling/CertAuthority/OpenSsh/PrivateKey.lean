import CertAuthority.Certificate.Backend
import CertAuthority.Cipher.Aes
import CertAuthority.Cipher.Mode
import CertAuthority.KeyDerivation
import CertAuthority.OpenSsh.Key
import CertAuthority.Signature.Ed25519
import CertAuthority.Signature.Weierstrass
import CertAuthority.Text.Armor

/-!
# Private key files of OpenSSH

An armored container with one key, its public half in the clear and its private half possibly
encrypted under a password.

* `SshPrivateKey.parser`, `SshPrivateKey.encode` : the key itself. The two halves have to agree
  where the private one repeats the public one;
* `PrivateKeyFile` : the container. `PrivateKeyFile.print` writes it in the clear and
  `PrivateKeyFile.encrypt` under a password; `PrivateKeyFile.decrypt?` opens it;
* `loadPrivateKey`, `encodePrivateKey`, `derivePublicKey`, `generateKey`.
-/

namespace CertAuthority.OpenSsh

open Wire

/-! ## Keys -/

structure SshPrivateKey where
  family : KeyFamily
  fields : List Bytes
deriving DecidableEq, Inhabited

namespace SshPrivateKey

/-- Number of byte strings in a private key; keys on security devices are not read. -/
def arity? : KeyFamily → Option Nat
  | .ed25519 => some 2
  | .ecdsa _ => some 3
  | .rsa => some 6
  | .dsa => some 5
  | _ => none

/-- A secret factor in its usual form: as wide as the curve, after a zero byte if its top bit is
set. -/
def canonicalFactor? (size : Nat) (b : Bytes) : Option Bytes :=
  let digits := if b.length = size + 1 ∧ b.head? = some 0 then b.drop 1 else b
  if digits.length ≠ size then none
  else if digits.head?.any (128 ≤ ·) then some (0 :: digits) else some digits

/-- The fields in their usual form, if they are well formed. -/
def canonical? : KeyFamily → List Bytes → Option (List Bytes)
  | .ed25519, [key, pair] =>
    if pair.length = 64 ∧ pair.drop 32 = key ∧ Ed25519.publicKey (pair.take 32) = key then
      some [key, pair]
    else none
  | .ecdsa c, [curve, point, factor] =>
    if KeyFamily.accepts (.ecdsa c) [curve, point] then
      (canonicalFactor? c.size factor).map fun factor => [curve, point, factor]
    else none
  | .rsa, fields | .dsa, fields => if fields.all isNumber then some fields else none
  | _, _ => none

def parser : Parser SshPrivateKey := do
  let f ← ofOption (KeyFamily.ofName? (← takeText))
  let fields ← takeStrings (← ofOption (arity? f))
  return ⟨f, ← ofOption (canonical? f fields)⟩

def encode (k : SshPrivateKey) : Bytes := text k.family.name ++ k.fields.flatMap string

/-- The public half. -/
def publicKey (k : SshPrivateKey) : SshKey :=
  match k.family, k.fields with
  | .rsa, n :: e :: _ => ⟨.rsa, [e, n]⟩
  | f, fields => ⟨f, fields.take f.arity⟩

end SshPrivateKey

/-! ## Encryption -/

inductive FileCipherMode where
  | chained | counter
  /-- Recognized, but not opened; the content is followed by a tag of so many bytes -/
  | other (tagSize : Nat)
deriving DecidableEq, Repr

structure FileCipher where
  name : String
  mode : FileCipherMode
  blockSize : Nat
  keySize : Nat
deriving DecidableEq, Repr

namespace FileCipher

def aesCounter : FileCipher := ⟨"aes256-ctr", .counter, 16, 32⟩

def all : List FileCipher :=
  [⟨"aes128-cbc", .chained, 16, 16⟩, ⟨"aes192-cbc", .chained, 16, 24⟩,
   ⟨"aes256-cbc", .chained, 16, 32⟩, ⟨"aes128-ctr", .counter, 16, 16⟩,
   ⟨"aes192-ctr", .counter, 16, 24⟩, aesCounter,
   ⟨"aes128-gcm@openssh.com", .other 16, 16, 16⟩, ⟨"aes256-gcm@openssh.com", .other 16, 16, 32⟩,
   ⟨"chacha20-poly1305@openssh.com", .other 16, 8, 64⟩, ⟨"3des-cbc", .other 0, 8, 24⟩]

def tagSize (c : FileCipher) : Nat :=
  match c.mode with
  | .other n => n
  | _ => 0

def decrypt? (c : FileCipher) (key iv data : Bytes) : Option Bytes :=
  let keys := Aes.roundKeys key
  match c.mode with
  | .chained => some (Cipher.chainDecrypt (Aes.decryptBlock keys) iv (Bytes.chunks 16 data))
  | .counter => some (Cipher.counterMode (Aes.encryptBlock keys) iv data)
  | .other _ => none

end FileCipher

/-- How the key of the cipher follows from a password. -/
structure FileKeyDerivation where
  salt : Bytes
  rounds : Nat
deriving DecidableEq, Repr

/-- Key and initial block; an empty password, an empty salt or no rounds at all are refused. -/
def FileKeyDerivation.derive? (d : FileKeyDerivation) (c : FileCipher) (password : String) :
    Option (Bytes × Bytes) :=
  if password = "" ∨ d.salt = [] ∨ d.rounds = 0 then none
  else
    let b := BcryptPbkdf.derive (Bytes.ofText password) d.salt d.rounds (c.keySize + c.blockSize)
    some (b.take c.keySize, b.drop c.keySize)

/-! ## The private half of a container -/

structure PrivateSection where
  /-- Random word that is written twice -/
  check : Nat
  key : SshPrivateKey
  comment : String
deriving DecidableEq, Inhabited

namespace PrivateSection

/-- The bytes 1, 2, 3, … -/
def padding (n : Nat) : Bytes := (List.range n).map fun i => UInt8.ofNat (i + 1)

def encode (s : PrivateSection) (blockSize : Nat) : Bytes :=
  let b := word32 s.check ++ word32 s.check ++ s.key.encode ++ text s.comment
  b ++ padding ((blockSize - b.length % blockSize) % blockSize)

def parser (blockSize : Nat) : Parser PrivateSection := do
  let aligned := (← rest).length % blockSize = 0
  let check ← takeWord32
  let again ← takeWord32
  let key ← SshPrivateKey.parser
  let comment ← takeText
  let pad ← rest
  let _ ← take pad.length
  if aligned ∧ check = again ∧ pad.length < blockSize ∧ pad = padding pad.length then
    return { check, key, comment }
  else fail

/-- The section, whose key has to belong to the public key. -/
def parse? (publicKey : SshKey) (blockSize : Nat) (b : Bytes) : Option PrivateSection := do
  let s ← parseAll? (parser blockSize) b
  if s.key.publicKey = publicKey then some s else none

end PrivateSection

/-! ## Containers -/

inductive PrivateKeyFile where
  | clear (s : PrivateSection)
  | encrypted (publicKey : SshKey) (c : FileCipher) (d : Option FileKeyDerivation) (data : Bytes)

namespace PrivateKeyFile

def magic : Bytes := Bytes.ofText "openssh-key-v1" ++ [0]

def label : String := "OPENSSH PRIVATE KEY"

def lineWidth : Nat := 70

/-- Blocks that an unencrypted section is padded to. -/
def clearBlock : Nat := 8

def derivationParser : Parser (Option FileKeyDerivation) := do
  match ← takeText with
  | "none" => inside (return none)
  | "bcrypt" => inside do return some ⟨← takeString, ← takeWord32⟩
  | _ => fail

def bodyParser (cipher : Option FileCipher) (d : Option FileKeyDerivation) (publicKey : SshKey) :
    Parser PrivateKeyFile := do
  let data ← takeString
  match cipher with
  | none =>
    if d.isSome then fail
    else return .clear (← ofOption (PrivateSection.parse? publicKey clearBlock data))
  | some c =>
    let _ ← take c.tagSize
    if data.length % c.blockSize = 0 then return .encrypted publicKey c d data else fail

def parser : Parser PrivateKeyFile := do
  let start ← take magic.length
  let name ← takeText
  let d ← derivationParser
  let count ← takeWord32
  let publicKey ← inside SshKey.parser
  if start = magic ∧ count = 1 then
    if name = "none" then bodyParser none d publicKey
    else bodyParser (some (← ofOption (FileCipher.all.find? (·.name == name)))) d publicKey
  else fail

def parse? (b : Bytes) : Option PrivateKeyFile := do
  parseAll? parser (← StrictArmor.decode? label lineWidth b)

def print (cipher derivation : String) (options : Bytes) (publicKey : SshKey) (data : Bytes) :
    Bytes :=
  StrictArmor.encode label lineWidth
    (magic ++ text cipher ++ text derivation ++ string options ++ word32 1 ++
      string publicKey.encode ++ string data)

/-- The container without encryption. -/
def printClear (s : PrivateSection) : Bytes :=
  print "none" "none" [] s.key.publicKey (s.encode clearBlock)

/-- The private half, if the password opens it. -/
def decrypt? (publicKey : SshKey) (c : FileCipher) (d : Option FileKeyDerivation) (data : Bytes)
    (password : String) : Option PrivateSection := do
  let (key, iv) ← (← d).derive? c password
  PrivateSection.parse? publicKey c.blockSize (← c.decrypt? key iv data)

/-- Rounds of the key derivation for new files. -/
def rounds : Nat := 16

/-- The container encrypted under a password; `random` is 20 bytes. -/
def encrypt? (s : PrivateSection) (random : Bytes) (password : String) : Option Bytes := do
  let d : FileKeyDerivation := ⟨random.take 16, rounds⟩
  let (key, iv) ← d.derive? .aesCounter password
  let s := { s with check := Bytes.toNat (random.drop 16) }
  let data := Cipher.counterMode (Aes.encryptBlock (Aes.roundKeys key)) iv
    (s.encode FileCipher.aesCounter.blockSize)
  return print FileCipher.aesCounter.name "bcrypt" (string d.salt ++ word32 d.rounds)
    s.key.publicKey data

end PrivateKeyFile

/-! ## Handles -/

def unrecognizedKey {α : Type} : BackendResult α := Outcome.fail (.unrecognized "private key")

/-- The key of a handle. -/
def sectionOf (k : PrivateKey) : BackendResult PrivateSection :=
  match PrivateKeyFile.parse? k.encoded with
  | some (.clear s) => .ok s
  | _ => unrecognizedKey

def handleOf (s : PrivateSection) : BackendResult PrivateKey := do
  return ⟨.ssh, ← s.key.publicKey.algorithm, PrivateKeyFile.printClear s⟩

def loadPrivateKey (b : Bytes) (passphrase : Option String) : BackendResult PrivateKey :=
  match PrivateKeyFile.parse? b, passphrase with
  | none, _ => unrecognizedKey
  | some (.clear s), _ => handleOf s
  | some (.encrypted ..), none => Outcome.fail .encrypted
  | some (.encrypted publicKey c d data), some p =>
    match PrivateKeyFile.decrypt? publicKey c d data p with
    | some s => handleOf s
    | none => Outcome.fail .wrongPassphrase

def encodePrivateKey (m : Moment) (k : PrivateKey) (passphrase : Option String) :
    BackendResult Bytes :=
  match passphrase with
  | none => .ok k.encoded
  | some p => do
    let s ← sectionOf k
    Outcome.ofOption (.crypto "key derivation failed") (PrivateKeyFile.encrypt? s (m.random 20) p)

def derivePublicKey (k : PrivateKey) : BackendResult PublicKey := do
  (← sectionOf k).key.publicKey.handle

/-- A new elliptic key. -/
def generatedFields (m : Moment) (c : NistCurve) (curve : Curve) : List Bytes :=
  let d := curve.factorOf (m.random (curve.size + 8))
  let factor := Bytes.ofNatWidth curve.size d
  [Bytes.ofText c.name, (curve.publicKey? d).getD [],
    (SshPrivateKey.canonicalFactor? c.size factor).getD []]

def generateKey (m : Moment) (a : KeyAlgorithm) : BackendResult PrivateKey :=
  let finish (family : KeyFamily) (fields : List Bytes) : BackendResult PrivateKey :=
    handleOf { check := Bytes.toNat (m.random 4), key := ⟨family, fields⟩, comment := "" }
  match a with
  | .ed25519 =>
    let seed := m.random 32
    let key := Ed25519.publicKey seed
    finish .ed25519 [key, seed ++ key]
  | .ecdsaP256 => finish (.ecdsa .p256) (generatedFields m .p256 .p256)
  | .ecdsaP384 => finish (.ecdsa .p384) (generatedFields m .p384 .p384)
  | .rsa => Outcome.fail (.crypto "RSA key generation is not supported")

end CertAuthority.OpenSsh
