import CertAuthority.Certificate.Backend
import CertAuthority.X509.PasswordEncryption
import CertAuthority.X509.SigningKey

/-!
# Private key files of X.509

Armored or bare, in the clear or encrypted under a password. A handle holds the clear container.

* `loadPrivateKey`, `encodePrivateKey`, `derivePublicKey`;
* `generateKey` : a new elliptic key from a source of random bytes;
* `signingKey` : the key behind a handle.
-/

namespace CertAuthority.X509

open Der

def labelPrivateKey : String := "PRIVATE KEY"
def labelEncryptedKey : String := "ENCRYPTED PRIVATE KEY"

def unrecognizedKey {α : Type} : BackendResult α := Outcome.fail (.unrecognized "private key")

/-- Scheme and encrypted bytes of an encrypted container. -/
def encryptedContainer? (der : Bytes) : Option (PasswordScheme × Bytes) := do
  let (a, data) ← Parser.parseAll?
    (inWholeSequence do return (← AlgorithmIdentifier.parser, ← tagged tagOctetString))
    .distinguished der
  return (← PasswordScheme.ofIdentifier? a, data)

/-- One sequence and nothing else. -/
def isSequence (b : Bytes) : Bool := ((tagged tagSequence).parseAll? .distinguished b).isSome

def decryptContainer (der : Bytes) (passphrase : Option String) : BackendResult Bytes :=
  match passphrase with
  | none => Outcome.fail .encrypted
  | some p => match encryptedContainer? der with
    | none => unrecognizedKey
    | some (scheme, data) => match scheme.decrypt? (Bytes.ofText p) data with
      | some clear => if isSequence clear then .ok clear else Outcome.fail .wrongPassphrase
      | none => Outcome.fail .wrongPassphrase

/-- The clear container in a file. -/
def clearContainer (b : Bytes) (passphrase : Option String) : BackendResult Bytes :=
  match Armor.first? b with
  | some block =>
    if block.label = labelEncryptedKey then decryptContainer block.content passphrase
    else if block.label = labelPrivateKey then .ok block.content
    else unrecognizedKey
  | none => if (encryptedContainer? b).isSome then decryptContainer b passphrase else .ok b

def loadPrivateKey (b : Bytes) (passphrase : Option String) : BackendResult PrivateKey := do
  let der ← clearContainer b passphrase
  match SigningKey.parse? der with
  | some k => return ⟨.x509, k.algorithm, der⟩
  | none => unrecognizedKey

def signingKey (k : PrivateKey) : BackendResult SigningKey :=
  match SigningKey.parse? k.encoded with
  | some s => .ok s
  | none => unrecognizedKey

def derivePublicKey (k : PrivateKey) : BackendResult PublicKey := do
  let s ← signingKey k
  return ⟨.x509, k.algorithm, s.subjectKey.encode⟩

/-- A container in the standard form, with anything the standard allows in it. -/
def isContainer (der : Bytes) : Bool :=
  (Parser.parseAll? (inWholeSequence do
    let version ← natBelow 2
    let _ ← AlgorithmIdentifier.parser
    let _ ← tagged tagOctetString
    let _ ← taggedIf (tagExplicit 0)
    let key ← taggedIf (tagImplicit 1)
    if version = 0 ∧ key.isSome ∨ version = 1 ∧ key.isNone then Der.fail else return ())
    .distinguished der).isSome

def encodePrivateKey (m : Moment) (k : PrivateKey) (passphrase : Option String) :
    BackendResult Bytes :=
  match passphrase with
  | none => .ok (Armor.encode labelPrivateKey k.encoded)
  | some p =>
    if isContainer k.encoded then
      let scheme := PasswordScheme.fresh (m.random 32)
      .ok (Armor.encode labelEncryptedKey
        (seqOf [scheme.encode, octets (scheme.encrypt (Bytes.ofText p) k.encoded)]))
    else unrecognizedKey

def randomFactor (m : Moment) (c : Curve) : Nat := c.factorOf (m.random (c.size + 8))

def generateKey (m : Moment) (a : KeyAlgorithm) : BackendResult PrivateKey :=
  match a with
  | .ed25519 => .ok ⟨.x509, a, encodeEdwards (m.random 32)⟩
  | .ecdsaP256 => .ok ⟨.x509, a, encodeElliptic a .p256 (randomFactor m .p256)⟩
  | .ecdsaP384 => .ok ⟨.x509, a, encodeElliptic a .p384 (randomFactor m .p384)⟩
  | .rsa => Outcome.fail
    (.invalidSpec "algorithm" "RSA key generation is not supported, supply an existing key")

end CertAuthority.X509
