import CertAuthority.Signature.Ecdsa
import CertAuthority.Signature.Ed25519
import CertAuthority.X509.KeyInfo

/-!
# Private keys of X.509

A private key is stored as PKCS#8: the algorithm, and the key in a form of its own.

* `SigningKey.parse?` : reads the container. The public half is checked where it is stored, and an
  elliptic key has to store it; RSA keys have 2048 to 4096 bits and consistent parts;
* `SignatureAlgorithm` : what a key signs with, and the digest it names;
* `SigningKey.sign?`, `verifies` : signatures in the form X.509 stores.
-/

namespace CertAuthority.X509

open Der

inductive SigningKey where
  | ed25519 (seed : Bytes)
  | ecdsaP256 (factor : Nat)
  | ecdsaP384 (factor : Nat)
  | rsa (key : Rsa.PrivateKey)
deriving DecidableEq

namespace SigningKey

def algorithm : SigningKey → KeyAlgorithm
  | .ed25519 _ => .ed25519
  | .ecdsaP256 _ => .ecdsaP256
  | .ecdsaP384 _ => .ecdsaP384
  | .rsa _ => .rsa

/-- Bits of the public key. -/
def publicBits : SigningKey → Bytes
  | .ed25519 seed => Ed25519.publicKey seed
  | .ecdsaP256 d => (Curve.p256.publicKey? d).getD []
  | .ecdsaP384 d => (Curve.p384.publicKey? d).getD []
  | .rsa k => encodeRsaPublicKey k.publicKey

def subjectKey (k : SigningKey) : SubjectKey := ⟨k.algorithm, k.publicBits⟩

end SigningKey

/-! ## Reading the container -/

/-- What a container holds: version, algorithm, key and, in version 1, the public key. -/
structure KeyContainer where
  version : Nat
  identifier : Bytes
  key : Bytes
  publicBits : Option Bytes

/-- Public key at tag 1, implicit as the standard has it, or around a bit string. -/
def containerPublicKey (lax : Bool) : Parser Bytes := do
  if lax ∧ (← peek) = some (tagExplicit 1) then filling wholeBits (← tagged (tagExplicit 1))
  else
    match ← ofOption (bitsOfContent? (← tagged (tagImplicit 1))) with
    | (0, b) => return b
    | _ => Der.fail

def KeyContainer.fields (lax : Bool) : Parser KeyContainer := do
  let version ← natBelow 128
  let identifier ← tagged tagSequence
  let key ← tagged tagOctetString
  let _ ← taggedIf (tagExplicit 0)
  if version = 0 then return ⟨0, identifier, key, none⟩
  else if version = 1 then return ⟨1, identifier, key, some (← containerPublicKey lax)⟩
  else Der.fail

def KeyContainer.parse? (lax : Bool) (der : Bytes) : Option KeyContainer :=
  Parser.parseAll? (do filling (fields lax) (← tagged tagSequence)) .distinguished der

/-- Content of the standard identifier of an algorithm. -/
def identifierContent (a : KeyAlgorithm) : Bytes :=
  (Parser.parse? (tagged tagSequence) .distinguished (keyIdentifierOf a)).getD []

def edwardsKey? (c : KeyContainer) : Option SigningKey := do
  let seed ← Parser.parseAll? (tagged tagOctetString) .distinguished c.key
  if c.identifier = identifierContent .ed25519 ∧ seed.length = 32 ∧
      c.publicBits.all (· == Ed25519.publicKey seed) then
    some (.ed25519 seed)
  else none

/-- Factor, curve and public key of an elliptic key. -/
def ellipticFields (named : List Nat) : Parser (Bytes × Bytes) := do
  let version ← natBelow 128
  let factor ← tagged tagOctetString
  let parameters ← taggedIf (tagExplicit 0)
  let pub ← filling wholeBits (← tagged (tagExplicit 1))
  if version = 1 ∧ parameters.all (· == oid named) then return (factor, pub) else Der.fail

def ellipticFactor? (a : KeyAlgorithm) (curve : Curve) (named : List Nat) (c : KeyContainer) :
    Option Nat := do
  let (factor, pub) ← Parser.parseAll? (inWholeSequence (ellipticFields named)) .distinguished c.key
  let d := Bytes.toNat factor
  if c.version = 0 ∧ c.identifier = identifierContent a ∧ factor.length = curve.size ∧
      curve.publicKey? d = some pub then
    some d
  else none

def rsaFields : Parser Rsa.PrivateKey := do
  let version ← natBelow 128
  let key : Rsa.PrivateKey :=
    { modulus := ← natValue, publicExponent := ← natValue, privateExponent := ← natValue
      prime1 := ← natValue, prime2 := ← natValue, exponent1 := ← natValue, exponent2 := ← natValue
      coefficient := ← natValue }
  if version = 0 then return key else Der.fail

/-- The parts fit together, and the sizes are usual. -/
def isSoundRsa (k : Rsa.PrivateKey) : Bool :=
  let bits := bitLength k.modulus
  2048 ≤ bits && bits ≤ 4096 &&
    k.publicExponent % 2 == 1 && 65537 ≤ k.publicExponent && k.publicExponent < bitLimit 33 &&
    k.modulus == k.prime1 * k.prime2 && bitLength k.prime1 * 2 == bits &&
    bitLength k.prime2 * 2 == bits && bitLength k.prime1 % 512 == 0 &&
    k.privateExponent < k.modulus && bits < 2 * bitLength k.privateExponent &&
    k.privateExponent % 2 == 1 &&
    k.exponent1 < k.prime1 && k.exponent2 < k.prime2 &&
    k.publicExponent * k.exponent1 % (k.prime1 - 1) == 1 &&
    k.publicExponent * k.exponent2 % (k.prime2 - 1) == 1 &&
    k.coefficient < k.prime1 && k.coefficient * k.prime2 % k.prime1 == 1

def rsaKey? (c : KeyContainer) : Option SigningKey := do
  let k ← Parser.parseAll? (inWholeSequence rsaFields) .distinguished c.key
  if c.version = 0 ∧ c.identifier = identifierContent .rsa ∧ isSoundRsa k then some (.rsa k)
  else none

def SigningKey.parse? (der : Bytes) : Option SigningKey := do
  let c ← KeyContainer.parse? true der
  edwardsKey? c <|>
    (ellipticFactor? .ecdsaP256 .p256 oidP256 c).map .ecdsaP256 <|>
    (ellipticFactor? .ecdsaP384 .p384 oidP384 c).map .ecdsaP384 <|>
    rsaKey? c

/-! ## Writing the container -/

/-- Container of an Ed25519 key, with its public half. -/
def encodeEdwards (seed : Bytes) : Bytes :=
  seqOf [nat 1, keyIdentifierOf .ed25519, octets (octets seed),
    element (tagImplicit 1) (0 :: Ed25519.publicKey seed)]

def encodeElliptic (a : KeyAlgorithm) (curve : Curve) (d : Nat) : Bytes :=
  seqOf [nat 0, keyIdentifierOf a,
    octets (seqOf [nat 1, octets (Bytes.ofNatWidth curve.size d),
      explicit 1 (bits ((curve.publicKey? d).getD []))])]

/-! ## Signatures -/

inductive SignatureAlgorithm where
  | ed25519 | ecdsaSha256 | ecdsaSha384 | rsaSha256 | rsaSha384 | rsaSha512
deriving DecidableEq, Repr, Inhabited

namespace SignatureAlgorithm

def oid : SignatureAlgorithm → List Nat
  | .ed25519 => oidEd25519
  | .ecdsaSha256 => [1, 2, 840, 10045, 4, 3, 2]
  | .ecdsaSha384 => [1, 2, 840, 10045, 4, 3, 3]
  | .rsaSha256 => [1, 2, 840, 113549, 1, 1, 11]
  | .rsaSha384 => [1, 2, 840, 113549, 1, 1, 12]
  | .rsaSha512 => [1, 2, 840, 113549, 1, 1, 13]

def isRsa : SignatureAlgorithm → Bool
  | .rsaSha256 | .rsaSha384 | .rsaSha512 => true
  | _ => false

/-- RSA carries empty parameters, the others none. -/
def encode (a : SignatureAlgorithm) : Bytes :=
  seqOf ([Der.oid a.oid] ++ if a.isRsa then [null] else [])

/-- Digest the algorithm names; Ed25519 fixes its own. -/
def digest? : SignatureAlgorithm → Option Digest
  | .ed25519 => none
  | .ecdsaSha256 | .rsaSha256 => some .sha256
  | .ecdsaSha384 | .rsaSha384 => some .sha384
  | .rsaSha512 => some .sha512

/-- The family of keys that can use it. -/
def keyAlgorithm : SignatureAlgorithm → KeyAlgorithm
  | .ed25519 => .ed25519
  | .ecdsaSha256 => .ecdsaP256
  | .ecdsaSha384 => .ecdsaP384
  | .rsaSha256 | .rsaSha384 | .rsaSha512 => .rsa

/-- Elliptic keys sign with the digest that fits their curve, RSA keys with SHA-256 unless asked
otherwise; Ed25519 keys disregard the request. -/
def choose (key : KeyAlgorithm) (requested : Option Digest) : BackendResult SignatureAlgorithm :=
  match key, requested with
  | .ed25519, _ => .ok .ed25519
  | .ecdsaP256, none | .ecdsaP256, some .sha256 => .ok .ecdsaSha256
  | .ecdsaP384, none | .ecdsaP384, some .sha384 => .ok .ecdsaSha384
  | .rsa, none | .rsa, some .sha256 => .ok .rsaSha256
  | .rsa, some .sha384 => .ok .rsaSha384
  | .rsa, some .sha512 => .ok .rsaSha512
  | _, some d => Outcome.fail (.unsupportedDigest d.name)

end SignatureAlgorithm

def encodePair (r s : Nat) : Bytes := seqOf [nat r, nat s]

/-- Signs; none if the algorithm is not the key's. -/
def SigningKey.sign? (k : SigningKey) (a : SignatureAlgorithm) (message : Bytes) : Option Bytes :=
  match k, a with
  | .ed25519 seed, .ed25519 => some (Ed25519.sign seed message)
  | .ecdsaP256 d, .ecdsaSha256 =>
    (Ecdsa.sign? .p256 .sha256 d message).map fun (r, s) => encodePair r s
  | .ecdsaP384 d, .ecdsaSha384 =>
    (Ecdsa.sign? .p384 .sha384 d message).map fun (r, s) => encodePair r s
  | .rsa key, .rsaSha256 => Rsa.sign? .sha256 key message
  | .rsa key, .rsaSha384 => Rsa.sign? .sha384 key message
  | .rsa key, .rsaSha512 => Rsa.sign? .sha512 key message
  | _, _ => none

def pairParser : Parser (Nat × Nat) := inWholeSequence do return (← natValue, ← natValue)

def verifyElliptic (curve : Curve) (h : HashAlgorithm) (key message signature : Bytes) : Bool :=
  match pairParser.parseAll? .distinguished signature with
  | some (r, s) => Ecdsa.verify curve h key message r s
  | none => false

/-- RSA keys that verify have at least `minBits` bits and an odd exponent of at most 33 bits. -/
def verifyRsa (minBits : Nat) (check : Rsa.PublicKey → Bytes → Bytes → Bool)
    (key message signature : Bytes) : Bool :=
  match rsaPublicKey? key with
  | some k =>
    let bits := bitLength k.modulus
    minBits ≤ bits && bits ≤ 8192 && k.modulus % 2 == 1 && 3 ≤ k.exponent &&
      k.exponent % 2 == 1 && k.exponent < bitLimit 33 && check k message signature
  | none => false

/-- The hash named by the parameters of the probabilistic RSA scheme. -/
def pssHash? (a : AlgorithmIdentifier) : Option HashAlgorithm := do
  let e ← a.parameters
  let hash ← Parser.parse? (do within AlgorithmIdentifier.parser (← tagged (tagExplicit 0)))
    .tolerant e.content
  if hash.oid = [2, 16, 840, 1, 101, 3, 4, 2, 1] then some .sha256
  else if hash.oid = [2, 16, 840, 1, 101, 3, 4, 2, 2] then some .sha384
  else if hash.oid = [2, 16, 840, 1, 101, 3, 4, 2, 3] then some .sha512
  else none

/-- The signature over `message` verifies with the key, by the algorithm it names. The curve is the
key's, the digest the signature's. -/
def verifies (a : AlgorithmIdentifier) (key : KeyInfo) (message signature : Bytes) : Bool :=
  let elliptic (h : HashAlgorithm) : Bool :=
    if key.identifier.parameterOid? = some oidP256 then
      verifyElliptic .p256 h key.bits message signature
    else if key.identifier.parameterOid? = some oidP384 then
      verifyElliptic .p384 h key.bits message signature
    else false
  if a.oid = oidEd25519 then Ed25519.verify key.bits message signature
  else if a.oid = SignatureAlgorithm.ecdsaSha256.oid then elliptic .sha256
  else if a.oid = SignatureAlgorithm.ecdsaSha384.oid then elliptic .sha384
  else if a.oid = SignatureAlgorithm.rsaSha256.oid then
    verifyRsa 2048 (Rsa.verify .sha256) key.bits message signature
  else if a.oid = SignatureAlgorithm.rsaSha384.oid then
    verifyRsa 2048 (Rsa.verify .sha384) key.bits message signature
  else if a.oid = SignatureAlgorithm.rsaSha512.oid then
    verifyRsa 2048 (Rsa.verify .sha512) key.bits message signature
  else if a.oid = [1, 2, 840, 113549, 1, 1, 5] ∨ a.oid = [1, 3, 14, 3, 2, 29] then
    verifyRsa 1024 (Rsa.verify .sha1) key.bits message signature
  else if a.oid = [1, 2, 840, 113549, 1, 1, 10] then
    match pssHash? a with
    | some h => verifyRsa 2048 (Rsa.verifyPss h) key.bits message signature
    | none => false
  else false

end CertAuthority.X509
