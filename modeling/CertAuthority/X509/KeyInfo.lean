import CertAuthority.Asn1.Decode
import CertAuthority.Certificate.Basic
import CertAuthority.Text.Armor
import CertAuthority.Signature.Rsa
import CertAuthority.Signature.Weierstrass

/-!
# Public keys of X.509

A public key is stored with the identifier of its algorithm.

* `AlgorithmIdentifier.parser` : an object identifier with optional parameters;
* `KeyInfo.parser`, `KeyInfo.encode` : algorithm and key bits; writing uses the standard parameters,
  whatever the key was read with;
* `KeyInfo.identifier` : the hash of the key bits;
* `loadPublicKey` : armored or bare.
-/

namespace CertAuthority.X509

open Der

def oidEd25519 : List Nat := [1, 3, 101, 112]
def oidEcPublicKey : List Nat := [1, 2, 840, 10045, 2, 1]
def oidRsaEncryption : List Nat := [1, 2, 840, 113549, 1, 1, 1]
def oidP256 : List Nat := [1, 2, 840, 10045, 3, 1, 7]
def oidP384 : List Nat := [1, 3, 132, 0, 34]

/-- An algorithm with its parameters as they were encoded. -/
structure AlgorithmIdentifier where
  oid : List Nat
  parameters : Option Element
deriving DecidableEq, Repr, Inhabited

namespace AlgorithmIdentifier

def parser : Parser AlgorithmIdentifier := inSequence do
  return ⟨← oidValue, ← optionally anyElement⟩

/-- Parameters that are themselves an object identifier. -/
def parameterOid? (a : AlgorithmIdentifier) : Option (List Nat) := do
  let e ← a.parameters
  if e.tag = tagOid then arcsOfContent? e.content else none

end AlgorithmIdentifier

/-- Algorithm and bits of a public key. -/
structure KeyInfo where
  identifier : AlgorithmIdentifier
  bits : Bytes
  raw : Bytes
deriving DecidableEq, Repr, Inhabited

namespace KeyInfo

def fields : Parser (AlgorithmIdentifier × Bytes) := do
  return (← AlgorithmIdentifier.parser, ← bitsValue)

def parser : Parser KeyInfo := do
  let e ← anyElement
  if e.tag = tagSequence then
    let (identifier, bits) ← within fields e.content
    return ⟨identifier, bits, e.raw⟩
  else Der.fail

/-- The key family, among those supported. -/
def algorithm? (k : KeyInfo) : Option KeyAlgorithm :=
  if k.identifier.oid = oidEd25519 then some .ed25519
  else if k.identifier.oid = oidRsaEncryption then some .rsa
  else if k.identifier.oid = oidEcPublicKey then
    if k.identifier.parameterOid? = some oidP256 then some .ecdsaP256
    else if k.identifier.parameterOid? = some oidP384 then some .ecdsaP384
    else none
  else none

end KeyInfo

/-- Standard identifier of a key's algorithm. -/
def keyIdentifierOf : KeyAlgorithm → Bytes
  | .ed25519 => seqOf [oid oidEd25519]
  | .ecdsaP256 => seqOf [oid oidEcPublicKey, oid oidP256]
  | .ecdsaP384 => seqOf [oid oidEcPublicKey, oid oidP384]
  | .rsa => seqOf [oid oidRsaEncryption, null]

/-- A public key as a certificate embeds it. -/
structure SubjectKey where
  algorithm : KeyAlgorithm
  bits : Bytes
deriving DecidableEq, Repr, Inhabited

namespace SubjectKey

def encode (k : SubjectKey) : Bytes := seqOf [keyIdentifierOf k.algorithm, Der.bits k.bits]

/-- Hash of the bits alone. -/
def bitsHash (k : SubjectKey) : Bytes := Sha1.digest k.bits

/-- Truncated hash of the whole encoded key. -/
def identifier (k : SubjectKey) : Bytes := (Sha256.digest k.encode).take 20

/-- The key of a handle. -/
def ofEncoded (der : Bytes) : BackendResult SubjectKey :=
  match (KeyInfo.parser.parse? .tolerant der).bind fun k =>
      k.algorithm?.map fun a => (a, k.bits) with
  | some (a, bits) => .ok ⟨a, bits⟩
  | none => Outcome.fail (.unrecognized "public key")

end SubjectKey

def labelPublicKey : String := "PUBLIC KEY"

/-- The block of a text must have this label; anything else is taken as the content itself. -/
def unarmored (label : String → Bool) (what : String) (b : Bytes) : BackendResult Bytes :=
  match Armor.first? b with
  | some block => if label block.label then .ok block.content else Outcome.fail (.unrecognized what)
  | none => .ok b

def loadPublicKey (b : Bytes) : BackendResult PublicKey := do
  let der ← unarmored (· == labelPublicKey) "public key" b
  let key ← SubjectKey.ofEncoded der
  return ⟨.x509, key.algorithm, der⟩

def encodePublicKey (k : PublicKey) : Bytes := Armor.encode labelPublicKey k.encoded

/-! ## Keys for verification -/

def rsaPublicKey? (bits : Bytes) : Option Rsa.PublicKey :=
  Parser.parseAll? (inWholeSequence do return ⟨← natValue, ← natValue⟩) .distinguished bits

def encodeRsaPublicKey (k : Rsa.PublicKey) : Bytes := seqOf [nat k.modulus, nat k.exponent]

end CertAuthority.X509
