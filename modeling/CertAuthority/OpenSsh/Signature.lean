import CertAuthority.OpenSsh.PrivateKey
import CertAuthority.Signature.Ecdsa
import CertAuthority.Signature.Rsa

/-!
# Signatures of OpenSSH

A signature is the name of its algorithm and a byte string.

* `SshSignature.parser` : reads a signature whose size fits its algorithm. Signatures of RSA keys
  over SHA-1 are refused;
* `SshPrivateKey.sign?` : RSA keys sign with SHA-512;
* `SshKey.verifies` : the signature over a message verifies with the key.
-/

namespace CertAuthority.OpenSsh

open Wire

inductive SshSignatureAlgorithm where
  | ed25519
  | ecdsa (c : NistCurve)
  | rsaSha256
  | rsaSha512
  | dsa
deriving DecidableEq, Repr, Inhabited

namespace SshSignatureAlgorithm

def all : List SshSignatureAlgorithm :=
  [.ed25519, .ecdsa .p256, .ecdsa .p384, .ecdsa .p521, .rsaSha256, .rsaSha512, .dsa]

def name : SshSignatureAlgorithm → String
  | .ed25519 => "ssh-ed25519"
  | .ecdsa c => (KeyFamily.ecdsa c).name
  | .rsaSha256 => "rsa-sha2-256"
  | .rsaSha512 => "rsa-sha2-512"
  | .dsa => "ssh-dss"

/-- Digest the algorithm names, where it is one of those that are supported. -/
def digest? : SshSignatureAlgorithm → Option Digest
  | .ecdsa .p256 | .rsaSha256 => some .sha256
  | .ecdsa .p384 => some .sha384
  | .rsaSha512 => some .sha512
  | _ => none

end SshSignatureAlgorithm

structure SshSignature where
  algorithm : SshSignatureAlgorithm
  data : Bytes
deriving DecidableEq, Repr, Inhabited

namespace SshSignature

/-- The pair of numbers that an elliptic signature is. -/
def pairParser : Parser (Nat × Nat) := do
  let r ← takeString
  let s ← takeString
  if isNumber r ∧ isNumber s then return (← ofOption (nat? r), ← ofOption (nat? s)) else fail

def pair? (b : Bytes) : Option (Nat × Nat) := parseAll? pairParser b

/-- The data has the shape that the algorithm gives it. -/
def isWellFormed (s : SshSignature) : Bool :=
  match s.algorithm with
  | .ed25519 => s.data.length == 64
  | .ecdsa c =>
    (pair? s.data).any fun (r, s) => r < bitLimit (8 * c.size) && s < bitLimit (8 * c.size)
  | .dsa => s.data.length == 40
  | .rsaSha256 | .rsaSha512 => true

def parser : Parser SshSignature := do
  let name ← takeText
  let algorithm ← ofOption (SshSignatureAlgorithm.all.find? (·.name == name))
  let s : SshSignature := ⟨algorithm, ← takeString⟩
  if s.isWellFormed then return s else fail

def encode (s : SshSignature) : Bytes := text s.algorithm.name ++ string s.data

def ofPair (c : NistCurve) (r s : Nat) : SshSignature :=
  ⟨.ecdsa c, string (number r) ++ string (number s)⟩

end SshSignature

/-! ## RSA keys -/

/-- A public key of usual size and exponent. -/
def soundRsa? (n e : Nat) : Option Rsa.PublicKey :=
  let bits := bitLength n
  if 2040 < bits ∧ bits ≤ 4096 ∧ n % 2 = 1 ∧ e < n ∧ e % 2 = 1 ∧ 2 ≤ e ∧ e < bitLimit 33 then
    some ⟨n, e⟩
  else none

/-- The parts of a private key, if they fit together. -/
def rsaKey? (fields : List Bytes) : Option Rsa.PrivateKey := do
  match ← fields.mapM nat? with
  | [n, e, d, coefficient, p, q] =>
    let _ ← soundRsa? n e
    if 1 < p ∧ 1 < q ∧ p * q = n ∧ d * e % (p - 1) = 1 ∧ d * e % (q - 1) = 1 then
      some {
        modulus := n, publicExponent := e, privateExponent := d, prime1 := p, prime2 := q
        exponent1 := d % (p - 1), exponent2 := d % (q - 1), coefficient }
    else none
  | _ => none

/-! ## Signing and verifying -/

def signElliptic? (c : NistCurve) (curve : Curve) (h : HashAlgorithm) (factor message : Bytes) :
    Option SshSignature := do
  let d := Bytes.toNat factor
  if d = 0 ∨ curve.n ≤ d then none
  else
    let (r, s) ← Ecdsa.sign? curve h d message
    return .ofPair c r s

def SshPrivateKey.sign? (k : SshPrivateKey) (message : Bytes) : Option SshSignature :=
  match k.family, k.fields with
  | .ed25519, [_, pair] => some ⟨.ed25519, Ed25519.sign (pair.take 32) message⟩
  | .ecdsa .p256, [_, _, factor] => signElliptic? .p256 .p256 .sha256 factor message
  | .ecdsa .p384, [_, _, factor] => signElliptic? .p384 .p384 .sha384 factor message
  | .rsa, fields => do
    let data ← Rsa.sign? .sha512 (← rsaKey? fields) message
    return ⟨.rsaSha512, data⟩
  | _, _ => none

def verifiesPair (curve : Curve) (h : HashAlgorithm) (point message data : Bytes) : Bool :=
  (SshSignature.pair? data).any fun (r, s) => Ecdsa.verify curve h point message r s

def verifiesRsa (h : HashAlgorithm) (e n message data : Bytes) : Bool :=
  (do soundRsa? (← nat? n) (← nat? e)).any fun k => Rsa.verify h k message data

def SshKey.verifies (k : SshKey) (message : Bytes) (s : SshSignature) : Bool :=
  match k.family, k.fields, s.algorithm with
  | .ed25519, [key], .ed25519 => Ed25519.verify key message s.data
  | .ecdsa .p256, [_, point], .ecdsa .p256 => verifiesPair .p256 .sha256 point message s.data
  | .ecdsa .p384, [_, point], .ecdsa .p384 => verifiesPair .p384 .sha384 point message s.data
  | .rsa, [e, n], .rsaSha256 => verifiesRsa .sha256 e n message s.data
  | .rsa, [e, n], .rsaSha512 => verifiesRsa .sha512 e n message s.data
  | _, _, _ => false

end CertAuthority.OpenSsh
