import CertAuthority.Json.Basic

/-!
# Kinds of certificates, artifacts, encodings, digests and keys

The closed vocabularies of requests, policies and certificates, each with its written names.

* `CertificateKind`, `ArtifactKind`, `Encoding`, `Digest`, `KeyAlgorithm`, `CertType`;
* `Digest.parse` reads a digest name in any case; `KeyAlgorithm.naturalDigest` is what a key signs
  with when no digest is asked for;
* `named?` finds the member of an enumeration by its written name.
-/

namespace CertAuthority

/-- The member of `all` that is written as `s`. -/
def named? {α : Type} (all : List α) (name : α → String) (s : String) : Option α :=
  all.find? fun a => name a == s

/-- Reads a member of an enumeration from its name. -/
def Json.asNamed {α : Type} (all : List α) (name : α → String) : Json.Reader α := fun j => do
  match named? all name (← Json.asName j) with
  | some a => return a
  | none => Json.mismatch

/-- Certificate family. -/
inductive CertificateKind where
  | x509 | ssh
deriving DecidableEq, Repr, Inhabited

namespace CertificateKind

def all : List CertificateKind := [.x509, .ssh]

def name : CertificateKind → String
  | .x509 => "x509"
  | .ssh => "ssh"

/-- Name of the case as a debugging view shows it. -/
def label : CertificateKind → String
  | .x509 => "X509"
  | .ssh => "Ssh"

def read : Json.Reader CertificateKind := Json.asNamed all name

end CertificateKind

/-- What a draft turns into when it is signed. Requests and revocation lists are X.509 only. -/
inductive ArtifactKind where
  | certificate | csr | crl
deriving DecidableEq, Repr, Inhabited

namespace ArtifactKind

def all : List ArtifactKind := [.certificate, .csr, .crl]

def name : ArtifactKind → String
  | .certificate => "certificate"
  | .csr => "csr"
  | .crl => "crl"

def read : Json.Reader ArtifactKind := Json.asNamed all name

end ArtifactKind

/-- Serialized form of an artifact. -/
inductive Encoding where
  | pem | der | pkcs7 | pkcs12 | openssh
deriving DecidableEq, Repr, Inhabited

namespace Encoding

def all : List Encoding := [.pem, .der, .pkcs7, .pkcs12, .openssh]

def name : Encoding → String
  | .pem => "pem"
  | .der => "der"
  | .pkcs7 => "pkcs7"
  | .pkcs12 => "pkcs12"
  | .openssh => "openssh"

/-- Name in messages. -/
def title : Encoding → String
  | .pkcs7 => "pkcs7_pem"
  | e => e.name

def read : Json.Reader Encoding := Json.asNamed all name

/-- The order in which X.509 artifacts of unknown encoding are tried. -/
def x509LoadOrder : List Encoding := [.pem, .der, .pkcs7, .pkcs12]

/-- Additional certificates can travel in this encoding. -/
def supportsChain : Encoding → Bool
  | .pem | .pkcs7 | .pkcs12 => true
  | .der | .openssh => false

end Encoding

/-- Signature digest. -/
inductive Digest where
  | sha1 | sha224 | sha256 | sha384 | sha512 | sha512_224 | sha512_256
  | sha3_224 | sha3_256 | sha3_384 | sha3_512
deriving DecidableEq, Repr, Inhabited

namespace Digest

def all : List Digest :=
  [.sha1, .sha224, .sha256, .sha384, .sha512, .sha512_224, .sha512_256,
   .sha3_224, .sha3_256, .sha3_384, .sha3_512]

def name : Digest → String
  | .sha1 => "sha1"
  | .sha224 => "sha224"
  | .sha256 => "sha256"
  | .sha384 => "sha384"
  | .sha512 => "sha512"
  | .sha512_224 => "sha512_224"
  | .sha512_256 => "sha512_256"
  | .sha3_224 => "sha3_224"
  | .sha3_256 => "sha3_256"
  | .sha3_384 => "sha3_384"
  | .sha3_512 => "sha3_512"

/-- Digest of that name, in any letter case and with blanks around it. -/
def parse? (s : String) : Option Digest := named? all name (Text.lower (Text.trim s))

/-- The refusal of a digest name. -/
def unsupported (s : String) : String := "unsupported digest: " ++ s

def read : Json.Reader Digest
  | .str s => match parse? s with
    | some d => .ok d
    | none => .error (.worded (unsupported s))
  | _ => Json.mismatch

end Digest

/-- Key algorithm of a private or public key. -/
inductive KeyAlgorithm where
  | ed25519 | ecdsaP256 | ecdsaP384 | rsa
deriving DecidableEq, Repr, Inhabited

namespace KeyAlgorithm

def all : List KeyAlgorithm := [.ed25519, .ecdsaP256, .ecdsaP384, .rsa]

def name : KeyAlgorithm → String
  | .ed25519 => "ed25519"
  | .ecdsaP256 => "ecdsa_p256"
  | .ecdsaP384 => "ecdsa_p384"
  | .rsa => "rsa"

/-- Name of the case as a debugging view shows it. -/
def label : KeyAlgorithm → String
  | .ed25519 => "Ed25519"
  | .ecdsaP256 => "EcdsaP256"
  | .ecdsaP384 => "EcdsaP384"
  | .rsa => "Rsa"

def read : Json.Reader KeyAlgorithm := Json.asNamed all name

/-- Digest a key signs with when none is asked for; Ed25519 fixes its own. -/
def naturalDigest : KeyAlgorithm → Option Digest
  | .ed25519 => none
  | .ecdsaP256 | .rsa => some .sha256
  | .ecdsaP384 => some .sha384

end KeyAlgorithm

/-- OpenSSH certificate type. -/
inductive CertType where
  | user | host
deriving DecidableEq, Repr, Inhabited

namespace CertType

def all : List CertType := [.user, .host]

def name : CertType → String
  | .user => "user"
  | .host => "host"

def read : Json.Reader CertType := Json.asNamed all name

end CertType
end CertAuthority
