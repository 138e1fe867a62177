import CertAuthority.Certificate.Family
import CertAuthority.Proofs.Hash.Sha512

/-!
# Ed25519 over a hash

Keys and signatures for any hash in the place of SHA-512, and the X.509 backend that derives keys
and signs with it. With the hash on numbers a signature of a fixed message, or a run that signs a
fixed draft, is evaluated in a small part of the steps.

* `Ed25519.publicKey_eq`, `Ed25519.sign_eq`, `Ed25519.verify_eq` : the scheme is the one over the
  hash on numbers;
* `X509.derivePublicKey_eq`, `X509.signDraft_eq`, `CertificateKind.backend_eq` : so is the backend.
-/

namespace CertAuthority

namespace Ed25519

variable (hash : Bytes → Bytes)

def expandBy (seed : Bytes) : Nat × Bytes :=
  let h := hash seed
  let n := ofLittle (h.take 32)
  (n % bitLimit 254 / 8 * 8 + bitLimit 254, h.drop 32)

def publicKeyBy (seed : Bytes) : Bytes := encode (multiply (expandBy hash seed).1 base)

def signBy (seed message : Bytes) : Bytes :=
  let (a, hashKey) := expandBy hash seed
  let pub := encode (multiply a base)
  let r := ofLittle (hash (hashKey ++ message)) % order
  let big := encode (multiply r base)
  let k := ofLittle (hash (big ++ pub ++ message)) % order
  big ++ toLittle ((r + k * a) % order)

def verifyBy (publicKey message signature : Bytes) : Bool :=
  if publicKey.length = 32 ∧ signature.length = 64 then
    match decode? publicKey with
    | none => false
    | some a =>
      let s := ofLittle (signature.drop 32)
      let k := ofLittle (hash (signature.take 32 ++ publicKey ++ message)) % order
      s < order && encode (add (multiply s base) (multiply k (negate a))) == signature.take 32
  else false

theorem publicKey_eq : publicKey = publicKeyBy Sha512.numDigest := by
  rw [← Sha512.digest_eq]
  rfl

theorem sign_eq : sign = signBy Sha512.numDigest := by
  rw [← Sha512.digest_eq]
  rfl

theorem verify_eq : verify = verifyBy Sha512.numDigest := by
  rw [← Sha512.digest_eq]
  rfl

end Ed25519

/-! ## The backend -/

namespace X509

variable (hash : Bytes → Bytes)

namespace SigningKey

def publicBitsBy : SigningKey → Bytes
  | .ed25519 seed => Ed25519.publicKeyBy hash seed
  | k => k.publicBits

def signBy? : SigningKey → SignatureAlgorithm → Bytes → Option Bytes
  | .ed25519 seed, .ed25519, message => some (Ed25519.signBy hash seed message)
  | k, a, message => k.sign? a message

def subjectKeyBy (k : SigningKey) : SubjectKey := ⟨k.algorithm, k.publicBitsBy hash⟩

theorem subjectKey_eq (k : SigningKey) : k.subjectKey = k.subjectKeyBy Sha512.numDigest := by
  cases k with
  | ed25519 seed =>
    simp only [subjectKey, subjectKeyBy, publicBits, publicBitsBy, Ed25519.publicKey_eq]
  | ecdsaP256 | ecdsaP384 | rsa => rfl

theorem sign?_eq (k : SigningKey) (a : SignatureAlgorithm) :
    k.sign? a = k.signBy? Sha512.numDigest a := by
  funext message
  cases k with
  | ed25519 seed => cases a <;> simp only [sign?, signBy?, Ed25519.sign_eq]
  | ecdsaP256 | ecdsaP384 | rsa => rfl

end SigningKey

def derivePublicKeyBy (k : PrivateKey) : BackendResult PublicKey := do
  let s ← signingKey k
  return ⟨.x509, k.algorithm, (s.subjectKeyBy hash).encode⟩

def signDraftBy (d : Draft) (key : PrivateKey) (digest : Option Digest) :
    BackendResult Certificate := do
  let a ← SignatureAlgorithm.choose key.algorithm (digest <|> d.request.digest)
  let k ← signingKeyFor key a
  let derived ← derivePublicKeyBy hash key
  let subject ← SubjectKey.ofEncoded d.info.publicKey.encoded
  let der ← signedBytes d subject derived ⟨a, k.subjectKeyBy hash, k.signBy? hash a⟩
  let info ← infoOf d.info.artifact der
  return ⟨der, if d.info.artifact = .crl then { info with publicKey := derived } else info⟩

theorem derivePublicKey_eq : derivePublicKey = derivePublicKeyBy Sha512.numDigest := by
  funext k
  simp only [derivePublicKey, derivePublicKeyBy, SigningKey.subjectKey_eq]

theorem signDraft_eq : signDraft = signDraftBy Sha512.numDigest := by
  funext d key digest
  simp only [signDraft, signDraftBy, Signer.ofKey, derivePublicKey_eq, SigningKey.subjectKey_eq,
    SigningKey.sign?_eq]

end X509

def CertificateKind.backendBy (hash : Bytes → Bytes) : CertificateKind → Backend
  | .x509 =>
    { Backend.x509 with
      derivePublicKey := X509.derivePublicKeyBy hash
      sign := fun _ => X509.signDraftBy hash }
  | .ssh => .ssh

theorem CertificateKind.backend_eq :
    CertificateKind.backend = CertificateKind.backendBy Sha512.numDigest := by
  funext kind
  cases kind with
  | x509 =>
    simp only [backend, backendBy, Backend.x509, ← X509.derivePublicKey_eq, ← X509.signDraft_eq]
  | ssh => rfl

end CertAuthority
