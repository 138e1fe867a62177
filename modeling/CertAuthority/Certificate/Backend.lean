import CertAuthority.Certificate.Basic
import CertAuthority.Error
import CertAuthority.Hash.Sha256
import CertAuthority.Request

/-!
# Certificate backends

A backend reads, builds, signs and verifies the artifacts of one certificate family. Its operations
are functions; those that draw random numbers or look at the clock take them as a `Moment`.

* `validity` : the period a request asks for. It begins now unless the request says otherwise, and
  lasts for the requested seconds unless the request names its end;
* `Instant.laterBy?` : the instant some seconds later, if dates reach that far;
* `Backend.load` : an artifact of unknown encoding, by trying every encoding the backend reads, in
  its load order. A passphrase problem is reported only if nothing decodes, and the last one wins;
* `Backend.loadAs` : an artifact of a known kind.
-/

namespace CertAuthority

/-! ## Periods of validity -/

/-- The instant `seconds` later, if there is one. -/
def Instant.laterBy? (t : Instant) (seconds : Nat) : Option Instant := do
  let d ← Span.ofSeconds? (min seconds (bitLimit 63 - 1))
  t.plus? d

/-- Seconds of validity where a request names neither an end nor a length: thirty days. -/
def fallbackSeconds : Nat := 30 * 86400

/-- First and last instant of the requested period. -/
def validity (now : Instant) (r : CertificateRequest) : BackendResult (Instant × Instant) := do
  let start := r.notBefore.getD now
  let stop ← Outcome.ofOption (.invalidSpec "ttl" "validity period out of range")
    (r.notAfter <|> start.laterBy? (r.ttl.getD fallbackSeconds))
  Outcome.ensure (!stop.le start) (.invalidSpec "not_after" "must be later than not_before")
  return (start, stop)

/-! ## Backends -/

/-- A clock reading and a seed of random bytes. -/
structure Moment where
  now : Instant
  seed : Bytes
deriving Inhabited

/-- The first `n` bytes that the seed stretches to. -/
def Moment.random (m : Moment) (n : Nat) : Bytes :=
  ((List.range ((n + 31) / 32)).flatMap fun i =>
    Sha256.digest (m.seed ++ Bytes.ofWord32 i)).take n

structure Backend where
  kind : CertificateKind
  /-- Encodings that `decode` understands, in the order to try them -/
  loadOrder : List Encoding
  /-- Encoding of a freshly signed artifact -/
  defaultEncoding : Encoding
  generateKey : Moment → KeyAlgorithm → BackendResult PrivateKey
  loadPrivateKey : Bytes → Option String → BackendResult PrivateKey
  encodePrivateKey : Moment → PrivateKey → Option String → BackendResult Bytes
  loadPublicKey : Bytes → BackendResult PublicKey
  derivePublicKey : PrivateKey → BackendResult PublicKey
  encodePublicKey : PublicKey → BackendResult Bytes
  /-- Decodes an artifact stored in exactly this encoding -/
  decode : Bytes → Encoding → Option String → BackendResult LoadedArtifact
  loadCsr : Bytes → BackendResult Certificate
  loadCrl : Bytes → BackendResult LoadedArtifact
  /-- Assembles an unsigned draft from the signer's public identity -/
  buildDraft : Moment → ArtifactKind → CertificateRequest → PublicKey → SignerIdentity →
    BackendResult Draft
  sign : Moment → Draft → PrivateKey → Option Digest → BackendResult Certificate
  /-- The certificate was signed by this key -/
  verifies : Certificate → PublicKey → Bool
  encode : Moment → Certificate → Encoding → EncodeOptions → BackendResult Bytes

instance : Inhabited Backend where
  default :=
    { kind := .x509
      loadOrder := []
      defaultEncoding := .pem
      generateKey := fun _ _ => Outcome.abandon
      loadPrivateKey := fun _ _ => Outcome.abandon
      encodePrivateKey := fun _ _ _ => Outcome.abandon
      loadPublicKey := fun _ => Outcome.abandon
      derivePublicKey := fun _ => Outcome.abandon
      encodePublicKey := fun _ => Outcome.abandon
      decode := fun _ _ _ => Outcome.abandon
      loadCsr := fun _ => Outcome.abandon
      loadCrl := fun _ => Outcome.abandon
      buildDraft := fun _ _ _ _ _ => Outcome.abandon
      sign := fun _ _ _ _ => Outcome.abandon
      verifies := fun _ _ => false
      encode := fun _ _ _ _ => Outcome.abandon }

namespace Backend

/-- The public key belongs to the private key. -/
def isKeyPair (b : Backend) (pub : PublicKey) (key : PrivateKey) : Bool :=
  match b.derivePublicKey key with
  | .ok derived => derived == pub
  | .error _ => false

/-- Tries the encodings in turn; `pending` is the passphrase problem met last. -/
def loadFrom (b : Backend) (data : Bytes) (passphrase : Option String)
    (pending : Option BackendError) :
    List Encoding → BackendResult LoadedArtifact
  | [] => Outcome.fail (pending.getD (.unrecognized "certificate"))
  | e :: rest =>
    match b.decode data e passphrase with
    | .ok artifact => .ok artifact
    | .error .abandoned => Outcome.abandon
    | .error (.error .encrypted) => loadFrom b data passphrase (some .encrypted) rest
    | .error (.error .wrongPassphrase) => loadFrom b data passphrase (some .wrongPassphrase) rest
    | .error (.error _) => loadFrom b data passphrase pending rest

def load (b : Backend) (data : Bytes) (passphrase : Option String) : BackendResult LoadedArtifact :=
  loadFrom b data passphrase none b.loadOrder

/-- Text or DER, by how the bytes begin. -/
def armorOf (data : Bytes) : Encoding :=
  if (Bytes.ofText "-----BEGIN").isPrefixOf data then .pem else .der

/-- An artifact of a known kind. Only certificates are stored in a container with a passphrase. -/
def loadAs (b : Backend) (artifact : ArtifactKind) (data : Bytes) (passphrase : Option String) :
    BackendResult LoadedArtifact :=
  match artifact with
  | .certificate => b.load data passphrase
  | .csr => do return { certificate := ← b.loadCsr data, encoding := armorOf data }
  | .crl => b.loadCrl data

end Backend
end CertAuthority
