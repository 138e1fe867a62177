import CertAuthority.Certificate.Backend
import CertAuthority.OpenSsh.Certificate

/-!
# The OpenSSH backend

User and host certificates; there are neither signing requests nor revocation lists.

* `signingDigest` : RSA keys sign with SHA-512, and no key signs with anything but its own digest;
* `canonicalSection` : options of a request as a certificate holds them;
* `buildDraft`, `signDraft`, `verifiesArtifact`;
* `Backend.ssh` : all of it together.
-/

namespace CertAuthority.OpenSsh

/-! ## Drafting -/

def signingDigest (key : KeyAlgorithm) (requested : Option Digest) :
    BackendResult (Option Digest) :=
  let natural := if key = .rsa then some .sha512 else key.naturalDigest
  match requested with
  | none => .ok natural
  | some d =>
    if key = .ed25519 ∨ some d = natural then .ok natural
    else Outcome.fail (.unsupportedDigest d.name)

/-- Name of a section in a request. -/
def sectionField : SshSection → String
  | .criticalOption => "options"
  | .extension => "extensions"

/-- An entry has to belong to the section, and its value has to be text; the section decides whether
it is critical. -/
def canonicalEntry (part : SshSection) (e : ExtensionKind × ExtensionValue) :
    BackendResult (ExtensionKind × ExtensionValue) :=
  let (k, v) := e
  let field := sectionField part
  let entry (value : AttributeValue) : BackendResult (ExtensionKind × ExtensionValue) :=
    .ok (k, ⟨part == .criticalOption, value⟩)
  if k.section? ≠ some part then
    Outcome.fail (.invalidSpec field (k.name ++ " does not belong in OpenSSH " ++ field))
  else
    match v.value with
    | .present => entry .present
    | .text s => entry (if s = "" then .present else .text s)
    | _ => Outcome.fail (.invalidSpec k.name "OpenSSH option values must be text")

def canonicalSection (s : ExtensionSet) (part : SshSection) : BackendResult ExtensionSet := do
  return .ofList (← s.toList.mapM (canonicalEntry part))

/-- An empty list would stand for every principal and is refused. -/
def draftPrincipals : Principals → BackendResult Principals
  | .list [] => Outcome.fail (.invalidSpec "principals"
      "no principal survived the signing policy; an empty list would allow every principal")
  | .list names => .ok (.list names)
  | .all | .unspecified => .ok .all

/-- Serial numbers have 64 bits. -/
def draftSerial (m : Moment) (r : CertificateRequest) : SerialNumber :=
  match r.serialNumber with
  | some s => ⟨s.low64⟩
  | none => ⟨Bytes.toNat (m.random 8)⟩

def noRequests {α : Type} : BackendResult α :=
  Outcome.fail (.invalidSpec "csr" "OpenSSH has no signing requests")

def noChain {α : Type} : BackendResult α :=
  Outcome.fail
    (.invalidSpec "append_certs" "OpenSSH certificates cannot carry additional certificates")

def checkRequest (artifact : ArtifactKind) (r : CertificateRequest) : BackendResult Unit :=
  if r.kind ≠ .ssh then Outcome.fail (.invalidSpec "kind" "not an OpenSSH request")
  else
    match artifact with
    | .csr => noRequests
    | .crl => Outcome.fail (.invalidSpec "revoked" "OpenSSH has no revocation lists")
    | .certificate => if r.appendCerts.isEmpty then .ok () else noChain

def buildDraft (m : Moment) (artifact : ArtifactKind) (r : CertificateRequest)
    (subjectKey : PublicKey) (signer : SignerIdentity) : BackendResult Draft := do
  checkRequest artifact r
  let _ ← SshKey.load subjectKey.encoded
  let principals ← draftPrincipals r.principals
  let (start, stop) ← validity m.now r
  let extensions ← canonicalSection r.extensions .extension
  let options ← canonicalSection r.options .criticalOption
  let digest ← signingDigest signer.publicKey.algorithm r.digest
  let info : CertificateInfo := {
    kind := .ssh
    publicKey := subjectKey
    serialNumber := some (draftSerial m r)
    notBefore := some start
    notAfter := some stop
    extensions, options, principals
    keyId := if r.keyId = some "" then none else r.keyId
    certType := some (r.certType.getD .user)
    digest }
  return { request := r, signer, info }

/-! ## Signing -/

def timestamp (t : Instant) : BackendResult Nat :=
  if t.seconds < 0 then Outcome.fail (.invalidSpec "validity" "before 1970")
  else .ok t.seconds.toNat

/-- Options by their names, in ascending order. -/
def writtenOptions (s : ExtensionSet) : List (String × String) :=
  (s.toList.map fun (k, v) => (k.name, v.value.asText?.getD "")).mergeSort fun a b => a.1 ≤ b.1

/-- The certificate of a draft, unsigned. -/
def unsigned (m : Moment) (d : Draft) (subject authority : SshKey) (start stop : Nat) :
    SshCertificate :=
  let i := d.info
  { nonce := m.random 16
    key := subject
    serial := (i.serialNumber.map (·.low64)).getD 0
    certType := i.certType.getD .user
    keyId := i.keyId.getD ""
    principals := match i.principals with
      | .list names => names
      | _ => []
    validAfter := start
    validBefore := stop
    options := writtenOptions i.options
    extensions := writtenOptions i.extensions
    authority
    signature := default }

/-- Signs and checks the result. -/
def endorse (c : SshCertificate) (key : SshPrivateKey) : BackendResult SshCertificate :=
  match key.sign? c.signedPart with
  | none => Outcome.fail (.crypto "signing failed")
  | some signature =>
    let c := { c with signature }
    if c.isValidFor c.authority then .ok c
    else Outcome.fail (.crypto "certificate validation failed")

def signDraft (m : Moment) (d : Draft) (key : PrivateKey) (digest : Option Digest) :
    BackendResult Certificate := do
  let _ ← signingDigest key.algorithm (digest <|> d.request.digest)
  let authority := (← sectionOf key).key
  Outcome.ensure ((← authority.publicKey.handle) == d.signer.publicKey)
    (.invalidSpec "signing_private_key" "does not match the signer's public key")
  let subject ← SshKey.load d.info.publicKey.encoded
  match d.info.notBefore, d.info.notAfter with
  | some start, some stop =>
    let c ← endorse
      (unsigned m d subject authority.publicKey (← timestamp start) (← timestamp stop)) authority
    return ⟨Bytes.ofText c.line, ← c.info⟩
  | _, _ => Outcome.fail (.invalidSpec "validity" "draft has no validity period")

/-! ## Reading and writing -/

def decodeArtifact (b : Bytes) (encoding : Encoding) (_passphrase : Option String) :
    BackendResult LoadedArtifact := do
  Outcome.ensure (encoding == .openssh) (.unsupportedEncoding encoding)
  let line ← KeyLine.fileText "certificate" b
  let c ← Outcome.ofOption (.unrecognized "certificate") (SshCertificate.ofLine? line)
  return { certificate := ⟨Bytes.ofText line, ← c.info⟩, encoding }

def verifiesArtifact (c : Certificate) (key : PublicKey) : Bool :=
  match SshKey.load key.encoded, KeyLine.fileText "certificate" c.encoded with
  | .ok authority, .ok line => (SshCertificate.ofLine? line).any (·.isValidFor authority)
  | _, _ => false

def encodeArtifact (c : Certificate) (encoding : Encoding) (o : EncodeOptions) :
    BackendResult Bytes := do
  Outcome.ensure (encoding == .openssh) (.unsupportedEncoding encoding)
  if o.chain.isEmpty then return c.encoded ++ [10] else noChain

end CertAuthority.OpenSsh

namespace CertAuthority

def Backend.ssh : Backend where
  kind := .ssh
  loadOrder := [.openssh]
  defaultEncoding := .openssh
  generateKey := OpenSsh.generateKey
  loadPrivateKey := OpenSsh.loadPrivateKey
  encodePrivateKey := OpenSsh.encodePrivateKey
  loadPublicKey := fun b => do (← OpenSsh.SshKey.load b).handle
  derivePublicKey := OpenSsh.derivePublicKey
  encodePublicKey := fun k => .ok (k.encoded ++ [10])
  decode := OpenSsh.decodeArtifact
  loadCsr := fun _ => OpenSsh.noRequests
  loadCrl := fun _ => Outcome.fail (.unrecognized "crl")
  buildDraft := OpenSsh.buildDraft
  sign := OpenSsh.signDraft
  verifies := OpenSsh.verifiesArtifact
  encode := fun _ => OpenSsh.encodeArtifact

end CertAuthority
