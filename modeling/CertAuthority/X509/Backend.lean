import CertAuthority.X509.KeyStore
import CertAuthority.X509.RevocationList

/-!
# The X.509 backend

Certificates, signing requests and revocation lists as text or DER, and certificates as bundles or
key stores.

* `decodeArtifact`, `loadRequest`, `loadList` : reading;
* `buildDraft` : a draft is rendered with a stand-in for the signer and read back, so its view is
  that of what signing produces;
* `signDraft` : refuses a key other than the one the draft was built for;
* `Backend.x509` : all of it together.
-/

namespace CertAuthority.X509

def labelCertificate : String := "CERTIFICATE"
def labelRequest : String := "CERTIFICATE REQUEST"
def labelOldRequest : String := "NEW CERTIFICATE REQUEST"
def labelList : String := "X509 CRL"

/-! ## Reading -/

/-- Certificates of a stored file, one after another. -/
def fileCertificates (b : Bytes) (encoding : Encoding) : BackendResult (List Bytes) :=
  match encoding with
  | .pem => match Armor.all? b with
    | some blocks => .ok ((blocks.filter (·.label == labelCertificate)).map (·.content))
    | none => Outcome.fail (.unrecognized "certificate")
  | .der => .ok [b]
  | other => Outcome.fail (.unsupportedEncoding other)

def decodeArtifact (b : Bytes) (encoding : Encoding) (passphrase : Option String) :
    BackendResult LoadedArtifact :=
  match encoding with
  | .pkcs7 => decodeBundle b
  | .pkcs12 => decodeStore b passphrase
  | encoding => do
    match ← (← fileCertificates b encoding).mapM loadCertificate with
    | [] => Outcome.fail (.unrecognized "certificate")
    | certificate :: chain => return { certificate, encoding, chain }

def loadRequest (b : Bytes) : BackendResult Certificate := do
  let der ← unarmored (fun l => l == labelRequest || l == labelOldRequest) "csr" b
  return ⟨der, ← requestInfo der⟩

def loadList (b : Bytes) : BackendResult LoadedArtifact := do
  let der ← unarmored (· == labelList) "crl" b
  let info ← listInfo der
  return { certificate := ⟨der, info⟩, encoding := if (Armor.first? b).isSome then .pem else .der }

/-- The view of an encoded artifact. -/
def infoOf (artifact : ArtifactKind) (der : Bytes) : BackendResult CertificateInfo :=
  match artifact with
  | .certificate => certificateInfo der
  | .csr => requestInfo der
  | .crl => listInfo der

/-! ## Drafting -/

/-- A positive serial number of full width. -/
def randomSerial (m : Moment) : SerialNumber :=
  ⟨Bytes.toNat (m.random 16) % bitLimit 126 + bitLimit 126⟩

/-- Number of a list whose request names none. -/
def firstListNumber : SerialNumber := ⟨1⟩

/-- The draft rendered as DER, and the algorithm that the signing key will use. -/
def render (m : Moment) (artifact : ArtifactKind) (r : CertificateRequest) (key : SubjectKey)
    (keyAlgorithm : KeyAlgorithm) (signer : SignerIdentity) :
    BackendResult (Bytes × SignatureAlgorithm) :=
  match artifact with
  | .certificate => do
    let a ← SignatureAlgorithm.choose signer.publicKey.algorithm r.digest
    let period ← validity m.now r
    let plan ← CertificatePlan.ofRequest r (r.serialNumber.getD (randomSerial m)) (some period) key
    return (← plan.issue signer.certificate .standIn, a)
  | .csr => do
    let a ← SignatureAlgorithm.choose keyAlgorithm r.digest
    let plan ← CertificatePlan.ofRequest r none none key
    return (← plan.request .standIn, a)
  | .crl => do
    checkListExtensions r
    let a ← SignatureAlgorithm.choose signer.publicKey.algorithm r.digest
    let (thisUpdate, nextUpdate) ← updateWindow m.now r
    let revoked ← revocationsOf r thisUpdate
    let plan : RevocationListPlan :=
      { number := r.serialNumber.getD firstListNumber, thisUpdate, nextUpdate, revoked }
    return (← plan.issue r signer.certificate .standIn, a)

def checkRequest (r : CertificateRequest) : BackendResult Unit := do
  Outcome.ensure (r.kind == .x509) (.invalidSpec "kind" "not an X.509 request")
  Outcome.ensure (r.appendCerts.isEmpty || r.encoding.supportsChain)
    (.invalidSpec "append_certs"
      (r.encoding.title ++ " output cannot carry additional certificates"))

def buildDraft (m : Moment) (artifact : ArtifactKind) (r : CertificateRequest)
    (subjectKey : PublicKey) (signer : SignerIdentity) : BackendResult Draft := do
  checkRequest r
  let key ← SubjectKey.ofEncoded subjectKey.encoded
  let (der, a) ← render m artifact r key subjectKey.algorithm signer
  let info ← infoOf artifact der
  return {
    request := r, signer, info := { info with digest := a.digest?, publicKey := subjectKey } }

/-! ## Signing -/

/-- The private key, if it can use the algorithm. -/
def signingKeyFor (key : PrivateKey) (a : SignatureAlgorithm) : BackendResult SigningKey := do
  let k ← signingKey key
  if k.algorithm = a.keyAlgorithm then return k else unrecognizedKey

def requireSigner (d : Draft) (derived : PublicKey) : BackendResult Unit :=
  Outcome.ensure (derived == d.signer.publicKey)
    (.invalidSpec "signing_private_key" "does not match the signer's public key")

/-- Both dates of a draft. -/
def draftPeriod (d : Draft) (reason : String) : BackendResult (Instant × Instant) :=
  match d.info.notBefore, d.info.notAfter with
  | some a, some b => .ok (a, b)
  | _, _ => Outcome.fail (.invalidSpec "validity" reason)

/-- The signed artifact as DER. -/
def signedBytes (d : Draft) (subject : SubjectKey) (derived : PublicKey) (s : Signer) :
    BackendResult Bytes :=
  match d.info.artifact with
  | .certificate => do
    requireSigner d derived
    let period ← draftPeriod d "draft has no validity period"
    let plan ← CertificatePlan.ofRequest d.request d.info.serialNumber (some period) subject
    plan.issue d.signer.certificate s
  | .csr => do
    Outcome.ensure (derived == d.info.publicKey)
      (.invalidSpec "private_key" "does not match the CSR public key")
    let plan ← CertificatePlan.ofRequest d.request none none subject
    plan.request s
  | .crl => do
    requireSigner d derived
    let (thisUpdate, nextUpdate) ← draftPeriod d "draft has no update window"
    let number ← Outcome.ofOption (.invalidSpec "serial_number" "draft has no CRL number")
      d.info.serialNumber
    let plan : RevocationListPlan := { number, thisUpdate, nextUpdate, revoked := d.info.revoked }
    plan.issue d.request d.signer.certificate s

def signDraft (d : Draft) (key : PrivateKey) (digest : Option Digest) :
    BackendResult Certificate := do
  let a ← SignatureAlgorithm.choose key.algorithm (digest <|> d.request.digest)
  let k ← signingKeyFor key a
  let derived ← derivePublicKey key
  let subject ← SubjectKey.ofEncoded d.info.publicKey.encoded
  let der ← signedBytes d subject derived (.ofKey k a)
  let info ← infoOf d.info.artifact der
  return ⟨der, if d.info.artifact = .crl then { info with publicKey := derived } else info⟩

/-- The artifact was signed by this key. A signing request also has to carry it. -/
def verifiesArtifact (c : Certificate) (key : PublicKey) : Bool :=
  match Der.Parser.parse? KeyInfo.parser .tolerant key.encoded with
  | none => false
  | some k => match c.info.artifact with
    | .certificate => (CertificateForm.parse? c.encoded).any (·.isSignedBy k)
    | .csr => c.info.publicKey == key &&
      (RequestForm.parse? c.encoded).any fun f =>
        verifies f.signatureAlgorithm f.key f.signed f.signature
    | .crl => (RevocationListForm.parse? c.encoded).any (·.isSignedBy k)

/-! ## Writing -/

def labelOf : ArtifactKind → String
  | .certificate => labelCertificate
  | .csr => labelRequest
  | .crl => labelList

def encodeArtifact (m : Moment) (c : Certificate) (encoding : Encoding) (o : EncodeOptions) :
    BackendResult Bytes :=
  match encoding with
  | .pem => .ok (Armor.encode (labelOf c.info.artifact) c.encoded ++
      o.chain.flatMap fun extra => Armor.encode labelCertificate extra.encoded)
  | .der => do
    Outcome.ensure o.chain.isEmpty
      (.invalidSpec "append_certs" "DER output cannot carry additional certificates")
    return c.encoded
  | .pkcs7 | .pkcs12 =>
    if c.info.artifact ≠ .certificate then
      Outcome.fail (.invalidSpec "encoding" (encoding.title ++ " output holds certificates only"))
    else if encoding = .pkcs7 then encodeBundle c o.chain
    else encodeStore m c o
  | .openssh => Outcome.fail (.unsupportedEncoding .openssh)

end CertAuthority.X509

namespace CertAuthority

def Backend.x509 : Backend where
  kind := .x509
  loadOrder := Encoding.x509LoadOrder
  defaultEncoding := .pem
  generateKey := X509.generateKey
  loadPrivateKey := X509.loadPrivateKey
  encodePrivateKey := X509.encodePrivateKey
  loadPublicKey := X509.loadPublicKey
  derivePublicKey := X509.derivePublicKey
  encodePublicKey := fun k => .ok (X509.encodePublicKey k)
  decode := X509.decodeArtifact
  loadCsr := X509.loadRequest
  loadCrl := X509.loadList
  buildDraft := X509.buildDraft
  sign := fun _ d key digest => X509.signDraft d key digest
  verifies := X509.verifiesArtifact
  encode := X509.encodeArtifact

end CertAuthority
