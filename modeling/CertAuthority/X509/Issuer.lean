import CertAuthority.X509.Date
import CertAuthority.X509.Extension
import CertAuthority.X509.SigningKey

/-!
# Certificates and their issuers

* `CertificateForm.parser` : a stored certificate, its parts still in their own encodings;
* `CertificateForm.info` : the view of it;
* `Issuer` : name, key identifier and usages of the authority, from its certificate;
* `Signer` : what signs. `Signer.standIn` signs nothing and lets a draft be rendered like the
  certificate it will become.
-/

namespace CertAuthority.X509

open Der

structure CertificateForm where
  /-- The signed part -/
  signed : Bytes
  serial : Bytes
  issuer : Name
  notBefore : Instant
  notAfter : Instant
  subject : Name
  key : KeyInfo
  extensions : List Extension
  signatureAlgorithm : AlgorithmIdentifier
  signature : Bytes
deriving Inhabited

namespace CertificateForm

/-- A version number, at tag 0. -/
def version : Parser Unit := do
  match ← taggedIf (tagExplicit 0) with
  | some content => let _ ← within (natBelow (bitLimit 32)) content
  | none => pure ()

def validity : Parser (Instant × Instant) := inSequence do return (← Date.parser, ← Date.parser)

/-- The fields of the signed part; the signature fields are not in it. -/
def signedFields (raw : Bytes) : Parser CertificateForm := do
  version
  let serial ← tagged tagInteger
  let _ ← AlgorithmIdentifier.parser
  let issuer ← Name.parser
  let (notBefore, notAfter) ← validity
  let subject ← Name.parser
  let key ← KeyInfo.parser
  let _ ← taggedIf (tagImplicit 1)
  let _ ← taggedIf (tagImplicit 2)
  let extensions ← taggedExtensions 3
  return {
    signed := raw, serial, issuer, notBefore, notAfter, subject, key, extensions
    signatureAlgorithm := default, signature := [] }

def fields : Parser CertificateForm := do
  let e ← anyElement
  if e.tag = tagSequence then
    let form ← within (signedFields e.raw) e.content
    let signatureAlgorithm ← AlgorithmIdentifier.parser
    let signature ← bitsValue
    return { form with signatureAlgorithm, signature }
  else Der.fail

def parse? (der : Bytes) : Option CertificateForm := (inSequence fields).parse? .tolerant der

end CertificateForm

/-- Digest that a signature algorithm names. -/
def digestOfOid? (oid : List Nat) : Option Digest :=
  [([1, 2, 840, 113549, 1, 1, 5], Digest.sha1), ([1, 2, 840, 10045, 4, 1], .sha1),
   ([1, 2, 840, 113549, 1, 1, 14], .sha224), ([1, 2, 840, 10045, 4, 3, 1], .sha224),
   ([1, 2, 840, 113549, 1, 1, 11], .sha256), ([1, 2, 840, 10045, 4, 3, 2], .sha256),
   ([1, 2, 840, 113549, 1, 1, 12], .sha384), ([1, 2, 840, 10045, 4, 3, 3], .sha384),
   ([1, 2, 840, 113549, 1, 1, 13], .sha512), ([1, 2, 840, 10045, 4, 3, 4], .sha512)].lookup oid

/-- Handle of a supported key. -/
def KeyInfo.handle (k : KeyInfo) : BackendResult PublicKey :=
  match k.algorithm? with
  | some a => .ok ⟨.x509, a, k.raw⟩
  | none => Outcome.fail (.unrecognized "public key")

def CertificateForm.info (f : CertificateForm) : BackendResult CertificateInfo := do
  let publicKey ← f.key.handle
  return {
    publicKey
    serialNumber := some (.ofBytes f.serial)
    subject := some f.subject.view
    issuer := some f.issuer.view
    notBefore := some f.notBefore
    notAfter := some f.notAfter
    extensions := viewOf f.extensions
    digest := digestOfOid? f.signatureAlgorithm.oid }

/-- The view of a stored certificate. -/
def certificateInfo (der : Bytes) : BackendResult CertificateInfo :=
  match CertificateForm.parse? der with
  | some f => f.info
  | none => Outcome.fail (.unrecognized "certificate")

def loadCertificate (der : Bytes) : BackendResult Certificate :=
  (certificateInfo der).map fun info => ⟨der, info⟩

def CertificateForm.isSignedBy (f : CertificateForm) (key : KeyInfo) : Bool :=
  verifies f.signatureAlgorithm key f.signed f.signature

/-! ## Issuers -/

structure Issuer where
  name : IssuedName
  /-- Identifier that the authority's certificate states for its key -/
  keyIdentifier : Option Bytes := none
  usages : List KeyUsage := []
deriving Inhabited

namespace Issuer

def fault {α : Type} : BackendResult α := Outcome.fail (.crypto "could not parse the certificate")

/-- Usages of the authority's key; stating them twice is refused. -/
def usagesOf (extensions : List Extension) : BackendResult (List KeyUsage) :=
  match extensions.filter fun e => some e.oid == extensionOid? .keyUsage with
  | [] => .ok []
  | [e] => match bitsValue.parse? .tolerant e.value with
    | some b => .ok (KeyUsage.all.filter (·.isSet b))
    | none => .ok []
  | _ => fault

def identifierOf (extensions : List Extension) : Option Bytes :=
  extensions.findSome? fun e =>
    if some e.oid = extensionOid? .subjectKeyIdentifier then
      (tagged tagOctetString).parse? .tolerant e.value
    else none

/-- The authority behind a certificate. -/
def ofCertificate (c : Certificate) : BackendResult Issuer :=
  match CertificateForm.parse? c.encoded with
  | none => fault
  | some f => do
    let usages ← usagesOf f.extensions
    match IssuedName.ofName? f.subject with
    | none => fault
    | some name => return { name, keyIdentifier := identifierOf f.extensions, usages }

end Issuer

/-! ## Signers -/

structure Signer where
  algorithm : SignatureAlgorithm
  key : SubjectKey
  sign? : Bytes → Option Bytes

namespace Signer

def ofKey (k : SigningKey) (a : SignatureAlgorithm) : Signer := ⟨a, k.subjectKey, k.sign? a⟩

/-- A signer without a key, whose signatures are blank. -/
def standIn : Signer :=
  ⟨.ed25519, ⟨.ed25519, List.replicate 32 0⟩, fun _ => some (List.replicate 64 0)⟩

/-- The signed part with its signature. -/
def endorse (s : Signer) (part : Bytes) : BackendResult Bytes :=
  match s.sign? part with
  | some signature => .ok (seqOf [part, s.algorithm.encode, bits signature])
  | none => Outcome.fail (.crypto "signing failed")

end Signer

def orAbandon {α : Type} : Option α → BackendResult α
  | some a => .ok a
  | none => Outcome.abandon

/-- A date in its encoding; dates outside the years 0 to 9999 have none. -/
def dateBytes (t : Instant) : BackendResult Bytes := orAbandon (Date.encode? t)

/-- The same with four digits for every year. -/
def longDateBytes (t : Instant) : BackendResult Bytes := orAbandon (Date.encodeLong? t)

end CertAuthority.X509
