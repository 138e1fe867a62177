import CertAuthority.X509.ExtensionPlan
import CertAuthority.X509.Issuer

/-!
# Certificates and signing requests to be written

* `CertificatePlan.ofRequest` : subject, dates, serial number and extensions of a request;
* `CertificatePlan.issue` : the signed certificate. Without an authority it is issued under its own
  name;
* `CertificatePlan.request` : the signed request for a certificate;
* `RequestForm.info` : the view of a stored signing request.
-/

namespace CertAuthority.X509

open Der

/-- The subject of a request: the full subject, then the single attributes over it. -/
def subjectOf (r : CertificateRequest) : BackendResult DistinguishedName := do
  let base ← match r.subject with
    | none => pure DistinguishedName.empty
    | some s => match s.toName with
      | .ok dn => pure dn
      | .error e => Outcome.fail (.invalidSpec "subject" e.message)
  return base.pushAll r.nameAttributes

/-- A date that certificates can hold. -/
def wholeDate (t : Instant) : BackendResult Instant :=
  if Date.isInRange t then .ok t.wholeSecond
  else Outcome.fail (.invalidSpec "validity" "timestamp must be in the range of the years ±9999")

structure CertificatePlan where
  subject : IssuedName
  key : SubjectKey
  /-- Absent in signing requests -/
  validity : Option (Instant × Instant)
  serial : Option SerialNumber
  extensions : ExtensionPlan

namespace CertificatePlan

def ofRequest (r : CertificateRequest) (serial : Option SerialNumber)
    (validity : Option (Instant × Instant)) (key : SubjectKey) : BackendResult CertificatePlan := do
  let subject := IssuedName.ofView (← subjectOf r)
  let validity ← match validity with
    | none => pure none
    | some (a, b) => do pure (some (← wholeDate a, ← wholeDate b))
  let extensions ← ExtensionPlan.ofRequest r.extensions
  return { subject, key, validity, serial, extensions }

/-- Serial number of a plan that names none: hash of the key, cut to 20 bytes and made positive. -/
def fallbackSerial (key : SubjectKey) : Nat :=
  Bytes.toNat ((Sha256.digest key.bits).take 20) % bitLimit 159

def serialBytes (p : CertificatePlan) : Bytes :=
  nat (match p.serial with
    | some s => s.value
    | none => fallbackSerial p.key)

/-- The signed part of a certificate. -/
def certificatePart (p : CertificatePlan) (issuer : Issuer) (s : Signer) : BackendResult Bytes := do
  let (notBefore, notAfter) := p.validity.getD (.ofSeconds 0, .ofSeconds 0)
  let dates ← [notBefore, notAfter].mapM dateBytes
  let extensions ← p.extensions.extensions
    { subjectIsEmpty := p.subject.isEmpty
      subject := p.key
      authority := issuer.keyIdentifier.getD s.key.identifier }
  return seqOf
    ([explicit 0 (nat 2), p.serialBytes, s.algorithm.encode, issuer.name.encode, seqOf dates,
      p.subject.encode, p.key.encode] ++
      if extensions.isEmpty then [] else [explicit 3 (seqOf (extensions.map Extension.encode))])

/-- Issues under the name of `authority`, else under the subject's own. -/
def issue (p : CertificatePlan) (authority : Option Certificate) (s : Signer) :
    BackendResult Bytes := do
  let issuer ← match authority with
    | some c => Issuer.ofCertificate c
    | none => pure { name := p.subject }
  s.endorse (← p.certificatePart issuer s)

def oidExtensionRequest : List Nat := [1, 2, 840, 113549, 1, 9, 14]

/-- Attribute with the requested extensions. -/
def requestAttribute (extensions : List Extension) : Bytes :=
  seqOf [oid oidExtensionRequest,
    element tagSet (seqOf (extensions.map Extension.encode))]

/-- The signing request carries the key that signs it. -/
def request (p : CertificatePlan) (s : Signer) : BackendResult Bytes := do
  let extensions ← p.extensions.requested p.subject.isEmpty p.key
  let attributes := if extensions.isEmpty then [] else requestAttribute extensions
  s.endorse (seqOf [nat 0, p.subject.encode, s.key.encode, explicit 0 attributes])

end CertificatePlan

/-! ## Stored signing requests -/

structure RequestForm where
  signed : Bytes
  subject : Name
  key : KeyInfo
  /-- Extensions of the first attribute that requests any -/
  extensions : List Extension
  signatureAlgorithm : AlgorithmIdentifier
  signature : Bytes

namespace RequestForm

/-- Requested extensions, if the attribute holds them. -/
def requestEntry : Parser (Option (List Extension)) := inSequence do
  let o ← oidValue
  let content ← tagged tagSet
  if o = CertificatePlan.oidExtensionRequest then some <$> within Extension.listParser content
  else return none

def attributes : Parser (List (Option (List Extension))) := do
  skipHeader 0
  manyToEnd requestEntry

def signedFields : Parser (Name × KeyInfo × List Extension) := do
  let _ ← natBelow (bitLimit 32)
  let subject ← Name.parser
  let key ← KeyInfo.parser
  let found ← attributes
  return (subject, key, (found.findSome? id).getD [])

def fields : Parser RequestForm := do
  let e ← anyElement
  if e.tag = tagSequence then
    let (subject, key, extensions) ← within signedFields e.content
    let signatureAlgorithm ← AlgorithmIdentifier.parser
    return {
      signed := e.raw, subject, key, extensions, signatureAlgorithm, signature := ← bitsValue }
  else Der.fail

def parse? (der : Bytes) : Option RequestForm := (inSequence fields).parse? .tolerant der

def info (f : RequestForm) : BackendResult CertificateInfo := do
  let publicKey ← f.key.handle
  let subject := f.subject.view
  return {
    artifact := .csr
    publicKey
    subject := some subject
    extensions := requestedViewOf f.extensions subject.isEmpty
    digest := digestOfOid? f.signatureAlgorithm.oid }

end RequestForm

/-- The view of a stored signing request. -/
def requestInfo (der : Bytes) : BackendResult CertificateInfo :=
  match RequestForm.parse? der with
  | some f => f.info
  | none => Outcome.fail (.unrecognized "csr")

end CertAuthority.X509
