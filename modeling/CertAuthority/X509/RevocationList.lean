import CertAuthority.Certificate.Backend
import CertAuthority.X509.Draft

/-!
# Revocation lists

* `revocationsOf` : the entries a request asks for. Entries of certificates that have expired are
  left out unless the request includes them; two entries for one serial number are refused;
* `updateWindow` : this and next update;
* `RevocationListPlan.issue` : the signed list, under the authority's name or the request's;
* `RevocationListForm.info` : the view of a stored list. A list does not hold its issuer's key.
-/

namespace CertAuthority.X509

open Der

/-! ## Contents -/

/-- Lifetime of a list that names neither an end nor a length: a week. -/
def fallbackListSeconds : Nat := 7 * 86400

def updateWindow (now : Instant) (r : CertificateRequest) : BackendResult (Instant × Instant) := do
  let start := r.notBefore.getD now
  let next ← Outcome.ofOption (.invalidSpec "ttl" "update window out of range")
    (r.notAfter <|> start.laterBy? (r.ttl.getD fallbackListSeconds))
  Outcome.ensure (!next.le start) (.invalidSpec "not_after" "next update must follow this update")
  return (start, next)

/-- Whether an entry belongs on the list at `now`. -/
def isKept (r : CertificateRequest) (now : Instant) (e : RevokedCertificate) : Bool :=
  r.includeExpired || !e.notAfter.any fun t => t.le now

/-- Adds the entries in order to those kept so far. -/
def revocationsFrom (r : CertificateRequest) (now : Instant) (out : List Revocation) :
    List RevokedCertificate → BackendResult (List Revocation)
  | [] => .ok out
  | e :: rest =>
    match e.serialNumber with
    | none =>
      Outcome.fail (.invalidSpec "revoked" "every entry needs a serial number or a certificate")
    | some s =>
      if !isKept r now e then revocationsFrom r now out rest
      else if out.any fun o => o.serialNumber == s then
        Outcome.fail (.invalidSpec "revoked" ("serial " ++ s.text ++ " listed twice"))
      else
        revocationsFrom r now
          (out ++ [⟨s, e.revocationDate.getD now, e.reason, e.invalidityDate⟩]) rest

def revocationsOf (r : CertificateRequest) (now : Instant) : BackendResult (List Revocation) :=
  revocationsFrom r now [] r.revoked

/-- Only the authority key identifier can be requested, and it is always there. -/
def checkListExtensions (r : CertificateRequest) : BackendResult Unit :=
  match r.extensions.kinds.find? (· != .authorityKeyIdentifier) with
  | some k =>
    Outcome.fail (.invalidSpec "extensions" (k.name ++ " cannot be set on a revocation list"))
  | none => .ok ()

/-! ## Writing -/

structure RevocationListPlan where
  number : SerialNumber
  thisUpdate : Instant
  nextUpdate : Instant
  revoked : List Revocation

def oidReason : List Nat := [2, 5, 29, 21]
def oidInvalidityDate : List Nat := [2, 5, 29, 24]
def oidListNumber : List Nat := [2, 5, 29, 20]

/-- An unspecified reason is only written next to an invalidity date. -/
def entryExtensions (reason : Option RevocationReason) (invalidity : Option Bytes) :
    List Extension :=
  if invalidity.isNone ∧ (reason = none ∨ reason = some .unspecified) then []
  else
    (reason.map fun r => ⟨oidReason, false, element tagEnumerated (natContent r.code)⟩).toList ++
      (invalidity.map fun b => ⟨oidInvalidityDate, false, b⟩).toList

def entryBytes (r : Revocation) : BackendResult Bytes := do
  let date ← dateBytes r.revocationDate
  let invalidity ← r.invalidityDate.mapM longDateBytes
  let extensions := entryExtensions r.reason invalidity
  return seqOf ([nat r.serialNumber.value, date] ++
    if extensions.isEmpty then [] else [seqOf (extensions.map Extension.encode)])

/-- The entry with dates that certificates can hold. -/
def datedEntry (r : Revocation) : BackendResult Revocation := do
  let revocationDate ← wholeDate r.revocationDate
  let invalidityDate ← r.invalidityDate.mapM wholeDate
  return { r with revocationDate, invalidityDate }

namespace RevocationListPlan

/-- The plan with dates that certificates can hold. -/
def dated (p : RevocationListPlan) : BackendResult RevocationListPlan := do
  let revoked ← p.revoked.mapM datedEntry
  let thisUpdate ← wholeDate p.thisUpdate
  let nextUpdate ← wholeDate p.nextUpdate
  return { p with revoked, thisUpdate, nextUpdate }

/-- The signed part. -/
def part (p : RevocationListPlan) (issuer : Issuer) (s : Signer) : BackendResult Bytes := do
  let dates ← [p.thisUpdate, p.nextUpdate].mapM dateBytes
  let entries ← p.revoked.mapM entryBytes
  let extensions : List Extension :=
    [authorityKeyExtension s.key.identifier, ⟨oidListNumber, false, nat p.number.value⟩]
  return seqOf ([nat 1, s.algorithm.encode, issuer.name.encode] ++ dates ++
    (if entries.isEmpty then [] else [seqOf entries]) ++
    [explicit 0 (seqOf (extensions.map Extension.encode))])

/-- The updates must differ by a second, and an authority that states its key's usages must include
the signing of lists. -/
def check (p : RevocationListPlan) (issuer : Issuer) : BackendResult Unit := do
  Outcome.ensure (p.thisUpdate.lt p.nextUpdate) (.crypto "next update must follow this update")
  Outcome.ensure (issuer.usages.isEmpty || issuer.usages.contains .crlSign)
    (.crypto "issuer may not sign revocation lists")

def issue (p : RevocationListPlan) (r : CertificateRequest) (authority : Option Certificate)
    (s : Signer) : BackendResult Bytes := do
  let p ← p.dated
  let issuer ← match authority with
    | some c => Issuer.ofCertificate c
    | none => do pure { name := IssuedName.ofView (← subjectOf r) }
  p.check issuer
  s.endorse (← p.part issuer s)

end RevocationListPlan

/-! ## Reading -/

structure RevokedEntry where
  serial : Bytes
  date : Instant
  extensions : List Extension

structure RevocationListForm where
  signed : Bytes
  issuer : Name
  thisUpdate : Instant
  nextUpdate : Option Instant
  revoked : List RevokedEntry
  extensions : List Extension
  signatureAlgorithm : AlgorithmIdentifier
  signature : Bytes

namespace RevocationListForm

def entry : Parser RevokedEntry := inSequence do
  let serial ← tagged tagInteger
  let date ← Date.parser
  let extensions ← optionally Extension.listParser
  return ⟨serial, date, extensions.getD []⟩

/-- At least one entry. -/
def entries : Parser (List RevokedEntry) := do
  match ← within (manyToEnd entry) (← tagged tagSequence) with
  | [] => Der.fail
  | es => return es

def signedFields (raw : Bytes) : Parser RevocationListForm := do
  let _ ← optionally (natBelow (bitLimit 32))
  let _ ← AlgorithmIdentifier.parser
  let issuer ← Name.parser
  let thisUpdate ← Date.parser
  let nextUpdate ← optionally Date.parser
  let revoked ← optionally entries
  let extensions ← taggedExtensions 0
  return {
    signed := raw, issuer, thisUpdate, nextUpdate, revoked := revoked.getD [], extensions
    signatureAlgorithm := default, signature := [] }

def fields : Parser RevocationListForm := do
  let e ← anyElement
  if e.tag = tagSequence then
    let form ← within (signedFields e.raw) e.content
    let signatureAlgorithm ← AlgorithmIdentifier.parser
    let signature ← bitsValue
    return { form with signatureAlgorithm, signature }
  else Der.fail

def parse? (der : Bytes) : Option RevocationListForm := (inSequence fields).parse? .tolerant der

/-- Value of the first extension with this identifier. -/
def value? (extensions : List Extension) (o : List Nat) : Option Bytes :=
  (extensions.find? (·.oid == o)).map (·.value)

def number? (f : RevocationListForm) : Option SerialNumber := do
  let v ← value? f.extensions oidListNumber
  let n ← natValue.parse? .tolerant v
  return ⟨n⟩

/-- Family of the key that made a signature. -/
def keyFamily (oid : List Nat) : KeyAlgorithm :=
  if oid = oidEd25519 then .ed25519
  else if oid = [1, 2, 840, 10045, 4, 3, 3] ∨ oid = [1, 2, 840, 10045, 4, 3, 4] then .ecdsaP384
  else if oid.take 4 = [1, 2, 840, 10045] then .ecdsaP256
  else .rsa

def reasonOf? (e : RevokedEntry) : Option RevocationReason := do
  let v ← value? e.extensions oidReason
  let content ← (tagged tagEnumerated).parse? .tolerant v
  RevocationReason.ofCode? (Bytes.toNat content % 256)

def invalidityOf? (e : RevokedEntry) : Option Instant :=
  e.extensions.findSome? fun x =>
    if x.oid = oidInvalidityDate then Date.parser.parse? .tolerant x.value else none

def revocation (e : RevokedEntry) : Revocation :=
  ⟨.ofBytes e.serial, e.date, reasonOf? e, invalidityOf? e⟩

def info (f : RevocationListForm) : CertificateInfo :=
  { artifact := .crl
    publicKey := ⟨.x509, keyFamily f.signatureAlgorithm.oid, []⟩
    serialNumber := f.number?
    issuer := some f.issuer.view
    notBefore := some f.thisUpdate
    notAfter := f.nextUpdate
    extensions := viewOf f.extensions
    digest := digestOfOid? f.signatureAlgorithm.oid
    revoked := f.revoked.map revocation }

/-- Lists are only verified with the algorithms that this library signs with. -/
def isSignedBy (f : RevocationListForm) (key : KeyInfo) : Bool :=
  [SignatureAlgorithm.ed25519, .ecdsaSha256, .ecdsaSha384, .rsaSha256, .rsaSha384, .rsaSha512].any
      (·.oid == f.signatureAlgorithm.oid) &&
    verifies f.signatureAlgorithm key f.signed f.signature

end RevocationListForm

/-- The view of a stored revocation list. -/
def listInfo (der : Bytes) : BackendResult CertificateInfo :=
  match RevocationListForm.parse? der with
  | some f => .ok f.info
  | none => Outcome.fail (.unrecognized "crl")

end CertAuthority.X509
