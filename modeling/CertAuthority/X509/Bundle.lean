import CertAuthority.X509.Draft

/-!
# Certificate bundles

A bundle is a signed message of PKCS#7 without content and signers, which only carries certificates.
They are a set, so the order in which they are given back is made up from their names.

* `leafFirst` : the certificate that issued none of the others, then up the chain of issuers, then
  what is left. The result is a rearrangement of the input;
* `encodeBundle`, `decodeBundle`.
-/

namespace CertAuthority.X509

open Der

/-! ## Order -/

/-- Another certificate names this one's subject as its issuer. -/
def hasIssued (all : List Certificate) (c : Certificate) : Bool :=
  all.any fun o => o.encoded != c.encoded && o.info.issuer == c.info.subject

/-- The first item that satisfies `p`, and the others. -/
def extractFirst? {α : Type} (p : α → Bool) : List α → Option (α × List α)
  | [] => none
  | a :: as =>
    if p a then some (a, as) else (extractFirst? p as).map fun (b, rest) => (b, a :: rest)

theorem length_of_extractFirst? {α : Type} (p : α → Bool) :
    ∀ {as : List α} {a : α} {rest : List α}, extractFirst? p as = some (a, rest) →
      as.length = rest.length + 1
  | a :: as, _, _, h => by
    unfold extractFirst? at h
    split at h
    · cases h; rfl
    · cases hx : extractFirst? p as with
      | none => simp [hx] at h
      | some br =>
        obtain ⟨b, r⟩ := br
        simp only [hx, Option.map_some, Option.some.injEq, Prod.mk.injEq] at h
        rw [← h.2, List.length_cons, List.length_cons, length_of_extractFirst? p hx]

/-- The issuers of `c` one after another, as far as they are among `others`, then the rest. -/
def issuersFirst (c : Certificate) (others : List Certificate) : List Certificate :=
  if c.info.issuer = c.info.subject then others
  else
    match _h : extractFirst? (fun o => o.info.subject == c.info.issuer) others with
    | none => others
    | some (next, rest) => next :: issuersFirst next rest
termination_by others.length
decreasing_by have := length_of_extractFirst? _ _h; omega

def leafFirst (certs : List Certificate) : List Certificate :=
  match extractFirst? (fun c => !hasIssued certs c) certs with
  | none => certs
  | some (leaf, rest) => leaf :: issuersFirst leaf rest

/-! ## Strict reading -/

/-- Serial numbers take up to 21 bytes. -/
def strictSerial : Parser Unit := do
  if (← integerContent).length ≤ 21 then return () else Der.fail

def strictDate : Parser Unit := do
  let e ← anyElement
  let length := if e.tag = tagUtcTime then 13 else 15
  if e.content.length = length ∧ (Date.ofContent? e.tag e.content).isSome then return ()
  else Der.fail

def strictIdentifier : Parser Unit := do
  filling (do let _ ← oidValue; let _ ← optionally anyElement) (← tagged tagSequence)

def strictEntry : Parser Element := do
  let e ← anyElement
  if e.tag = tagSequence then
    filling (do let _ ← oidValue; let _ ← anyElement) e.content
    return e
  else Der.fail

/-- A set of attributes, no two of them equal. -/
def strictSet : Parser Unit := do
  let entries ← within (manyToEnd strictEntry) (← tagged tagSet)
  if distinct (entries.map (·.raw)) = entries.map (·.raw) then return () else Der.fail

def strictName : Parser Unit := do
  let _ ← within (manyToEnd strictSet) (← tagged tagSequence)

def strictKey : Parser Unit := do
  filling (do strictIdentifier; let _ ← tagged tagBitString) (← tagged tagSequence)

def strictExtension : Parser Unit := do
  filling (do let _ ← oidValue; let _ ← optionally boolValue; let _ ← tagged tagOctetString)
    (← tagged tagSequence)

def strictSigned : Parser Unit := do
  match ← taggedIf (tagExplicit 0) with
  | some content => let _ ← filling (natBelow 3) content
  | none => pure ()
  strictSerial
  strictIdentifier
  strictName
  filling (do strictDate; strictDate) (← tagged tagSequence)
  strictName
  strictKey
  let _ ← taggedIf (tagImplicit 1)
  let _ ← taggedIf (tagImplicit 2)
  match ← taggedIf (tagExplicit 3) with
  | some content => filling (do
      let _ ← within (manyToEnd strictExtension) (← tagged tagSequence)) content
  | none => pure ()

/-- A certificate by the letter of the standard. -/
def strictCertificate : Parser Element := do
  let e ← anyElement
  if e.tag = tagSequence then
    filling (do
      filling strictSigned (← tagged tagSequence)
      strictIdentifier
      let _ ← bitsValue) e.content
    return e
  else Der.fail

def isStrict (der : Bytes) : Bool := (strictCertificate.parseAll? .distinguished der).isSome

/-! ## Messages -/

def labelBundle : String := "PKCS7"

def oidData : List Nat := [1, 2, 840, 113549, 1, 7, 1]
def oidSignedData : List Nat := [1, 2, 840, 113549, 1, 7, 2]
def oidEncryptedData : List Nat := [1, 2, 840, 113549, 1, 7, 6]

/-- Content with its type. -/
def contentInfo (type : List Nat) (content : Bytes) : Bytes := seqOf [oid type, explicit 0 content]

def contentInfoParser : Parser (List Nat × Bytes) := do
  filling (do
    let o ← oidValue
    return (o, ← tagged (tagExplicit 0))) (← tagged tagSequence)

def bundleFault {α : Type} : BackendResult α := Outcome.fail (.crypto "malformed certificate set")

/-- Messages that are written and read are shorter. -/
def messageLimit : Nat := bitLimit 28

/-- Refuses a certificate that the bundle's readers would refuse, one given twice, and too many. -/
def encodeBundle (leaf : Certificate) (chain : List Certificate) : BackendResult Bytes := do
  let certs := (leaf :: chain).map (·.encoded)
  if !certs.all isStrict ∨ distinct certs ≠ certs then bundleFault
  else
    let set := element (tagExplicit 0) (certs.mergeSort Bytes.le).flatten
    let message := seqOf [nat 1, element tagSet [], seqOf [oid oidData], set, element tagSet []]
    let info := contentInfo oidSignedData message
    if info.length < messageLimit then return Armor.encode labelBundle info else bundleFault

/-- Certificates of a signed message. -/
def bundleCertificates : Parser (List Bytes) := inWholeSequence do
  let _ ← natBelow 6
  let _ ← tagged tagSet
  let _ ← tagged tagSequence
  let certs ← taggedIf (tagExplicit 0)
  let _ ← taggedIf (tagExplicit 1)
  let _ ← tagged tagSet
  let found ← within (manyToEnd anyElement) (certs.getD [])
  let kept := found.filter fun e => e.tag = tagSequence
  if found.all fun e => e.tag = tagExplicit 3 || isStrict e.raw then return kept.map (·.raw)
  else Der.fail

def decodeBundle (b : Bytes) : BackendResult LoadedArtifact := do
  let der ← unarmored (· == labelBundle) "pkcs7" b
  let found := do
    let (type, content) ← contentInfoParser.parseAll? .distinguished der
    if type = oidSignedData ∧ der.length < messageLimit then
      bundleCertificates.parseAll? .distinguished content
    else none
  match found with
  | none => Outcome.fail (.unrecognized "pkcs7")
  | some ders =>
    if distinct ders ≠ ders then Outcome.fail (.unrecognized "pkcs7")
    else
      match leafFirst (← ders.mapM loadCertificate) with
      | [] => Outcome.fail (.unrecognized "pkcs7")
      | leaf :: chain => return { certificate := leaf, encoding := .pkcs7, chain }

end CertAuthority.X509
