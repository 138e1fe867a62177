import CertAuthority.Proofs.Certificate.Changes
import CertAuthority.Proofs.Signature.Ed25519
import CertAuthority.Proofs.X509.Agreement

/-!
# Drafting again after signing

Detection compares an artifact with a draft that is built later, at another time and with other
random bytes, from the same request.

* `sameBody_of_buildDraft` : requests for the same content are drafted alike, and so is one request
  at two times (`SameContent`, by `sameContent_of_buildDraft`);
* `revoked_of_buildDraft` : entries of a list depend on the time it is for and on nothing else;
* `KeepsContent` : none of what a draft fixes is reported, by `keepsContent_differences`;
* `draft_agrees_with_signed` : an artifact has its draft's view, and a later draft finds no
  difference;
* `houseRun` : a certificate for a key in an unusual form, signed with a key that stands here.
-/

namespace CertAuthority.X509

open Der

variable {m m' : Moment} {artifact : ArtifactKind} {r r' : CertificateRequest}
  {subject : PublicKey} {signer : SignerIdentity} {d d' : Draft} {key : PrivateKey}
  {digest : Option Digest} {c : Certificate}

/-! ## Drafting again -/

/-- Two views have the same content, and the same number where one is asked for. -/
structure SameContent (numbered : Bool) (i i' : CertificateInfo) : Prop where
  subject : i.subject = i'.subject
  issuer : i.issuer = i'.issuer
  extensions : i.extensions = i'.extensions
  digest : i.digest = i'.digest
  serialNumber : numbered = true → i.serialNumber = i'.serialNumber

/-- The parts of a plan that are the same whenever a request is drafted. -/
theorem CertificatePlan.content_ofRequest {serial serial' : Option SerialNumber}
    {start stop start' stop' : Instant} {skey : SubjectKey} {p p' : CertificatePlan}
    (h : ofRequest r serial (some (start, stop)) skey = .ok p)
    (h' : ofRequest r serial' (some (start', stop')) skey = .ok p') :
    p'.subject = p.subject ∧ p'.key = p.key ∧ p'.extensions = p.extensions := by
  simp only [ofRequest, Outcome.bind_eq_ok_iff] at h h'
  obtain ⟨name, hname, _, -, _, -, _, -, extensions, hextensions, h⟩ := h
  obtain ⟨_, hname', _, -, _, -, _, -, _, hextensions', h'⟩ := h'
  obtain rfl := Except.ok.inj (hname.symm.trans hname')
  obtain rfl := Except.ok.inj (hextensions.symm.trans hextensions')
  rw [← Except.ok.inj h, ← Except.ok.inj h']
  exact ⟨rfl, rfl, rfl⟩

theorem subjectOf_congr (hr : r.SameContent r') : subjectOf r = subjectOf r' := by
  simp only [subjectOf, hr.subject, hr.nameAttributes]

/-- A plan takes nothing else from its request. -/
theorem CertificatePlan.ofRequest_congr (hr : r.SameContent r') : ofRequest r = ofRequest r' := by
  funext serial validity key
  rw [ofRequest, ofRequest, subjectOf_congr hr, hr.extensions]

theorem RevocationListPlan.issuerUnder_congr (hr : r.SameContent r') :
    issuerUnder r = issuerUnder r' := by
  funext authority
  cases authority with
  | none => simp only [issuerUnder, subjectOf_congr hr]
  | some c => rfl

theorem CertificatePlan.issuerUnder_congr {p p' : CertificatePlan} (h : p'.subject = p.subject) :
    p'.issuerUnder = p.issuerUnder := by
  funext authority
  cases authority with
  | none => rw [issuerUnder, issuerUnder, h]
  | some c => rfl

/-- Two drafts of a certificate may have different numbers, but not where one was asked for. -/
theorem sameBody_of_certificate (hr : r.SameContent r')
    (hd : buildDraft m .certificate r subject signer = .ok d)
    (hd' : buildDraft m' .certificate r' subject signer = .ok d') : d.SameBody d' := by
  obtain ⟨_, skey, _, _, p, issuer, f, info, -, hskey, hp, hissuer, hrenders, hinfo, rfl⟩ :=
    renders_of_buildDraft_certificate hd
  obtain ⟨_, _, _, _, p', issuer', f', info', -, hskey', hp', hissuer', hrenders', hinfo', rfl⟩ :=
    renders_of_buildDraft_certificate hd'
  obtain rfl := Except.ok.inj (hskey.symm.trans hskey')
  rw [← CertificatePlan.ofRequest_congr hr] at hp'
  obtain ⟨hname, hkey, hplan⟩ := CertificatePlan.content_ofRequest hp hp'
  rw [CertificatePlan.issuerUnder_congr hname] at hissuer'
  obtain rfl := Except.ok.inj (hissuer.symm.trans hissuer')
  obtain ⟨hsubject, hissuerName, hextensions⟩ := hrenders.content_eq hrenders' hname hkey hplan
  obtain rfl := Except.ok.inj (hrenders.info_eq.symm.trans hinfo)
  obtain rfl := Except.ok.inj (hrenders'.info_eq.symm.trans hinfo')
  exact {
    kind := rfl
    artifact := rfl
    publicKey := rfl
    subject := by simp only [hsubject]
    issuer := by simp only [hissuerName]
    principals := rfl
    keyId := rfl
    certType := rfl
    options := rfl
    extensions := hextensions.symm
    requested := hr.serialNumber
    serialNumber := fun hnumbered => by
      obtain ⟨serial, hserial⟩ := Option.isSome_iff_exists.1 hnumbered
      have hnumber := (CertificatePlan.serial_ofRequest hp).1
      have hnumber' := (CertificatePlan.serial_ofRequest hp').1
      rw [hserial, Option.getD_some] at hnumber
      rw [← hr.serialNumber, hserial, Option.getD_some] at hnumber'
      simp only [CertificatePlan.serialValue_of_serial hnumber,
        CertificatePlan.serialValue_of_serial hnumber'] }

theorem sameBody_of_signingRequest (hr : r.SameContent r')
    (hd : buildDraft m .csr r subject signer = .ok d)
    (hd' : buildDraft m' .csr r' subject signer = .ok d') : d.SameBody d' := by
  obtain ⟨_, skey, p, f, info, -, hskey, hp, hrenders, hinfo, rfl⟩ :=
    renders_of_buildDraft_request hd
  obtain ⟨_, _, p', f', info', -, hskey', hp', hrenders', hinfo', rfl⟩ :=
    renders_of_buildDraft_request hd'
  obtain rfl := Except.ok.inj (hskey.symm.trans hskey')
  rw [← CertificatePlan.ofRequest_congr hr] at hp'
  obtain rfl := Except.ok.inj (hp.symm.trans hp')
  obtain rfl := hrenders.info_agree hrenders' hinfo hinfo'
  constructor <;> first | rfl | exact hr.serialNumber | exact fun _ => rfl

theorem sameBody_of_list (hr : r.SameContent r')
    (hd : buildDraft m .crl r subject signer = .ok d)
    (hd' : buildDraft m' .crl r' subject signer = .ok d') : d.SameBody d' := by
  obtain ⟨_, _, _, issuer, f, -, -, -, hissuer, hrenders, rfl⟩ := renders_of_buildDraft_list hd
  obtain ⟨_, _, _, issuer', f', -, -, -, hissuer', hrenders', rfl⟩ :=
    renders_of_buildDraft_list hd'
  rw [← RevocationListPlan.issuerUnder_congr hr] at hissuer'
  obtain rfl := Except.ok.inj (hissuer.symm.trans hissuer')
  have hname : f'.issuer = f.issuer :=
    Option.some.inj (hrenders'.issuerName.symm.trans hrenders.issuerName)
  rw [hrenders.info_eq, hrenders'.info_eq, hname, ← hr.serialNumber]
  constructor <;> first | rfl | exact hr.serialNumber | exact fun _ => rfl

/-- Requests for the same content are drafted with the same content, whenever that is. -/
theorem sameBody_of_buildDraft (hr : r.SameContent r')
    (hd : buildDraft m artifact r subject signer = .ok d)
    (hd' : buildDraft m' artifact r' subject signer = .ok d') : d.SameBody d' := by
  cases artifact with
  | certificate => exact sameBody_of_certificate hr hd hd'
  | csr => exact sameBody_of_signingRequest hr hd hd'
  | crl => exact sameBody_of_list hr hd hd'

/-- With a number of its own, a certificate is drafted in one way at any moment of a time. -/
theorem buildDraft_of_sameContent (hr : r.SameContent r') (hcheck : checkRequest r' = .ok ())
    (hdigest : r.digest = r'.digest) (hvalidity : validity m.now r = validity m'.now r')
    (hnumbered : r.serialNumber.isSome = true)
    (hd : buildDraft m .certificate r subject signer = .ok d) :
    buildDraft m' .certificate r' subject signer = .ok { d with request := r' } := by
  obtain ⟨serial, hserial⟩ := Option.isSome_iff_exists.1 hnumbered
  simp only [buildDraft, render, Outcome.bind_eq_ok_iff, hdigest, hvalidity,
    CertificatePlan.ofRequest_congr hr, hserial, Option.getD_some] at hd ⊢
  obtain ⟨_, -, skey, hskey, out, ⟨a, ha, period, hperiod, plan, hplan, der, hissue, hout⟩, info,
    hinfo, hd⟩ := hd
  rw [hr.serialNumber] at hserial
  rw [← Except.ok.inj hd]
  refine ⟨(), hcheck, skey, hskey, out, ⟨a, ha, period, hperiod, plan, ?_, der, hissue, hout⟩,
    info, hinfo, rfl⟩
  rw [hserial, Option.getD_some]
  exact hplan

theorem signDraft_of_sameContent (hr : d.request.SameContent r')
    (hdigest : d.request.digest = r'.digest) (hkind : d.info.artifact = .certificate)
    (hs : signDraft d key digest = .ok c) :
    signDraft { d with request := r' } key digest = .ok c := by
  simp only [signDraft, signedBytes, hkind] at hs ⊢
  rw [← CertificatePlan.ofRequest_congr hr, ← hdigest]
  exact hs

/-- A request is drafted with the same content at any time. -/
theorem sameContent_of_buildDraft (hd : buildDraft m artifact r subject signer = .ok d)
    (hd' : buildDraft m' artifact r subject signer = .ok d') :
    SameContent r.serialNumber.isSome d.info d'.info := by
  have hbody : d.SameBody d' := sameBody_of_buildDraft (.refl r) hd hd'
  obtain ⟨hrequest, -, -, -, a, ha, hnamed⟩ := digest_of_buildDraft hd
  obtain ⟨-, -, -, -, a', ha', hnamed'⟩ := digest_of_buildDraft hd'
  exact {
    subject := hbody.subject
    issuer := hbody.issuer
    extensions := hbody.extensions
    digest := by rw [hnamed, hnamed', Except.ok.inj (ha.symm.trans ha')]
    serialNumber := hrequest ▸ hbody.serialNumber }

theorem fst_of_updateWindow {now : Instant} {window : Instant × Instant}
    (h : updateWindow now r = .ok window) : window.1 = r.notBefore.getD now := by
  simp only [updateWindow, Outcome.bind_eq_ok_iff] at h
  obtain ⟨next, -, _, -, h⟩ := h
  rw [← Except.ok.inj h]

/-- Lists that are drafted for one time have the same entries, each for a number of its own. -/
theorem revoked_of_buildDraft (hd : buildDraft m .crl r subject signer = .ok d)
    (hd' : buildDraft m' .crl r subject signer = .ok d')
    (htime : r.notBefore.getD m'.now = r.notBefore.getD m.now) :
    d'.info.revoked = d.info.revoked ∧ (d.info.revoked.map (·.serialNumber)).Nodup := by
  obtain ⟨_, window, revoked, _, f, -, hwindow, hrevoked, -, hrenders, rfl⟩ :=
    renders_of_buildDraft_list hd
  obtain ⟨_, window', revoked', _, f', -, hwindow', hrevoked', -, hrenders', rfl⟩ :=
    renders_of_buildDraft_list hd'
  rw [fst_of_updateWindow hwindow'] at hrevoked'
  rw [fst_of_updateWindow hwindow, ← htime] at hrevoked
  obtain rfl := Except.ok.inj (hrevoked.symm.trans hrevoked')
  rw [hrenders.info_eq, hrenders'.info_eq]
  refine ⟨rfl, ?_⟩
  rw [List.map_map]
  exact nodup_revocationsOf hrevoked

/-- Entries that are kept at either time are the same but for the dates that the lists give them. -/
theorem undated_revocationsOf {now now' : Instant} {found found' : List Revocation}
    (hrevoked : r.revoked = r'.revoked) (hkept : ∀ e ∈ r.revoked, isKept r now e = isKept r' now' e)
    (h : revocationsOf r now = .ok found) (h' : revocationsOf r' now' = .ok found') :
    found.map Revocation.undated = found'.map Revocation.undated := by
  obtain ⟨-, -, rfl⟩ := revocationsOf_eq_ok_iff.1 h
  obtain ⟨-, -, rfl⟩ := revocationsOf_eq_ok_iff.1 h'
  have hsame : keptEntries r now = keptEntries r' now' := by
    rw [keptEntries, keptEntries, ← hrevoked]
    refine List.filter_congr fun e he => ?_
    rw [decide_eq_decide, ← isKept_eq_false_iff, ← isKept_eq_false_iff, hkept e he]
  have hundated (e : RevokedCertificate) :
      (listedAs? now e).map Revocation.undated = (listedAs? now' e).map Revocation.undated := by
    simp only [listedAs?, Option.map_map]
    rfl
  rw [List.map_filterMap, List.map_filterMap, hsame]
  exact congrArg (List.filterMap · _) (funext hundated)

/-- Lists of the same entries at either time. -/
theorem undated_revoked_of_buildDraft (hd : buildDraft m .crl r subject signer = .ok d)
    (hd' : buildDraft m' .crl r' subject signer = .ok d') (hrevoked : r.revoked = r'.revoked)
    (hkept : ∀ e ∈ r.revoked,
      isKept r (r.notBefore.getD m.now) e = isKept r' (r'.notBefore.getD m'.now) e) :
    d.info.revoked.map Revocation.undated = d'.info.revoked.map Revocation.undated := by
  obtain ⟨_, window, found, _, f, -, hwindow, hfound, -, hrenders, rfl⟩ :=
    renders_of_buildDraft_list hd
  obtain ⟨_, window', found', _, f', -, hwindow', hfound', -, hrenders', rfl⟩ :=
    renders_of_buildDraft_list hd'
  rw [fst_of_updateWindow hwindow] at hfound
  rw [fst_of_updateWindow hwindow'] at hfound'
  have hsame := undated_revocationsOf hrevoked hkept hfound hfound'
  have hsettled (es : List Revocation) : (es.map settledEntry).map Revocation.undated =
      ((es.map Revocation.undated).map settledEntry).map Revocation.undated := by
    simp only [List.map_map]
    rfl
  simp only [hrenders.info_eq, hrenders'.info_eq]
  rw [hsettled, hsame, ← hsettled]

/-! ## Detection -/

/-- None of what a draft fixes is reported as different. -/
structure KeepsContent (changes : ChangeSet) : Prop where
  subjectName : changes.subjectName = false
  issuerName : changes.issuerName = false
  digest : changes.digest = false
  extensions : changes.extensions = none
  signingPrivateKey : changes.signingPrivateKey = false
  revocations : changes.revocations = none
  serialNumber : changes.serialNumber = false

/-- What detection compares of an artifact with the content of a draft. -/
theorem keepsContent_differences {existing : LoadedArtifact} {desired : Desired}
    {expiration : Bool}
    (hcontent : SameContent desired.draft.request.serialNumber.isSome
      existing.certificate.info desired.draft.info)
    (hrevoked : desired.draft.info.artifact = .crl →
      RevocationsDiff.between existing.certificate.info.revoked desired.draft.info.revoked = none)
    (hverifies : desired.draft.info.artifact ≠ .csr →
      verifiesArtifact existing.certificate desired.draft.signer.publicKey = true) :
    KeepsContent (desired.differences Backend.x509 existing expiration) where
  subjectName := by simp [Desired.differences, hcontent.subject]
  issuerName := by simp [Desired.differences, hcontent.issuer]
  digest := by simp [Desired.differences, hcontent.digest]
  extensions := by
    simp only [Desired.differences, hcontent.extensions]
    exact ExtensionDiff.between_self _
  signingPrivateKey := by
    simp only [Desired.differences]
    by_cases hcsr : desired.draft.info.artifact = .csr
    · simp [hcsr]
    · simp [Backend.x509, hverifies hcsr]
  revocations := by
    simp only [Desired.differences]
    split
    · rename_i hcrl
      exact hrevoked (beq_iff_eq.1 hcrl)
    · rfl
  serialNumber := by
    simp only [Desired.differences]
    cases hnumbered : desired.draft.request.serialNumber.isSome with
    | false => rfl
    | true => simp [hcontent.serialNumber hnumbered]

/-! ## A run -/

def houseSeed : Bytes := List.replicate 32 7

def houseKey : PrivateKey where
  kind := .x509
  algorithm := .ed25519
  encoded := seqOf [nat 0, keyIdentifierOf .ed25519, octets (octets houseSeed)]

/-- An Ed25519 key with parameters, which the standard form leaves out. -/
def spelledKey : Bytes := seqOf [seqOf [oid oidEd25519, null], Der.bits (List.replicate 32 9)]

def houseRequest : CertificateRequest :=
  { CertificateRequest.new .x509 with serialNumber := some ⟨5⟩ }

structure HouseRun where
  subject : PublicKey
  signer : PublicKey
  draft : Draft
  certificate : Certificate
  later : Draft

/-- The key in its unusual form is loaded and certified, and a minute later drafted again. What the
house signs verifies. -/
def houseRun : BackendResult HouseRun := do
  let subject ← loadPublicKey spelledKey
  let signer ← derivePublicKey houseKey
  let draft ← buildDraft ⟨.ofSeconds 0, []⟩ .certificate houseRequest subject ⟨signer, none⟩
  let certificate ← signDraft draft houseKey none
  let later ← buildDraft ⟨.ofSeconds 60, []⟩ .certificate houseRequest subject ⟨signer, none⟩
  Outcome.ensure ((signedPart? certificate.encoded).all fun part =>
    verifies SignatureAlgorithm.ed25519.identifier (SigningKey.ed25519 houseSeed).subjectKey.info
      part (Ed25519.sign houseSeed part)) .encrypted
  return { subject, signer, draft, certificate, later }

theorem houseRun_isOk : houseRun.isOk = true := by
  simp only [houseRun, derivePublicKey_eq, signDraft_eq, verifies, SigningKey.subjectKey_eq,
    Ed25519.sign_eq, Ed25519.verify_eq]
  decide +kernel

theorem signingKey_houseKey : signingKey houseKey = .ok (.ed25519 houseSeed) := by
  have hparse : SigningKey.parse? houseKey.encoded = some (.ed25519 houseSeed) := by decide +kernel
  rw [signingKey, hparse]

theorem of_houseRun {h : HouseRun} (hrun : houseRun = .ok h) :
    loadPublicKey spelledKey = .ok h.subject ∧
    buildDraft ⟨.ofSeconds 0, []⟩ .certificate houseRequest h.subject ⟨h.signer, none⟩ =
      .ok h.draft ∧
    signDraft h.draft houseKey none = .ok h.certificate ∧
    buildDraft ⟨.ofSeconds 60, []⟩ .certificate houseRequest h.subject ⟨h.signer, none⟩ =
      .ok h.later ∧
    ∀ part, signedPart? h.certificate.encoded = some part → houseKey.Confirms part := by
  simp only [houseRun, Outcome.bind_eq_ok_iff, Outcome.ensure_eq_ok_iff] at hrun
  obtain ⟨subject, hload, signer, -, d, hd, c, hs, d', hd', -, hverifies, hrun⟩ := hrun
  obtain rfl := Except.ok.inj hrun
  refine ⟨hload, hd, hs, hd', fun part hpart => ?_⟩
  rw [hpart, Option.all_some] at hverifies
  exact PrivateKey.confirms_of_ed25519 signingKey_houseKey hverifies

/-! ## Agreement -/

/-- **What is drafted is what is signed.** A draft is rendered without the signing key, yet whatever
is signed from it, be it a certificate, a signing request or a revocation list, has the draft's view
in everything but the public key, which a draft states from its request: subject, issuer,
extensions, number, dates, digest and entries. So against a draft that is built again at any other
time (for a list, with its entries taken at the same time) none of these is reported as changed.
Signing is asked for the request's digest or for none, and what the key signs has to verify. -/
theorem draft_agrees_with_signed
    (hd : buildDraft m artifact r subject signer = .ok d) (hs : signDraft d key digest = .ok c)
    (hdigest : digest = none ∨ digest = r.digest)
    (hverifies : artifact ≠ .csr → ∀ part, signedPart? c.encoded = some part →
      key.Confirms part) :
    c.info = { d.info with publicKey := c.info.publicKey } ∧
    ∀ {m' : Moment} {d' : Draft} {existing : LoadedArtifact} {desired : Desired} {now : Instant}
      {threshold : Span},
      buildDraft m' artifact r subject signer = .ok d' →
      (artifact = .crl → r.notBefore.getD m'.now = r.notBefore.getD m.now) →
      existing.certificate = c → desired.draft = d' →
      (artifact = .csr ∨ (now.plus? threshold).isSome = true) →
      ∃ changes, desired.changesFrom Backend.x509 existing now threshold = .ok changes ∧
        KeepsContent changes := by
  have hview := view_eq_of_signDraft hd hs hdigest
  refine ⟨hview, fun {m' d' existing desired now threshold} hd' htime hc hdraft hlimit => ?_⟩
  obtain ⟨hrequest, hsigner, -, hkind, -⟩ := digest_of_buildDraft hd'
  subst hc hdraft
  have hanswer : ∃ expiration, desired.changesFrom Backend.x509 existing now threshold =
      .ok (desired.differences Backend.x509 existing expiration) :=
    Desired.exists_changesFrom_eq_ok (by rw [hkind]; exact hlimit)
  obtain ⟨expiration, hchanges⟩ := hanswer
  refine ⟨_, hchanges, keepsContent_differences ?_ ?_ ?_⟩
  · have hsame := sameContent_of_buildDraft hd hd'
    rw [hrequest, hview]
    exact ⟨hsame.subject, hsame.issuer, hsame.extensions, hsame.digest, hsame.serialNumber⟩
  · intro hcrl
    obtain rfl : artifact = .crl := hkind.symm.trans hcrl
    obtain ⟨hsame, hnodup⟩ := revoked_of_buildDraft hd hd' (htime rfl)
    rw [hview, hsame]
    exact RevocationsDiff.between_self hnodup
  · intro hcsr
    rw [hkind] at hcsr
    rw [hsigner]
    exact verifies_of_signDraft hcsr hd hs (hverifies hcsr)

theorem draft_agrees_with_signed_of_house :
    ∃ (h : HouseRun) (changes : ChangeSet), houseRun = .ok h ∧
      h.certificate.info = { h.draft.info with publicKey := h.certificate.info.publicKey } ∧
      Desired.changesFrom Backend.x509 { certificate := h.certificate, encoding := .pem }
        { draft := h.later, encoding := .pem } (.ofSeconds 60) .zero = .ok changes ∧
      KeepsContent changes := by
  obtain ⟨h, hrun⟩ := Outcome.exists_eq_ok_of_isOk houseRun_isOk
  obtain ⟨-, hd, hs, hd', hverifies⟩ := of_houseRun hrun
  obtain ⟨hview, hagain⟩ :=
    draft_agrees_with_signed hd hs (.inl rfl) fun _ part hpart => hverifies part hpart
  obtain ⟨changes, hchanges, hkept⟩ :=
    @hagain _ _ { certificate := h.certificate, encoding := .pem }
      { draft := h.later, encoding := .pem } (.ofSeconds 60) .zero hd' nofun rfl rfl
      (.inr (by decide))
  exact ⟨h, changes, hrun, hview, hchanges, hkept⟩

end CertAuthority.X509
