import CertAuthority.Proofs.X509.Signatures

/-!
# Drafts and the artifacts signed from them

A draft is rendered with a signer that has no key, and its view is read back from that. The artifact
that is signed later is rendered with the real key, and read back again.

* `Signing` : what a signature is made with;
* `signed_of_certificate`, `signed_of_request`, `signed_of_list` : what is signed renders the plan
  of its draft, and a list can get another number first (`signed_of_numbered_list`);
* `view_of_signDraft` : so its view is the draft's, but for key and digest, and
  `view_eq_of_signDraft` : the digest is the same as well unless signing is asked for another;
* `verifies_of_signDraft` : it verifies with its signer's key if that key confirms what it signs.
-/

namespace CertAuthority.X509

open Der

variable {m m' : Moment} {artifact : ArtifactKind} {r : CertificateRequest} {subject : PublicKey}
  {signer : SignerIdentity} {d d' : Draft} {key : PrivateKey} {digest : Option Digest}
  {c : Certificate}

/-! ## Signing -/

/-- What a signature is made with: the key behind a handle, its public half, and the algorithm that
it chooses for the draft. -/
structure Signing (d : Draft) (key : PrivateKey) (digest : Option Digest) where
  signingKey : SigningKey
  algorithm : SignatureAlgorithm
  derived : PublicKey
  signingKey_eq : X509.signingKey key = .ok signingKey
  algorithm_eq : SignatureAlgorithm.choose key.algorithm (digest <|> d.request.digest) =
    .ok algorithm
  derived_eq : derivePublicKey key = .ok derived

namespace Signing

/-- The signer that renders the artifact. -/
def asSigner (s : Signing d key digest) : Signer := .ofKey s.signingKey s.algorithm

end Signing

theorem signing_of_signDraft (h : signDraft d key digest = .ok c) :
    ∃ (s : Signing d key digest) (subject : SubjectKey) (info : CertificateInfo),
      SubjectKey.ofEncoded d.info.publicKey.encoded = .ok subject ∧
      signedBytes d subject s.derived s.asSigner = .ok c.encoded ∧
      infoOf d.info.artifact c.encoded = .ok info ∧
      c.info = if d.info.artifact = .crl then { info with publicKey := s.derived } else info := by
  simp only [signDraft, Outcome.bind_eq_ok_iff] at h
  obtain ⟨a, ha, k, hk, derived, hderived, subject, hsubject, der, hder, info, hinfo, h⟩ := h
  obtain rfl := Except.ok.inj h
  simp only [signingKeyFor, Outcome.bind_eq_ok_iff] at hk
  obtain ⟨k', hk', hk⟩ := hk
  split at hk
  · obtain rfl := Except.ok.inj hk
    exact ⟨⟨k', a, derived, hk', ha, hderived⟩, subject, info, hsubject, hder, hinfo, rfl⟩
  · cases hk

/-! ## Certificates -/

theorem eq_of_requireSigner {derived : PublicKey} {u : Unit}
    (h : requireSigner d derived = .ok u) : derived = d.signer.publicKey := by
  unfold requireSigner Outcome.ensure at h
  split at h
  · rename_i heq
    exact beq_iff_eq.1 heq
  · cases h

/-- A plan of a request with whole seconds for its dates is the plan it was made of. -/
theorem CertificatePlan.ofRequest_again {serial : Option SerialNumber} {start stop : Instant}
    {skey : SubjectKey} {p p' : CertificatePlan}
    (h : ofRequest r serial (some (start, stop)) skey = .ok p)
    (h' : ofRequest r serial (some (start.wholeSecond, stop.wholeSecond)) skey = .ok p') :
    p' = p := by
  simp only [ofRequest, Outcome.bind_eq_ok_iff] at h h'
  obtain ⟨name, hname, _, ha, _, hb, _, hdates, extensions, hextensions, h⟩ := h
  obtain ⟨_, hname', _, ha', _, hb', _, hdates', _, hextensions', h'⟩ := h'
  obtain rfl := Except.ok.inj (hname.symm.trans hname')
  obtain rfl := Except.ok.inj (hextensions.symm.trans hextensions')
  rw [← Except.ok.inj h, ← Except.ok.inj h', ← Except.ok.inj hdates, ← Except.ok.inj hdates',
    wholeDate_eq_ok ha, wholeDate_eq_ok hb, wholeDate_eq_ok ha', wholeDate_eq_ok hb']
  rfl

theorem CertificatePlan.serial_ofRequest {serial : Option SerialNumber}
    {period : Option (Instant × Instant)} {skey : SubjectKey} {p : CertificatePlan}
    (h : ofRequest r serial period skey = .ok p) : p.serial = serial ∧ p.key = skey := by
  cases period <;> simp only [ofRequest, Outcome.bind_eq_ok_iff] at h
  · obtain ⟨_, -, _, -, _, -, h⟩ := h
    rw [← Except.ok.inj h]
    exact ⟨rfl, rfl⟩
  · obtain ⟨_, -, _, -, _, -, _, -, _, -, h⟩ := h
    rw [← Except.ok.inj h]
    exact ⟨rfl, rfl⟩

theorem CertificatePlan.serialValue_of_serial {p : CertificatePlan} {serial : SerialNumber}
    (h : p.serial = some serial) : (⟨p.serialValue⟩ : SerialNumber) = serial := by
  rw [serialValue, h]

/-- What a certificate is drafted as. -/
theorem renders_of_buildDraft_certificate
    (h : buildDraft m .certificate r subject signer = .ok d) :
    ∃ a skey start stop p issuer f info,
      SignatureAlgorithm.choose signer.publicKey.algorithm r.digest = .ok a ∧
      SubjectKey.ofEncoded subject.encoded = .ok skey ∧
      CertificatePlan.ofRequest r (some (r.serialNumber.getD (randomSerial m)))
        (some (start, stop)) skey = .ok p ∧
      p.issuerUnder signer.certificate = .ok issuer ∧
      CertificateForm.Renders f p issuer .standIn ∧ f.info = .ok info ∧
      d = ⟨r, signer, { info with digest := a.digest?, publicKey := subject }⟩ := by
  simp only [buildDraft, render, Outcome.bind_eq_ok_iff] at h
  obtain ⟨_, -, skey, hskey, ⟨der, a⟩, hrender, info, hinfo, hd⟩ := h
  obtain ⟨a', ha, ⟨start, stop⟩, -, p, hp, der', hissue, hpair⟩ := hrender
  obtain ⟨rfl, rfl⟩ := Prod.mk.inj (Except.ok.inj hpair)
  obtain ⟨issuer, part, hissuer, hpart, hder⟩ := CertificatePlan.issue_eq_ok_iff.1 hissue
  simp only [infoOf, certificateInfo] at hinfo
  split at hinfo
  · rename_i f hf
    have hvalidity := CertificatePlan.validity_ofRequest hp
    exact ⟨a', skey, start, stop, p, issuer, f, info, ha, hskey, hp, hissuer,
      CertificatePlan.renders_of_issue hvalidity rfl rfl hpart hder hf, hinfo,
      (Except.ok.inj hd).symm⟩
  · cases hinfo

/-- The signed certificate renders the plan of its draft. -/
theorem signed_of_certificate (hd : buildDraft m .certificate r subject signer = .ok d)
    (hs : signDraft d key digest = .ok c) :
    ∃ (s : Signing d key digest) (p : CertificatePlan) (issuer : Issuer) (f : CertificateForm),
      s.derived = signer.publicKey ∧ SubjectKey.ofEncoded subject.encoded = .ok p.key ∧
      CertificateForm.parse? c.encoded = some f ∧ f.Renders p issuer s.asSigner ∧
      c.info = { d.info with
        publicKey := ⟨.x509, p.key.algorithm, p.key.encode⟩
        digest := s.algorithm.digest? } := by
  obtain ⟨a, skey, start, stop, p, issuer, f, info, -, hskey, hp, hissuer, hrenders, hinfo, rfl⟩ :=
    renders_of_buildDraft_certificate hd
  obtain rfl := Except.ok.inj (hrenders.info_eq.symm.trans hinfo)
  obtain ⟨s, skey', info', hskey', hder, hinfo', hc⟩ := signing_of_signDraft hs
  obtain rfl := Except.ok.inj (hskey.symm.trans hskey')
  obtain ⟨hserial, hkey⟩ := CertificatePlan.serial_ofRequest hp
  have hvalidity := CertificatePlan.validity_ofRequest hp
  have hnumber := CertificatePlan.serialValue_of_serial hserial
  simp only [signedBytes, draftPeriod, Outcome.bind_eq_ok_iff, hvalidity, Option.map_some,
    hnumber] at hder
  obtain ⟨_, hsigner, period, hperiod, p', hp', hissue⟩ := hder
  obtain rfl := Except.ok.inj hperiod
  obtain rfl := CertificatePlan.ofRequest_again hp hp'
  obtain ⟨issuer', part, hissuer', hpart, hendorse⟩ := CertificatePlan.issue_eq_ok_iff.1 hissue
  obtain rfl := Except.ok.inj (hissuer.symm.trans hissuer')
  simp only [infoOf, certificateInfo] at hinfo'
  split at hinfo'
  · rename_i f' hf'
    have hrenders' := CertificatePlan.renders_of_issue hvalidity rfl rfl hpart hendorse hf'
    refine ⟨s, p', issuer, f', eq_of_requireSigner hsigner, hkey ▸ hskey, hf', hrenders', ?_⟩
    have hagree := hrenders.info_agree hrenders' hinfo hinfo'
    rw [hc, if_neg (show ArtifactKind.certificate ≠ .crl by decide), hagree]
    rfl
  · cases hinfo'

/-! ## Signing requests -/

/-- What a signing request is drafted as. -/
theorem renders_of_buildDraft_request (h : buildDraft m .csr r subject signer = .ok d) :
    ∃ a skey p f info,
      SignatureAlgorithm.choose subject.algorithm r.digest = .ok a ∧
      SubjectKey.ofEncoded subject.encoded = .ok skey ∧
      CertificatePlan.ofRequest r none none skey = .ok p ∧
      RequestForm.Renders f p .standIn ∧ f.info = .ok info ∧
      d = ⟨r, signer, { info with digest := a.digest?, publicKey := subject }⟩ := by
  simp only [buildDraft, render, Outcome.bind_eq_ok_iff] at h
  obtain ⟨_, -, skey, hskey, ⟨der, a⟩, hrender, info, hinfo, hd⟩ := h
  obtain ⟨a', ha, p, hp, der', hrequest, hpair⟩ := hrender
  obtain ⟨rfl, rfl⟩ := Prod.mk.inj (Except.ok.inj hpair)
  simp only [infoOf, requestInfo] at hinfo
  split at hinfo
  · rename_i f hf
    exact ⟨a', skey, p, f, info, ha, hskey, hp, CertificatePlan.renders_of_request hrequest hf,
      hinfo, (Except.ok.inj hd).symm⟩
  · cases hinfo

/-- The signed request renders the plan of its draft, and carries the key that signed it. -/
theorem signed_of_request (hd : buildDraft m .csr r subject signer = .ok d)
    (hs : signDraft d key digest = .ok c) :
    ∃ (s : Signing d key digest) (p : CertificatePlan) (f : RequestForm),
      s.derived = subject ∧ SubjectKey.ofEncoded subject.encoded = .ok p.key ∧
      CertificatePlan.ofRequest r none none p.key = .ok p ∧
      RequestForm.parse? c.encoded = some f ∧ f.Renders p s.asSigner ∧ f.info = .ok c.info ∧
      c.info = { d.info with
        publicKey := ⟨.x509, s.signingKey.algorithm, s.signingKey.subjectKey.encode⟩
        digest := s.algorithm.digest? } := by
  obtain ⟨a, skey, p, f, info, -, hskey, hp, hrenders, hinfo, rfl⟩ :=
    renders_of_buildDraft_request hd
  obtain rfl := Except.ok.inj (hrenders.info_eq.symm.trans hinfo)
  obtain ⟨s, skey', info', hskey', hder, hinfo', hc⟩ := signing_of_signDraft hs
  obtain rfl := Except.ok.inj (hskey.symm.trans hskey')
  simp only [signedBytes, Outcome.bind_eq_ok_iff] at hder
  obtain ⟨_, hsigner, p', hp', hrequest⟩ := hder
  obtain rfl := Except.ok.inj (hp.symm.trans hp')
  rw [if_neg (show ArtifactKind.csr ≠ .crl by decide)] at hc
  simp only [infoOf, requestInfo] at hinfo'
  split at hinfo'
  · rename_i f' hf'
    have hrenders' := CertificatePlan.renders_of_request hrequest hf'
    have hagree := hrenders.info_agree hrenders' hinfo hinfo'
    have hkey := (CertificatePlan.serial_ofRequest hp).2
    refine ⟨s, p, f', ?_, hkey ▸ hskey, hkey ▸ hp, hf', hrenders', hc ▸ hinfo', ?_⟩
    · unfold Outcome.ensure at hsigner
      split at hsigner
      · rename_i heq
        exact beq_iff_eq.1 heq
      · cases hsigner
    · rw [hc, hagree]
      rfl
  · cases hinfo'

/-! ## Revocation lists -/

/-- What a revocation list is drafted as. -/
theorem renders_of_buildDraft_list (h : buildDraft m .crl r subject signer = .ok d) :
    ∃ a window revoked issuer f,
      SignatureAlgorithm.choose signer.publicKey.algorithm r.digest = .ok a ∧
      updateWindow m.now r = .ok window ∧ revocationsOf r window.1 = .ok revoked ∧
      RevocationListPlan.issuerUnder r signer.certificate = .ok issuer ∧
      RevocationListForm.Renders f
        ⟨r.serialNumber.getD firstListNumber, window.1, window.2, revoked⟩ issuer .standIn ∧
      d = ⟨r, signer, { f.info with digest := a.digest?, publicKey := subject }⟩ := by
  simp only [buildDraft, render, Outcome.bind_eq_ok_iff] at h
  obtain ⟨_, -, skey, hskey, ⟨der, a⟩, hrender, info, hinfo, hd⟩ := h
  obtain ⟨_, -, a', ha, window, hwindow, revoked, hrevoked, der', hissue, hpair⟩ := hrender
  obtain ⟨rfl, rfl⟩ := Prod.mk.inj (Except.ok.inj hpair)
  obtain ⟨q, issuer, part, hq, hissuer, hpart, hder⟩ := RevocationListPlan.endorsed_of_issue hissue
  simp only [infoOf, listInfo] at hinfo
  split at hinfo
  · rename_i f hf
    obtain rfl := Except.ok.inj hinfo
    exact ⟨a', window, revoked, issuer, f, ha, hwindow, hrevoked, hissuer,
      RevocationListPlan.renders_of_issue hq hpart hder hf, (Except.ok.inj hd).symm⟩
  · cases hinfo

/-- The signed list renders the plan of its draft, with the entries as they had settled and whatever
number the draft was given since. -/
theorem signed_of_numbered_list {number : SerialNumber}
    (hd : buildDraft m .crl r subject signer = .ok d)
    (hs : signDraft { d with info := { d.info with serialNumber := some number } } key digest =
      .ok c) :
    ∃ (s : Signing { d with info := { d.info with serialNumber := some number } } key digest)
      (p : RevocationListPlan) (issuer : Issuer) (f : RevocationListForm),
      s.derived = signer.publicKey ∧ RevocationListForm.parse? c.encoded = some f ∧
      f.Renders p issuer s.asSigner ∧
      c.info = { d.info with
        serialNumber := some number, publicKey := s.derived, digest := s.algorithm.digest? } := by
  obtain ⟨a, window, revoked, issuer, f, -, -, -, hissuer, hrenders, rfl⟩ :=
    renders_of_buildDraft_list hd
  rw [hrenders.info_eq] at hs ⊢
  obtain ⟨s, _, info', -, hder, hinfo', hc⟩ := signing_of_signDraft hs
  simp only [signedBytes, draftPeriod, Outcome.bind_eq_ok_iff, Outcome.ofOption_eq_ok_iff] at hder
  obtain ⟨_, hsigner, period, hperiod, number', hnumber, hissue⟩ := hder
  obtain rfl := Except.ok.inj hperiod
  obtain rfl := Option.some.inj hnumber
  obtain ⟨q, issuer', part, hq, hissuer', hpart, hendorse⟩ :=
    RevocationListPlan.endorsed_of_issue hissue
  obtain rfl := Except.ok.inj (hissuer.symm.trans hissuer')
  simp only [infoOf, listInfo] at hinfo'
  split at hinfo'
  · rename_i f' hf'
    obtain rfl := Except.ok.inj hinfo'
    have hrenders' := RevocationListPlan.renders_of_issue hq hpart hendorse hf'
    have hname : f'.issuer = f.issuer :=
      Option.some.inj (hrenders'.issuerName.symm.trans hrenders.issuerName)
    refine ⟨s, _, issuer, f', eq_of_requireSigner hsigner, hf', hrenders', ?_⟩
    rw [hc, if_pos rfl, hrenders'.info_eq, hname, List.map_map]
    simp only [Function.comp_def, settledEntry_settledEntry, Instant.wholeSecond]
    rfl
  · cases hinfo'

/-- The signed list renders the plan of its draft, with the entries as they had settled. -/
theorem signed_of_list (hd : buildDraft m .crl r subject signer = .ok d)
    (hs : signDraft d key digest = .ok c) :
    ∃ (s : Signing d key digest) (p : RevocationListPlan) (issuer : Issuer)
      (f : RevocationListForm),
      s.derived = signer.publicKey ∧ RevocationListForm.parse? c.encoded = some f ∧
      f.Renders p issuer s.asSigner ∧
      c.info = { d.info with publicKey := s.derived, digest := s.algorithm.digest? } := by
  obtain ⟨number, hnumber⟩ : ∃ number, d.info.serialNumber = some number := by
    obtain ⟨_, _, _, _, f, -, -, -, -, hrenders, rfl⟩ := renders_of_buildDraft_list hd
    exact ⟨_, hrenders.number⟩
  have hsame : { d with info := { d.info with serialNumber := some number } } = d := by
    rw [← hnumber]
  rw [← hsame] at hs
  have hsigned := signed_of_numbered_list hd hs
  rwa [hsame, ← hnumber] at hsigned

/-! ## All kinds of artifacts -/

theorem Signing.algorithm_derived (s : Signing d key digest) :
    s.derived.algorithm = key.algorithm := by
  have h := s.derived_eq
  rw [derivePublicKey, s.signingKey_eq] at h
  rw [← Except.ok.inj h]

/-- The key that an artifact is signed with: the subject's own for a signing request. -/
def signedWith (artifact : ArtifactKind) (subject : PublicKey) (signer : SignerIdentity) :
    PublicKey :=
  if artifact = .csr then subject else signer.publicKey

/-- A draft names the digest that its signer's key will use. -/
theorem digest_of_buildDraft (h : buildDraft m artifact r subject signer = .ok d) :
    d.request = r ∧ d.signer = signer ∧ d.info.kind = .x509 ∧ d.info.artifact = artifact ∧
    ∃ a, SignatureAlgorithm.choose (signedWith artifact subject signer).algorithm r.digest = .ok a ∧
      d.info.digest = a.digest? := by
  cases artifact with
  | certificate =>
    obtain ⟨a, _, _, _, _, _, _, _, ha, -, -, -, hrenders, hinfo, rfl⟩ :=
      renders_of_buildDraft_certificate h
    obtain rfl := Except.ok.inj (hrenders.info_eq.symm.trans hinfo)
    exact ⟨rfl, rfl, rfl, rfl, a, ha, rfl⟩
  | csr =>
    obtain ⟨a, _, _, _, _, ha, -, -, hrenders, hinfo, rfl⟩ := renders_of_buildDraft_request h
    obtain rfl := Except.ok.inj (hrenders.info_eq.symm.trans hinfo)
    exact ⟨rfl, rfl, rfl, rfl, a, ha, rfl⟩
  | crl =>
    obtain ⟨a, _, _, _, _, ha, -, -, -, -, rfl⟩ := renders_of_buildDraft_list h
    exact ⟨rfl, rfl, rfl, rfl, a, ha, rfl⟩

/-- The view of a signed artifact is its draft's, but for key and digest. -/
theorem view_of_signDraft (hd : buildDraft m artifact r subject signer = .ok d)
    (hs : signDraft d key digest = .ok c) :
    ∃ s : Signing d key digest, s.derived = signedWith artifact subject signer ∧
      c.info = { d.info with
        publicKey := c.info.publicKey
        digest := s.algorithm.digest? } := by
  cases artifact with
  | certificate =>
    obtain ⟨s, _, _, _, hderived, -, -, -, hinfo⟩ := signed_of_certificate hd hs
    exact ⟨s, hderived, by rw [hinfo]⟩
  | csr =>
    obtain ⟨s, _, _, hderived, -, -, -, -, -, hinfo⟩ := signed_of_request hd hs
    exact ⟨s, hderived, by rw [hinfo]⟩
  | crl =>
    obtain ⟨s, _, _, _, hderived, -, -, hinfo⟩ := signed_of_list hd hs
    exact ⟨s, hderived, by rw [hinfo]⟩

/-- Asked for no digest but the request's, signing uses the one that the draft names. -/
theorem view_eq_of_signDraft (hd : buildDraft m artifact r subject signer = .ok d)
    (hs : signDraft d key digest = .ok c) (hdigest : digest = none ∨ digest = r.digest) :
    c.info = { d.info with publicKey := c.info.publicKey } := by
  obtain ⟨s, hderived, hinfo⟩ := view_of_signDraft hd hs
  obtain ⟨hrequest, -, -, -, a, ha, hnamed⟩ := digest_of_buildDraft hd
  have hchosen : (digest <|> r.digest) = r.digest := by
    rcases hdigest with rfl | rfl
    · rfl
    · cases r.digest <;> rfl
  have halgorithm := s.algorithm_eq
  rw [hrequest, hchosen, ← s.algorithm_derived, hderived, ha] at halgorithm
  rw [hinfo, ← Except.ok.inj halgorithm, ← hnamed]

/-- An artifact verifies with its signer's key if the key confirms what it signed. -/
theorem verifies_of_signDraft (hne : artifact ≠ .csr)
    (hd : buildDraft m artifact r subject signer = .ok d) (hs : signDraft d key digest = .ok c)
    (hconfirms : ∀ part, signedPart? c.encoded = some part → key.Confirms part) :
    verifiesArtifact c signer.publicKey = true := by
  obtain ⟨-, -, -, hkind, -⟩ := digest_of_buildDraft hd
  cases artifact with
  | certificate =>
    obtain ⟨s, p, issuer, f, hderived, -, hf, hrenders, hinfo⟩ := signed_of_certificate hd hs
    rw [← hderived]
    exact verifiesArtifact_certificate s.signingKey_eq s.derived_eq (by rw [hinfo]; exact hkind) hf
      hrenders hconfirms
  | csr => exact absurd rfl hne
  | crl =>
    obtain ⟨s, p, issuer, f, hderived, hf, hrenders, hinfo⟩ := signed_of_list hd hs
    rw [← hderived]
    exact verifiesArtifact_list s.signingKey_eq s.derived_eq (by rw [hinfo]; exact hkind) hf
      hrenders hconfirms

end CertAuthority.X509
