import CertAuthority.Proofs.X509.Redrafts

/-!
# Subject keys in certificates

A public key that was loaded keeps the bytes it came in. A certificate holds the same key in its
standard form. The two are compared byte by byte, so a key that came in any other form differs from
the one in its own certificate.

* `publicKey_of_signDraft` : the key in a certificate;
* `loaded_key_certified_iff` : it is the loaded one exactly where that is in the standard form;
* `loaded_key_reported` : a certificate that is due for replacement as soon as it is issued.
-/

namespace CertAuthority.X509

open Der

variable {m m' : Moment} {r r' : CertificateRequest} {signer signer' : SignerIdentity}
  {d d' : Draft} {key : PrivateKey} {digest : Option Digest} {c : Certificate} {k : PublicKey}

theorem publicKey_of_signDraft (hd : buildDraft m .certificate r k signer = .ok d)
    (hs : signDraft d key digest = .ok c) :
    ∃ skey, SubjectKey.ofEncoded k.encoded = .ok skey ∧
      c.info.publicKey = ⟨.x509, skey.algorithm, skey.encode⟩ := by
  obtain ⟨s, p, issuer, f, -, hkey, -, -, hinfo⟩ := signed_of_certificate hd hs
  exact ⟨p.key, hkey, by rw [hinfo]⟩

theorem publicKey_of_buildDraft (h : buildDraft m .certificate r k signer = .ok d) :
    d.info.publicKey = k ∧ d.info.artifact = .certificate := by
  obtain ⟨_, _, _, _, p, _, _, info, -, -, -, -, hrenders, hinfo, rfl⟩ :=
    renders_of_buildDraft_certificate h
  obtain rfl := Except.ok.inj (hrenders.info_eq.symm.trans hinfo)
  exact ⟨rfl, rfl⟩

/-- A key that was loaded is known by kind and algorithm, apart from its bytes. -/
theorem of_loadPublicKey {b : Bytes} {skey : SubjectKey} (h : loadPublicKey b = .ok k)
    (hkey : SubjectKey.ofEncoded k.encoded = .ok skey) :
    k = ⟨.x509, skey.algorithm, k.encoded⟩ := by
  simp only [loadPublicKey, Outcome.bind_eq_ok_iff] at h
  obtain ⟨der, -, found, hfound, h⟩ := h
  obtain rfl := Except.ok.inj h
  obtain rfl := Except.ok.inj (hfound.symm.trans hkey)
  rfl

/-- The key of an artifact is compared with the key that a draft is for. -/
theorem privateKey_changesFrom {existing : LoadedArtifact} {desired : Desired} {now : Instant}
    {threshold : Span} {changes : ChangeSet} (hkind : desired.draft.info.artifact = .certificate)
    (h : desired.changesFrom Backend.x509 existing now threshold = .ok changes) :
    changes.privateKey =
      (existing.certificate.info.publicKey != desired.draft.info.publicKey) := by
  rw [Desired.changesFrom, if_neg (by rw [hkind]; decide)] at h
  obtain ⟨expiration, -, rfl⟩ := Outcome.map_eq_ok_iff.1 h
  simp [Desired.differences, hkind]

/-- **The certified key is the loaded one if and only if that came in its standard form.** Whatever
bytes were accepted as a subject's key, the certificate issued for it carries the key in the form in
which certificates are written. It equals the loaded key, and detection against a draft for the same
key does not report it as changed, exactly where the loaded bytes are that form. -/
theorem loaded_key_certified_iff {b : Bytes} (hload : loadPublicKey b = .ok k)
    (hd : buildDraft m .certificate r k signer = .ok d) (hs : signDraft d key digest = .ok c) :
    ∃ skey, SubjectKey.ofEncoded k.encoded = .ok skey ∧
      c.info.publicKey = ⟨.x509, skey.algorithm, skey.encode⟩ ∧
      (c.info.publicKey = k ↔ k.encoded = skey.encode) ∧
      ∀ {m' : Moment} {r' : CertificateRequest} {signer' : SignerIdentity} {d' : Draft}
        {existing : LoadedArtifact} {desired : Desired} {now : Instant} {threshold : Span}
        {changes : ChangeSet},
        buildDraft m' .certificate r' k signer' = .ok d' → existing.certificate = c →
        desired.draft = d' →
        desired.changesFrom Backend.x509 existing now threshold = .ok changes →
        (changes.privateKey = false ↔ k.encoded = skey.encode) := by
  obtain ⟨skey, hkey, hcertified⟩ := publicKey_of_signDraft hd hs
  have hsame : c.info.publicKey = k ↔ k.encoded = skey.encode := by
    rw [hcertified]
    constructor
    · intro heq
      rw [← heq]
    · intro hencoded
      rw [of_loadPublicKey hload hkey, hencoded]
  refine ⟨skey, hkey, hcertified, hsame, ?_⟩
  intro m' r' signer' d' existing desired now threshold changes hd' hexisting hdraft hchanges
  obtain ⟨hwanted, hkind⟩ := publicKey_of_buildDraft hd'
  subst hexisting hdraft
  rw [privateKey_changesFrom hkind hchanges, hwanted, bne_eq_false_iff_eq]
  exact hsame

theorem loaded_key_certified_of_house :
    ∃ (h : HouseRun) (skey : SubjectKey), houseRun = .ok h ∧
      h.certificate.info.publicKey = ⟨.x509, skey.algorithm, skey.encode⟩ ∧
      (h.certificate.info.publicKey = h.subject ↔ h.subject.encoded = skey.encode) := by
  obtain ⟨h, hrun⟩ := Outcome.exists_eq_ok_of_isOk houseRun_isOk
  obtain ⟨hload, hd, hs, -, -⟩ := of_houseRun hrun
  obtain ⟨skey, -, hcertified, hsame, -⟩ := loaded_key_certified_iff hload hd hs
  exact ⟨h, skey, hrun, hcertified, hsame⟩

theorem loadPublicKey_spelledKey :
    loadPublicKey spelledKey = .ok ⟨.x509, .ed25519, spelledKey⟩ ∧
    SubjectKey.ofEncoded spelledKey = .ok ⟨.ed25519, List.replicate 32 9⟩ := by
  have hfirst : Armor.first? spelledKey = none := by with_unfolding_all decide
  have hread : ((KeyInfo.parser.parse? .tolerant spelledKey).bind fun k =>
      k.algorithm?.map fun a => (a, k.bits)) = some (.ed25519, List.replicate 32 9) := by
    with_unfolding_all decide
  have hkey : SubjectKey.ofEncoded spelledKey = .ok ⟨.ed25519, List.replicate 32 9⟩ := by
    rw [SubjectKey.ofEncoded, hread]
  refine ⟨?_, hkey⟩
  rw [loadPublicKey, unarmored, hfirst]
  simp only [Outcome.bind_eq_ok_iff]
  exact ⟨_, rfl, _, hkey, rfl⟩

/-- A certificate that is due for replacement a minute after it was issued, by one for the same
key: the loaded key has parameters, and the certified one has none. -/
theorem loaded_key_reported :
    ∃ (h : HouseRun) (changes : ChangeSet),
      loadPublicKey spelledKey = .ok h.subject ∧
      buildDraft ⟨.ofSeconds 0, []⟩ .certificate houseRequest h.subject ⟨h.signer, none⟩ =
        .ok h.draft ∧
      signDraft h.draft houseKey none = .ok h.certificate ∧
      buildDraft ⟨.ofSeconds 60, []⟩ .certificate houseRequest h.subject ⟨h.signer, none⟩ =
        .ok h.later ∧
      Desired.changesFrom Backend.x509 { certificate := h.certificate, encoding := .pem }
        { draft := h.later, encoding := .pem } (.ofSeconds 60) .zero = .ok changes ∧
      h.certificate.info.publicKey ≠ h.subject ∧ changes.privateKey = true := by
  obtain ⟨h, hrun⟩ := Outcome.exists_eq_ok_of_isOk houseRun_isOk
  obtain ⟨hload, hd, hs, hd', -⟩ := of_houseRun hrun
  obtain ⟨hloaded, hread⟩ := loadPublicKey_spelledKey
  have hsubject : h.subject = ⟨.x509, .ed25519, spelledKey⟩ :=
    Except.ok.inj (hload.symm.trans hloaded)
  obtain ⟨skey, hkey, hcertified⟩ := publicKey_of_signDraft hd hs
  have hstandard : skey = ⟨.ed25519, List.replicate 32 9⟩ := by
    rw [hsubject] at hkey
    exact Except.ok.inj (hkey.symm.trans hread)
  have hdiffers : h.certificate.info.publicKey ≠ h.subject := by
    rw [hcertified, hstandard, hsubject]
    decide +kernel
  obtain ⟨hwanted, hkind⟩ := publicKey_of_buildDraft hd'
  have hlimit : (Instant.plus? (.ofSeconds 60) .zero).isSome = true := by decide
  obtain ⟨_, hchanges⟩ := @Desired.exists_changesFrom_eq_ok Backend.x509
    { certificate := h.certificate, encoding := .pem } { draft := h.later, encoding := .pem } _ _
    (.inr hlimit)
  refine ⟨h, _, hload, hd, hs, hd', hchanges, hdiffers, ?_⟩
  rw [privateKey_changesFrom hkind hchanges, hwanted, bne_iff_ne]
  exact hdiffers

end CertAuthority.X509
