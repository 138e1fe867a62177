import CertAuthority.Proofs.Certificate.Changes
import CertAuthority.Proofs.OpenSsh.Stability
import CertAuthority.Proofs.X509.Loading

/-!
# What nodes hand each other

A requester sends a public key, and gets a certificate back. Both are text on the way, and both
sides go on with the same handles.

* `CertificateKind.loadPublicKey_encodePublicKey` : a key arrives as it was sent;
* `CertificateKind.IsIssued` : what is known of a certificate that was signed from a draft, by
  `isIssued_of_sign`. It arrives as it was signed as well;
* `CertificateKind.sameBody_of_buildDraft`, `digest_eq_iff` : how drafts of one content on two
  sides can still differ;
* `Desired.differences_of_sameBody` : what detection makes of that.
-/

namespace CertAuthority

/-! ## Detection -/

/-- The artifact is in the container that is wanted. -/
structure LoadedArtifact.IsAsWanted (a : LoadedArtifact) (d : Desired) : Prop where
  encoding : a.encoding = d.encoding
  chain : sameChain a.encoding.keepsOrder a.chain d.chain = true
  friendlyName : d.encoding = .pkcs12 → a.friendlyName = d.friendlyName
  passphrase : d.encoding = .pkcs12 → a.isProtected = d.passphrase.isSome

/-- A certificate of a draft, seen against another draft for the same content: there is nothing to
see but the key and the digest. -/
theorem Desired.differences_of_sameBody {b : Backend} {existing : LoadedArtifact} {d : Desired}
    {y : Draft} (hbody : d.draft.SameBody y) (hkind : y.info.artifact = .certificate)
    (hview : existing.certificate.info = { y.info with
      publicKey := existing.certificate.info.publicKey
      notBefore := existing.certificate.info.notBefore
      notAfter := existing.certificate.info.notAfter })
    (hverifies : b.verifies existing.certificate d.draft.signer.publicKey = true)
    (hwanted : existing.IsAsWanted d) :
    d.differences b existing false =
      { privateKey := existing.certificate.info.publicKey != d.draft.info.publicKey
        digest := y.info.digest != d.draft.info.digest } := by
  have hnumber : (d.draft.request.serialNumber.isSome &&
      existing.certificate.info.serialNumber != d.draft.info.serialNumber) = false := by
    cases hnumbered : d.draft.request.serialNumber.isSome with
    | false => rfl
    | true => simp [congrArg CertificateInfo.serialNumber hview, hbody.serialNumber hnumbered]
  have hname : (d.encoding == .pkcs12 && existing.friendlyName != d.friendlyName) = false := by
    by_cases hstore : d.encoding = .pkcs12
    · simp [hwanted.friendlyName hstore]
    · simp [hstore]
  have hprotected :
      (d.encoding == .pkcs12 && existing.isProtected != d.passphrase.isSome) = false := by
    by_cases hstore : d.encoding = .pkcs12
    · simp [hwanted.passphrase hstore]
    · simp [hstore]
  have hchain : sameChain d.encoding.keepsOrder existing.chain d.chain = true := by
    rw [← hwanted.encoding]
    exact hwanted.chain
  simp only [Desired.differences, hnumber, hverifies, hwanted.encoding, hchain, Bool.and_self,
    hname, hprotected, hbody.artifact, hkind, hbody.subject, hbody.issuer, hbody.keyId,
    hbody.certType, hbody.principals, hbody.extensions, hbody.options,
    congrArg CertificateInfo.digest hview, congrArg CertificateInfo.subject hview,
    congrArg CertificateInfo.issuer hview, congrArg CertificateInfo.keyId hview,
    congrArg CertificateInfo.certType hview, congrArg CertificateInfo.principals hview,
    congrArg CertificateInfo.extensions hview, congrArg CertificateInfo.options hview,
    principalsDiff_self, ExtensionDiff.between_self]
  simp

/-- A key other than an RSA key has one digest, whatever is asked for. -/
theorem X509.SignatureAlgorithm.digest?_eq_iff {a : KeyAlgorithm} {asked : Digest}
    {chosen natural : SignatureAlgorithm} (h : choose a (some asked) = .ok chosen)
    (hnatural : choose a none = .ok natural) :
    chosen.digest? = natural.digest? ↔ (a = .rsa → asked = .sha256) := by
  cases a <;> cases asked <;> cases h <;> cases hnatural <;> decide

namespace CertificateKind

variable {kind : CertificateKind} {k : PublicKey} {key : PrivateKey} {b : Bytes} {c : Certificate}
  {passphrase : Option String}

/-! ## Public keys -/

/-- The handles of public keys, wherever they come from. -/
def IsHandle : CertificateKind → PublicKey → Prop
  | .x509 => X509.IsHandle
  | .ssh => OpenSsh.IsHandle

theorem isHandle_of_loadPublicKey (h : kind.backend.loadPublicKey b = .ok k) : kind.IsHandle k := by
  cases kind with
  | x509 => exact X509.isHandle_of_loadPublicKey h
  | ssh => exact OpenSsh.isHandle_of_loadPublicKey h

theorem isHandle_of_derivePublicKey (hload : kind.backend.loadPrivateKey b passphrase = .ok key)
    (h : kind.backend.derivePublicKey key = .ok k) : kind.IsHandle k := by
  cases kind with
  | x509 => exact X509.isHandle_of_derivePublicKey hload h
  | ssh => exact OpenSsh.isHandle_of_derivePublicKey h

theorem isHandle_of_loadCsr (h : kind.backend.loadCsr b = .ok c) :
    kind.IsHandle c.info.publicKey := by
  cases kind with
  | x509 => exact X509.isHandle_of_loadRequest h
  | ssh => cases h

/-- A key is the same wherever it is loaded. -/
theorem loadPublicKey_encodePublicKey (h : kind.IsHandle k) :
    ∃ data, kind.backend.encodePublicKey k = .ok data ∧ kind.backend.loadPublicKey data = .ok k := by
  cases kind with
  | x509 => exact ⟨_, rfl, X509.loadPublicKey_encodePublicKey h⟩
  | ssh => exact ⟨_, rfl, OpenSsh.loadPublicKey_encodePublicKey h⟩

/-- The key is written as certificates hold it. -/
def IsStandard (kind : CertificateKind) (k : PublicKey) : Prop :=
  kind = .x509 → ∀ skey, X509.SubjectKey.ofEncoded k.encoded = .ok skey → k.encoded = skey.encode

instance (k : PublicKey) : Decidable (kind.IsStandard k) :=
  match h : X509.SubjectKey.ofEncoded k.encoded with
  | .ok skey => decidable_of_iff (kind = .x509 → k.encoded = skey.encode)
      ⟨fun hsame hkind _ hfound => Except.ok.inj (h.symm.trans hfound) ▸ hsame hkind,
        fun hstandard hkind => hstandard hkind skey h⟩
  | .error _ => .isTrue fun _ _ hfound => by cases h.symm.trans hfound

/-! ## Drafts -/

variable {m m' : Moment} {r r' : CertificateRequest} {subject : PublicKey}
  {signer : SignerIdentity} {d d' : Draft}

theorem sameBody_of_buildDraft (hr : r.SameContent r')
    (hd : kind.backend.buildDraft m .certificate r subject signer = .ok d)
    (hd' : kind.backend.buildDraft m' .certificate r' subject signer = .ok d') : d.SameBody d' := by
  cases kind with
  | x509 => exact X509.sameBody_of_buildDraft hr hd hd'
  | ssh => exact (OpenSsh.alike_of_buildDraft hr hd hd').toSameBody

theorem artifact_of_buildDraft
    (hd : kind.backend.buildDraft m .certificate r subject signer = .ok d) :
    d.info.artifact = .certificate := by
  cases kind with
  | x509 => exact (X509.publicKey_of_buildDraft hd).2
  | ssh => exact (OpenSsh.isNormal_of_buildDraft hd).artifact

/-- Where a request names no digest, one that a side fills in makes no difference: keys of most
kinds have a digest of their own, and RSA keys of X.509 sign with SHA-256. -/
def KeepsDigest (kind : CertificateKind) (named filled : Option Digest) (signer : PublicKey) :
    Prop :=
  kind = .x509 → named = none → signer.algorithm = .rsa → ∀ digest ∈ filled, digest = .sha256

instance (named filled : Option Digest) (signer : PublicKey) :
    Decidable (kind.KeepsDigest named filled signer) := by
  unfold KeepsDigest
  infer_instance

theorem digest_eq_iff {filled : Option Digest}
    (hdigest : r.digest = if kind = .x509 then r'.digest <|> filled else r'.digest)
    (hd : kind.backend.buildDraft m .certificate r subject signer = .ok d)
    (hd' : kind.backend.buildDraft m' .certificate r' subject signer = .ok d') :
    d.info.digest = d'.info.digest ↔ kind.KeepsDigest r'.digest filled signer.publicKey := by
  cases kind with
  | ssh =>
    obtain ⟨⟨-, -, hsigner⟩, -⟩ := OpenSsh.of_buildDraft hd
    obtain ⟨⟨-, -, hsigner'⟩, -⟩ := OpenSsh.of_buildDraft hd'
    refine iff_of_true ?_ nofun
    rw [OpenSsh.eq_of_signingDigest (OpenSsh.digest_of_buildDraft hd),
      OpenSsh.eq_of_signingDigest (OpenSsh.digest_of_buildDraft hd'), hsigner, hsigner']
  | x509 =>
    obtain ⟨-, -, -, -, a, ha, hnamed⟩ := X509.digest_of_buildDraft hd
    obtain ⟨-, -, -, -, a', ha', hnamed'⟩ := X509.digest_of_buildDraft hd'
    have hsigned : X509.signedWith .certificate subject signer = signer.publicKey := if_neg nofun
    rw [hsigned, hdigest, if_pos rfl] at ha
    rw [hsigned] at ha'
    rw [hnamed, hnamed', KeepsDigest]
    cases hrequested : r'.digest with
    | some named =>
      rw [hrequested] at ha ha'
      rw [Except.ok.inj (ha.symm.trans ha')]
      simp
    | none =>
      rw [hrequested] at ha ha'
      cases filled with
      | none =>
        rw [Except.ok.inj (ha.symm.trans ha')]
        simp
      | some digest => simpa using X509.SignatureAlgorithm.digest?_eq_iff ha ha'

/-! ## Certificates -/

/-- What is relied on about a signature. An X.509 signature verifies with the key it was made with;
OpenSSH checks that when signing, but its format has no room for very long certificates. -/
structure Endorses (kind : CertificateKind) (key : PrivateKey) (c : Certificate) : Prop where
  confirms : kind = .x509 → ∀ part, X509.signedPart? c.encoded = some part → key.Confirms part
  short : kind = .ssh → c.encoded.length < bitLimit 32

theorem Endorses.of_encoded {c' : Certificate} (h : kind.Endorses key c)
    (heq : c'.encoded = c.encoded) : kind.Endorses key c' :=
  ⟨heq ▸ h.confirms, heq ▸ h.short⟩

/-- The bytes of a certificate arrive as they were signed. -/
theorem encoded_of_load {digest : Option Digest} {data : Bytes} {a : LoadedArtifact} {m₂ : Moment}
    (hd : kind.backend.buildDraft m .certificate r subject signer = .ok d)
    (hs : kind.backend.sign m' d key digest = .ok c)
    (hdata : kind.backend.encode m₂ c kind.backend.defaultEncoding {} = .ok data)
    (hload : kind.backend.load data passphrase = .ok a) : a.certificate.encoded = c.encoded := by
  cases kind with
  | x509 =>
    have hstored := X509.isStored_of_signDraft hd hs
    obtain ⟨_, hencode, hloaded⟩ := X509.load_encodeArtifact m₂ hstored (o := {}) (by simp) passphrase
    obtain rfl := Except.ok.inj (hdata.symm.trans hencode)
    obtain rfl := Except.ok.inj (hload.symm.trans hloaded)
    rfl
  | ssh =>
    obtain ⟨_, signed, -, -, hline⟩ := OpenSsh.issues_of_signDraft hs
    obtain rfl : c.encoded ++ [10] = data := Except.ok.inj hdata
    obtain ⟨_, -, hdecode⟩ := Backend.exists_of_load hload
    have hdecode : OpenSsh.decodeArtifact (c.encoded ++ [10]) _ passphrase = .ok a := hdecode
    simp only [OpenSsh.decodeArtifact, Outcome.bind_eq_ok_iff] at hdecode
    obtain ⟨_, -, line, htext, _, -, _, -, ha⟩ := hdecode
    obtain rfl := Except.ok.inj ((OpenSsh.fileText_file hline _).symm.trans htext)
    rw [← Except.ok.inj ha, hline]

/-- What is known of a certificate that was signed from a draft. -/
structure IsIssued (kind : CertificateKind) (d : Draft) (c : Certificate) : Prop where
  artifact : d.info.artifact = .certificate
  view : c.info = { d.info with
    publicKey := c.info.publicKey
    notBefore := c.info.notBefore
    notAfter := c.info.notAfter }
  publicKey : c.info.publicKey = d.info.publicKey ↔ kind.IsStandard d.info.publicKey
  verifies : kind.backend.verifies c d.signer.publicKey = true
  loads : ∀ m data passphrase,
    kind.backend.encode m c kind.backend.defaultEncoding {} = .ok data →
    ∃ a, kind.backend.load data passphrase = .ok a ∧ a.certificate = c

theorem isIssued_of_sign (hsubject : kind.IsHandle subject)
    (hd : kind.backend.buildDraft m .certificate r subject signer = .ok d)
    (hs : kind.backend.sign m' d key r.digest = .ok c)
    (hdates : ∀ t ∈ m.now :: (r.notBefore.toList ++ r.notAfter.toList), t.representable = true)
    (hendorses : kind.Endorses key c) : kind.IsIssued d c := by
  cases kind with
  | x509 =>
    have hd : X509.buildDraft m .certificate r subject signer = .ok d := hd
    have hs : X509.signDraft d key r.digest = .ok c := hs
    obtain ⟨-, hsigner, -, hkind, -⟩ := X509.digest_of_buildDraft hd
    obtain ⟨hkey, -⟩ := X509.publicKey_of_buildDraft hd
    have hview := X509.view_eq_of_signDraft hd hs (.inr rfl)
    refine ⟨hkind, by rw [hview], ?_, ?_, ?_⟩
    · rw [hkey, X509.certified_iff_of_isHandle hsubject hd hs]
      exact ⟨fun h _ => h, fun h => h rfl⟩
    · rw [hsigner]
      exact X509.verifies_of_signDraft (by decide) hd hs (hendorses.confirms rfl)
    · intro m data passphrase hdata
      obtain ⟨data', hencode, hload⟩ :=
        X509.load_encodeArtifact m (X509.isStored_of_signDraft hd hs) (o := {}) (by simp) passphrase
      obtain rfl := Except.ok.inj (hdata.symm.trans hencode)
      exact ⟨_, hload, rfl⟩
  | ssh =>
    have hd : OpenSsh.buildDraft m .certificate r subject signer = .ok d := hd
    obtain ⟨⟨-, hkey, -⟩, -⟩ := OpenSsh.of_buildDraft hd
    obtain ⟨signed, hissued⟩ :=
      OpenSsh.isIssued_of_signDraft hsubject hd hs hdates (hendorses.short rfl)
    refine ⟨(OpenSsh.isNormal_of_buildDraft hd).artifact, by rw [hissued.view], ?_, ?_, ?_⟩
    · exact iff_of_true (by rw [hissued.view]) nofun
    · exact hissued.verifies
    · intro m data passphrase hdata
      obtain rfl := Except.ok.inj hdata
      exact ⟨_, hissued.load passphrase, rfl⟩

end CertificateKind
end CertAuthority
