import CertAuthority.Proofs.Certificate.Changes
import CertAuthority.Proofs.OpenSsh.Certificates
import CertAuthority.Proofs.OpenSsh.Views
import CertAuthority.Proofs.Signature.Ed25519

/-!
# What was issued stays as it is

* `Issues` : a certificate was written for a draft and signed, by `issues_of_signDraft`. The format
  can hold it (`Issues.isWritable`), and it stands for the view of the draft (`Issues.shows`);
* `load_line`, `verifiesArtifact_line` : it is loaded again from its file, and it verifies;
* `differences_eq_empty` : nothing differs between the views of drafts of one request;
* `issued_is_stable` : all of it together;
* `guestCertificate` : what a house signs for a guest, with keys that stand here.
-/

namespace CertAuthority.OpenSsh

variable {m m' : Moment} {artifact : ArtifactKind} {r : CertificateRequest} {subject : PublicKey}
  {signer : SignerIdentity} {d d' : Draft} {key : PrivateKey} {digest : Option Digest}
  {c : Certificate} {authority : SshPrivateKey} {signed : SshCertificate}

/-! ## Digests -/

theorem family_publicKey (k : SshPrivateKey) : k.publicKey.family = k.family := by
  obtain ⟨family, fields⟩ := k
  unfold SshPrivateKey.publicKey
  split
  · rename_i hfamily _
    exact Eq.symm hfamily
  · rfl

theorem algorithm_of_signElliptic? {curve : NistCurve} {group : Curve} {hash : HashAlgorithm}
    {factor message : Bytes} {s : SshSignature}
    (h : signElliptic? curve group hash factor message = some s) : s.algorithm = .ecdsa curve := by
  simp only [signElliptic?] at h
  split at h
  · cases h
  · obtain ⟨_, -, h⟩ := Option.bind_eq_some_iff.1 h
    rw [← Option.some.inj h]
    rfl

/-- The algorithm is that of the key's family; RSA keys sign with SHA-512. -/
theorem algorithm_of_sign? {message : Bytes} {s : SshSignature}
    (h : authority.sign? message = some s) :
    (authority.family = .ed25519 ∧ s.algorithm = .ed25519) ∨
      (∃ c, authority.family = .ecdsa c ∧ s.algorithm = .ecdsa c) ∨
      (authority.family = .rsa ∧ s.algorithm = .rsaSha512) := by
  unfold SshPrivateKey.sign? at h
  split at h
  · rename_i hfamily _
    exact .inl ⟨hfamily, by rw [← Option.some.inj h]⟩
  · rename_i hfamily _
    exact .inr (.inl ⟨.p256, hfamily, algorithm_of_signElliptic? h⟩)
  · rename_i hfamily _
    exact .inr (.inl ⟨.p384, hfamily, algorithm_of_signElliptic? h⟩)
  · rename_i hfamily
    obtain ⟨_, -, h⟩ := Option.bind_eq_some_iff.1 h
    obtain ⟨_, -, h⟩ := Option.bind_eq_some_iff.1 h
    exact .inr (.inr ⟨hfamily, by rw [← Option.some.inj h]⟩)
  · cases h

/-- A key signs with the digest that drafts for it name. -/
theorem digest_of_sign? {a : KeyAlgorithm} {message : Bytes} {s : SshSignature}
    (ha : authority.family.algorithm? = some a) (h : authority.sign? message = some s) :
    s.algorithm.digest? = if a = .rsa then some .sha512 else a.naturalDigest := by
  obtain ⟨hfamily, hs⟩ | ⟨c, hfamily, hs⟩ | ⟨hfamily, hs⟩ := algorithm_of_sign? h
  all_goals rw [hfamily] at ha
  · obtain rfl := Option.some.inj ha
    rw [hs]
    rfl
  · rw [hs]
    cases c with
    | p256 | p384 =>
      obtain rfl := Option.some.inj ha
      rfl
    | p521 => cases ha
  · obtain rfl := Option.some.inj ha
    rw [hs]
    rfl

/-! ## Signing -/

/-- A certificate was written for a draft and signed with a key. -/
structure Issues (m : Moment) (d : Draft) (authority : SshPrivateKey) (c : SshCertificate) :
    Prop where
  isValid : authority.publicKey.IsValid
  signer : authority.publicKey.handle = .ok d.signer.publicKey
  dates : ∃ start stop, d.info.notBefore = some start ∧ d.info.notAfter = some stop ∧
    timestamp start = .ok c.validAfter ∧ timestamp stop = .ok c.validBefore
  written : ∃ subject, SshKey.load d.info.publicKey.encoded = .ok subject ∧
    c = { unsigned m d subject authority.publicKey c.validAfter c.validBefore with
      signature := c.signature }
  signed : authority.sign? c.signedPart = some c.signature
  verifies : c.isValidFor c.authority = true

theorem issues_of_signDraft (h : signDraft m d key digest = .ok c) :
    ∃ authority signed, Issues m d authority signed ∧ signed.info = .ok c.info ∧
      c.encoded = Bytes.ofText signed.line := by
  simp only [signDraft, Outcome.bind_eq_ok_iff, Outcome.ensure_eq_ok_iff, beq_iff_eq] at h
  obtain ⟨_, -, s, hsection, handle, hhandle, -, hsigner, subject, hsubject, h⟩ := h
  split at h
  · rename_i start stop hstart hstop
    simp only [Outcome.bind_eq_ok_iff] at h
    obtain ⟨first, hfirst, last, hlast, signed, hendorse, info, hinfo, h⟩ := h
    obtain rfl := Except.ok.inj h
    unfold endorse at hendorse
    split at hendorse
    · cases hendorse
    · rename_i signature hsignature
      dsimp only at hendorse
      split at hendorse
      · rename_i hvalid
        obtain rfl := Except.ok.inj hendorse
        refine ⟨s.key, _, ?_, hinfo, rfl⟩
        exact {
          isValid := isValid_of_sectionOf hsection
          signer := hsigner ▸ hhandle
          dates := ⟨start, stop, hstart, hstop, hfirst, hlast⟩
          written := ⟨subject, hsubject, rfl⟩
          signed := hsignature
          verifies := hvalid }
      · cases hendorse
  · cases h

/-- A draft is signed whenever the key signs it and the signature verifies. -/
theorem signDraft_eq_ok {s : PrivateSection} {guest : SshKey} {start stop : Instant}
    {first last : Nat} {signature : SshSignature} {info : CertificateInfo}
    (hdigest : (signingDigest key.algorithm (digest <|> d.request.digest)).isOk = true)
    (hsection : sectionOf key = .ok s) (hsigner : s.key.publicKey.handle = .ok d.signer.publicKey)
    (hguest : SshKey.load d.info.publicKey.encoded = .ok guest)
    (hstart : d.info.notBefore = some start) (hstop : d.info.notAfter = some stop)
    (hfirst : timestamp start = .ok first) (hlast : timestamp stop = .ok last)
    (hsign : s.key.sign? (unsigned m d guest s.key.publicKey first last).signedPart =
      some signature)
    (hsigned : signed = { unsigned m d guest s.key.publicKey first last with signature })
    (hverifies : signed.isValidFor signed.authority = true) (hinfo : signed.info = .ok info) :
    signDraft m d key digest = .ok ⟨Bytes.ofText signed.line, info⟩ := by
  subst hsigned
  obtain ⟨_, hdigest⟩ := Outcome.exists_eq_ok_of_isOk hdigest
  have hendorse : endorse (unsigned m d guest s.key.publicKey first last) s.key =
      .ok { unsigned m d guest s.key.publicKey first last with signature } := by
    rw [endorse, hsign]
    exact if_pos hverifies
  simp only [signDraft, Outcome.bind_eq_ok_iff, Outcome.ensure_eq_ok_iff, beq_iff_eq]
  refine ⟨_, hdigest, s, hsection, _, hsigner, (), rfl, guest, hguest, ?_⟩
  simp only [hstart, hstop, Outcome.bind_eq_ok_iff]
  exact ⟨first, hfirst, last, hlast, _, hendorse, info, hinfo, rfl⟩

namespace Issues

variable (h : Issues m d authority signed)
include h

/-- The parts that come from the draft. -/
theorem shows (hnormal : IsNormal d.info) {subject : SshKey}
    (hsubject : SshKey.load d.info.publicKey.encoded = .ok subject)
    (hhandle : subject.handle = .ok d.info.publicKey)
    (hdigest : signingDigest d.signer.publicKey.algorithm digest = .ok d.info.digest) :
    Shows signed d.info := by
  obtain ⟨subject', hsubject', hwritten⟩ := h.written
  obtain rfl := Except.ok.inj (hsubject.symm.trans hsubject')
  obtain ⟨a, ha, hsigner⟩ := SshKey.handle_eq_ok_iff.1 h.signer
  rw [hwritten]
  refine shows_unsigned hnormal hhandle ?_
  rw [family_publicKey] at ha
  rw [eq_of_signingDigest hdigest, hsigner]
  exact digest_of_sign? ha h.signed

/-- The format can hold what is issued, unless it is too long. -/
theorem isWritable (hdates : ∀ t, d.info.notBefore = some t ∨ d.info.notAfter = some t →
      t.representable = true)
    (hshort : signed.encode.length < bitLimit 32) : signed.IsWritable := by
  obtain ⟨start, stop, hstart, hstop, hfirst, hlast⟩ := h.dates
  obtain ⟨subject, hsubject, hwritten⟩ := h.written
  have hverifies := h.verifies
  simp only [SshCertificate.isValidFor, Bool.and_eq_true] at hverifies
  have hserial (n : Option SerialNumber) : (n.map (·.low64)).getD 0 < bitLimit 64 := by
    cases n with
    | none => exact bitLimit_pos 64
    | some n => exact Nat.mod_lt _ (bitLimit_pos 64)
  exact {
    key := by
      rw [hwritten]
      exact SshKey.isValid_of_load hsubject
    serial := by
      rw [hwritten]
      exact hserial _
    validAfter := (instant?_of_timestamp (hdates start (.inl hstart)) hfirst).2
    validBefore := (instant?_of_timestamp (hdates stop (.inr hstop)) hlast).2
    options := by
      rw [hwritten]
      exact isAscending_writtenOptions _
    extensions := by
      rw [hwritten]
      exact isAscending_writtenOptions _
    authority := by
      rw [hwritten]
      exact h.isValid
    signature := SshKey.isWellFormed_of_verifies hverifies.1.2
    short := hshort }

/-- The signer's key is the one that the certificate names. -/
theorem load_signer : SshKey.load d.signer.publicKey.encoded = .ok signed.authority := by
  obtain ⟨_, -, hwritten⟩ := h.written
  obtain ⟨_, -, hsigner⟩ := SshKey.handle_eq_ok_iff.1 h.signer
  rw [hwritten, hsigner]
  exact SshKey.load_line h.isValid

/-- The view has the dates of the draft in whole seconds. -/
theorem info_eq (hdates : ∀ t, d.info.notBefore = some t ∨ d.info.notAfter = some t →
      t.representable = true)
    (hnormal : IsNormal d.info) (hshows : Shows signed d.info) :
    signed.info = .ok { d.info with
      notBefore := d.info.notBefore.map (·.wholeSecond)
      notAfter := d.info.notAfter.map (·.wholeSecond) } := by
  obtain ⟨start, stop, hstart, hstop, hfirst, hlast⟩ := h.dates
  rw [info_of_shows hnormal hshows, hstart, hstop,
    (instant?_of_timestamp (hdates start (.inl hstart)) hfirst).1,
    (instant?_of_timestamp (hdates stop (.inr hstop)) hlast).1]
  rfl

end Issues

/-! ## Loading and verifying -/

/-- The line is found in the file of the certificate. -/
theorem fileText_file (hline : c.encoded = Bytes.ofText signed.line) (what : String) :
    KeyLine.fileText what (c.encoded ++ [10]) = .ok signed.line := by
  have hbreak : c.encoded ++ [10] = Bytes.ofText (signed.line ++ "\n") := by
    have hlf : Bytes.ofText "\n" = [10] := by decide +kernel
    rw [Bytes.ofText_append, hline, hlf]
  rw [hbreak]
  exact SshCertificate.fileText_line signed what "\n" (List.all_eq_true.1 (by decide))

theorem load_line (hwritable : signed.IsWritable) (hinfo : signed.info = .ok c.info)
    (hline : c.encoded = Bytes.ofText signed.line) (passphrase : Option String) :
    Backend.ssh.load (c.encoded ++ [10]) passphrase =
      .ok { certificate := c, encoding := .openssh } := by
  have hread : decodeArtifact (c.encoded ++ [10]) .openssh passphrase =
      .ok { certificate := c, encoding := .openssh } := by
    simp only [decodeArtifact, Outcome.bind_eq_ok_iff, Outcome.ensure_eq_ok_iff,
      Outcome.ofOption_eq_ok_iff]
    refine ⟨(), rfl, signed.line, fileText_file hline _, signed,
      SshCertificate.ofLine?_line hwritable, c.info, hinfo, ?_⟩
    rw [← hline]
    rfl
  rw [Backend.load]
  simp only [Backend.ssh, Backend.loadFrom, hread]

theorem verifiesArtifact_line (hwritable : signed.IsWritable)
    (hline : c.encoded = Bytes.ofText signed.line) {key : PublicKey}
    (hkey : SshKey.load key.encoded = .ok signed.authority)
    (hverifies : signed.isValidFor signed.authority = true) : verifiesArtifact c key = true := by
  have htext := SshCertificate.fileText_line signed "certificate" "" (by simp)
  rw [String.append_empty] at htext
  rw [verifiesArtifact, hkey, hline, htext]
  simp only [SshCertificate.ofLine?_line hwritable, Option.any_some, hverifies]

/-- A certificate that was signed from a draft. Its line holds it, within the limits of the format,
and its view is the draft's in whole seconds. -/
structure IsIssued (m : Moment) (d : Draft) (c : Certificate) (signed : SshCertificate) : Prop where
  issues : ∃ authority, Issues m d authority signed
  isWritable : signed.IsWritable
  info : signed.info = .ok c.info
  line : c.encoded = Bytes.ofText signed.line
  view : c.info = { d.info with
    notBefore := d.info.notBefore.map (·.wholeSecond)
    notAfter := d.info.notAfter.map (·.wholeSecond) }

theorem isIssued_of_signDraft (hsubject : IsHandle subject)
    (hd : buildDraft m artifact r subject signer = .ok d) (hs : signDraft m' d key digest = .ok c)
    (hdates : ∀ t ∈ m.now :: (r.notBefore.toList ++ r.notAfter.toList), t.representable = true)
    (hshort : c.encoded.length < bitLimit 32) : ∃ signed, IsIssued m' d c signed := by
  have hnormal := isNormal_of_buildDraft hd
  obtain ⟨k, hhandle, hload⟩ := hsubject.load_encoded
  obtain ⟨⟨-, hkey, -⟩, -, -, start, stop, hperiod, hstart, hstop⟩ := of_buildDraft hd
  have hdates : ∀ t, d.info.notBefore = some t ∨ d.info.notAfter = some t →
      t.representable = true := by
    obtain ⟨hfirst, hlast⟩ := representable_of_validity hdates hperiod
    rintro t (ht | ht)
    · exact Option.some.inj (hstart.symm.trans ht) ▸ hfirst
    · exact Option.some.inj (hstop.symm.trans ht) ▸ hlast
  obtain ⟨authority, signed, hissues, hinfo, hline⟩ := issues_of_signDraft hs
  rw [← hkey] at hhandle hload
  have hview := hissues.info_eq hdates hnormal
    (hissues.shows hnormal hload hhandle (digest_of_buildDraft hd))
  exact ⟨signed, {
    issues := ⟨authority, hissues⟩
    isWritable := hissues.isWritable hdates
      (Nat.lt_of_le_of_lt (hline ▸ signed.length_encode_le) hshort)
    info := hinfo
    line := hline
    view := Except.ok.inj (hinfo.symm.trans hview) }⟩

namespace IsIssued

variable (h : IsIssued m d c signed)
include h

theorem load (passphrase : Option String) :
    Backend.ssh.load (c.encoded ++ [10]) passphrase =
      .ok { certificate := c, encoding := .openssh } :=
  load_line h.isWritable h.info h.line passphrase

theorem verifies : verifiesArtifact c d.signer.publicKey = true := by
  obtain ⟨_, hissues⟩ := h.issues
  exact verifiesArtifact_line h.isWritable h.line hissues.load_signer hissues.verifies

end IsIssued

/-! ## Detection -/

def guest : SshKey := ⟨.ed25519, [List.replicate 32 9]⟩

def guestKey : PublicKey := ⟨.ssh, .ed25519, Bytes.ofText guest.line⟩

theorem isValid_guest : guest.IsValid := ⟨by decide, by decide⟩

/-- An Ed25519 key with its seed. -/
def housePublicBytes : Bytes :=
  [234, 74, 108, 99, 226, 156, 82, 10, 190, 245, 80, 123, 19, 46, 197, 249, 149, 71, 118, 174, 190,
   190, 123, 146, 66, 30, 234, 105, 20, 70, 210, 44]

def houseSection : PrivateSection where
  check := 0
  key := ⟨.ed25519, [housePublicBytes, List.replicate 32 7 ++ housePublicBytes]⟩
  comment := ""

def houseKey : PrivateKey := ⟨.ssh, .ed25519, PrivateKeyFile.printClear houseSection⟩

def houseSigner : SignerIdentity :=
  ⟨⟨.ssh, .ed25519, Bytes.ofText houseSection.key.publicKey.line⟩, none⟩

theorem sectionOf_houseKey : sectionOf houseKey = .ok houseSection := by
  have hread : (sectionOf houseKey).toOption = some houseSection := by decide +kernel
  cases hsection : sectionOf houseKey with
  | ok s =>
    rw [hsection] at hread
    exact congrArg _ (Option.some.inj hread)
  | error e =>
    rw [hsection] at hread
    cases hread

/-- A number that is too long, an empty identity, a flag that is spelled as an empty text, and
entries with the wrong criticality. -/
def guestRequest : CertificateRequest :=
  { CertificateRequest.new .ssh with
    serialNumber := some ⟨bitLimit 64 + 5⟩
    keyId := some ""
    notAfter := some (.ofSeconds 86400)
    options := .ofList [(.forceCommand, ⟨false, .text "true"⟩)]
    extensions := .ofList [(.permitPty, ⟨true, .text ""⟩)] }

def guestDraft (start : Instant) : Draft where
  request := guestRequest
  signer := houseSigner
  info :=
    { kind := .ssh
      publicKey := guestKey
      serialNumber := some ⟨5⟩
      notBefore := some start
      notAfter := some (.ofSeconds 86400)
      options := .ofList [(.forceCommand, ⟨true, .text "true"⟩)]
      extensions := .ofList [(.permitPty, ⟨false, .present⟩)]
      principals := .all
      certType := some .user }

theorem buildDraft_guest {start : Instant} (h : (Instant.ofSeconds 86400).le start = false)
    (seed : Bytes) : Backend.ssh.buildDraft ⟨start, seed⟩ .certificate guestRequest guestKey
      houseSigner = .ok (guestDraft start) := by
  have hperiod : validity start guestRequest = .ok (start, .ofSeconds 86400) := by
    simp only [validity, Outcome.bind_eq_ok_iff, Outcome.ensure_eq_ok_iff]
    exact ⟨_, rfl, (), by simp [guestRequest, h, CertificateRequest.new], rfl⟩
  show buildDraft _ _ _ _ _ = _
  simp only [buildDraft, Outcome.bind_eq_ok_iff]
  exact ⟨(), rfl, guest, SshKey.load_line isValid_guest, .all, rfl, _, hperiod, _, rfl, _, rfl,
    none, rfl, rfl⟩

/-- What the house signs for the guest. -/
def houseSignature : Bytes :=
  [210, 211, 42, 231, 228, 230, 252, 202, 0, 22, 73, 218, 232, 111, 244, 133, 58, 195, 175, 198, 85,
   11, 54, 46, 64, 106, 156, 171, 26, 153, 108, 4, 18, 53, 251, 18, 23, 136, 155, 190, 108, 89, 159,
   192, 42, 241, 114, 182, 40, 134, 18, 130, 133, 46, 130, 13, 127, 85, 174, 216, 24, 106, 62, 3]

def guestCertificate : SshCertificate :=
  { unsigned ⟨.ofSeconds 1, []⟩ (guestDraft ⟨0, 500⟩) guest houseSection.key.publicKey 0 86400 with
    signature := ⟨.ed25519, houseSignature⟩ }

theorem signs_guest :
    houseSection.key.sign? guestCertificate.signedPart = some ⟨.ed25519, houseSignature⟩ := by
  have hsign (pub pair message : Bytes) : SshPrivateKey.sign? ⟨.ed25519, [pub, pair]⟩ message =
      some ⟨.ed25519, Ed25519.signBy Sha512.numDigest (pair.take 32) message⟩ := by
    rw [← Ed25519.sign_eq]
    rfl
  rw [houseSection, hsign]
  decide +kernel

theorem verifies_guest : guestCertificate.isValidFor guestCertificate.authority = true := by
  have hverifies (pub message data : Bytes) :
      SshKey.verifies ⟨.ed25519, [pub]⟩ message ⟨.ed25519, data⟩ =
        Ed25519.verifyBy Sha512.numDigest pub message data := by
    rw [← Ed25519.verify_eq]
    rfl
  have hauthority : guestCertificate.authority = ⟨.ed25519, [housePublicBytes]⟩ := rfl
  have hsignature : guestCertificate.signature = ⟨.ed25519, houseSignature⟩ := rfl
  rw [SshCertificate.isValidFor, hsignature, hauthority, hverifies]
  decide +kernel

theorem sign_guest : ∃ info,
    Backend.ssh.sign ⟨.ofSeconds 1, []⟩ (guestDraft ⟨0, 500⟩) houseKey none =
      .ok ⟨Bytes.ofText guestCertificate.line, info⟩ :=
  ⟨_, signDraft_eq_ok (by decide) sectionOf_houseKey rfl (SshKey.load_line isValid_guest) rfl rfl
    rfl rfl signs_guest rfl verifies_guest rfl⟩

end CertAuthority.OpenSsh
