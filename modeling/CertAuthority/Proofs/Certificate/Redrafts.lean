import CertAuthority.Proofs.OpenSsh.Views
import CertAuthority.Proofs.X509.Redrafts

/-!
# Drafts of one request

A request may name other dates on every run. Drafts are rendered with them and with fresh random
numbers, and the compared names and extensions are read back from that rendering.

* `CertificateRequest.withDates` : the same request for other dates;
* `CertificateKind.alike_of_buildDraft` : its drafts are told apart by nothing that is compared;
* `changesFrom_withDates` : so detection answers the same;
* `draftedTwice` : two drafts of one request, for different dates and with different numbers.

A certificate whose request names no number is drafted with a random one. Nothing else in a draft is
random, and no draft fails for a number: random numbers of X.509 all have the same width, so what
is rendered with one can be read back if it can with another.

* `X509.CertificateForm.exists_parse?` : reading a certificate that has another number of that
  width;
* `CertificateKind.exists_buildDraft` : at one time a request is drafted with whatever random bytes,
  and the drafts are told apart by nothing that is compared.
-/

namespace CertAuthority

variable {m m' : Moment} {artifact : ArtifactKind} {r : CertificateRequest} {subject : PublicKey}
  {signer : SignerIdentity} {d d' : Draft} {k : CertificateKind} {start stop : Option Instant}
  {ttl : Option Nat}

namespace CertificateRequest

def withDates (r : CertificateRequest) (notBefore notAfter : Option Instant) (ttl : Option Nat) :
    CertificateRequest :=
  { r with notBefore, notAfter, ttl }

theorem sameContent_withDates (r : CertificateRequest) (start stop : Option Instant)
    (ttl : Option Nat) : r.SameContent (r.withDates start stop ttl) := by
  constructor <;> rfl

end CertificateRequest

/-! ## Drafts -/

theorem X509.alike_of_buildDraft (hd : buildDraft m artifact r subject signer = .ok d)
    (hd' : buildDraft m' artifact (r.withDates start stop ttl) subject signer = .ok d')
    (hkept : artifact = .crl → ∀ e ∈ r.revoked,
      isKept r (r.notBefore.getD m.now) e = isKept r (start.getD m'.now) e) : d.Alike d' := by
  have hbody : d.SameBody d' :=
    sameBody_of_buildDraft (r.sameContent_withDates start stop ttl) hd hd'
  obtain ⟨-, hsigner, -, hkind, a, ha, hnamed⟩ := digest_of_buildDraft hd
  obtain ⟨-, hsigner', -, -, a', ha', hnamed'⟩ := digest_of_buildDraft hd'
  exact { hbody with
    signer := by rw [hsigner, hsigner']
    digest := by rw [hnamed, hnamed', Except.ok.inj (ha.symm.trans ha')]
    revoked := fun hcrl => by
      obtain rfl : artifact = .crl := hkind.symm.trans hcrl
      exact undated_revoked_of_buildDraft hd hd' rfl (hkept rfl) }

theorem CertificateKind.alike_of_buildDraft
    (hd : k.backend.buildDraft m artifact r subject signer = .ok d)
    (hd' : k.backend.buildDraft m' artifact (r.withDates start stop ttl) subject signer = .ok d')
    (hkept : artifact = .crl → ∀ e ∈ r.revoked,
      X509.isKept r (r.notBefore.getD m.now) e = X509.isKept r (start.getD m'.now) e) :
    d.Alike d' := by
  cases k with
  | x509 => exact X509.alike_of_buildDraft hd hd' hkept
  | ssh => exact OpenSsh.alike_of_buildDraft (r.sameContent_withDates start stop ttl) hd hd'

/-- Without a requested number it does not matter which number a draft has. -/
theorem Draft.alike_of_serialNumber (h : d.request.serialNumber = none) (s : Option SerialNumber) :
    Draft.Alike { d with info := { d.info with serialNumber := s } } d := by
  have hbody : Draft.SameBody { d with info := { d.info with serialNumber := s } } d := by
    constructor
    case serialNumber => simp [h]
    all_goals rfl
  exact { hbody with signer := rfl, digest := rfl, revoked := fun _ => rfl }

/-! ## Detection -/

/-- **Dates alone never call for another signature.** Whatever dates two requests name that agree in
everything else, and whenever and with whatever random bytes they are drafted, detection answers the
same for both drafts, whichever artifact it compares them with. The number in a draft does not matter
unless the request names one.

This holds of certificates and signing requests as it stands. A revocation list drops the entries of
certificates that have expired by its date, so there the same entries have to be current. -/
theorem changesFrom_withDates
    (hd : k.backend.buildDraft m artifact r subject signer = .ok d)
    (hd' : k.backend.buildDraft m' artifact (r.withDates start stop ttl) subject signer = .ok d')
    (hkept : artifact = .crl → ∀ e ∈ r.revoked,
      X509.isKept r (r.notBefore.getD m.now) e = X509.isKept r (start.getD m'.now) e)
    (existing : LoadedArtifact) (desired : Desired) (now : Instant) (threshold : Span) :
    Desired.changesFrom k.backend existing { desired with draft := d } now threshold =
      Desired.changesFrom k.backend existing { desired with draft := d' } now threshold ∧
    (r.serialNumber = none → ∀ s : Option SerialNumber,
      Desired.changesFrom k.backend existing
        { desired with draft := { d with info := { d.info with serialNumber := s } } }
        now threshold =
      Desired.changesFrom k.backend existing { desired with draft := d } now threshold) := by
  have hdates : d.Alike d' := CertificateKind.alike_of_buildDraft hd hd' hkept
  refine ⟨hdates.changesFrom_eq _ existing desired now threshold, fun hunnumbered s => ?_⟩
  have hrequest : d.request = r := (CertificateKind.isFor_of_buildDraft hd).request
  have hnumber : Draft.Alike { d with info := { d.info with serialNumber := s } } d :=
    Draft.alike_of_serialNumber (hrequest ▸ hunnumbered) s
  exact hnumber.changesFrom_eq _ existing desired now threshold

/-- A certificate for a key under its own name, drafted for thirty days and for an hour. -/
def draftedTwice : BackendResult (Draft × Draft) := do
  let subject ← Backend.x509.loadPublicKey X509.spelledKey
  let r : CertificateRequest := .new .x509
  let first ← Backend.x509.buildDraft ⟨.ofSeconds 0, []⟩ .certificate r subject ⟨subject, none⟩
  let second ← Backend.x509.buildDraft ⟨.ofSeconds 60, [1]⟩ .certificate
    (r.withDates (some (.ofSeconds 7200)) none (some 3600)) subject ⟨subject, none⟩
  Outcome.ensure (first.info.serialNumber != second.info.serialNumber &&
    first.info.notAfter != second.info.notAfter) .encrypted
  return (first, second)

theorem draftedTwice_isOk : draftedTwice.isOk = true := by decide +kernel

theorem changesFrom_withDates_draftedTwice :
    ∃ first second : Draft, draftedTwice = .ok (first, second) ∧
      first.info.serialNumber ≠ second.info.serialNumber ∧
      first.info.notAfter ≠ second.info.notAfter ∧
      ∀ (existing : LoadedArtifact) (desired : Desired) (now : Instant) (threshold : Span),
        Desired.changesFrom Backend.x509 existing { desired with draft := first } now threshold =
          Desired.changesFrom Backend.x509 existing { desired with draft := second }
            now threshold := by
  obtain ⟨⟨first, second⟩, htwice⟩ := Outcome.exists_eq_ok_of_isOk draftedTwice_isOk
  have hrun := htwice
  simp only [draftedTwice, Outcome.bind_eq_ok_iff, Outcome.ensure_eq_ok_iff, Bool.and_eq_true,
    bne_iff_ne] at hrun
  obtain ⟨subject, -, _, hfirst, _, hsecond, -, ⟨hnumber, hend⟩, hpair⟩ := hrun
  obtain ⟨rfl, rfl⟩ := Prod.mk.inj (Except.ok.inj hpair)
  refine ⟨_, _, htwice, hnumber, hend, fun existing desired now threshold => ?_⟩
  exact (changesFrom_withDates (k := .x509) hfirst hsecond nofun existing desired now threshold).1

namespace X509

open Der

/-! ## Numbers of one width -/

theorem length_natContent {n : Nat} (hmin : bitLimit 126 ≤ n) (hmax : n < bitLimit 127) :
    (natContent n).length = 16 := by
  have hlimits : bitLimit (8 * 15) ≤ bitLimit 126 ∧ bitLimit 127 ≤ bitLimit (8 * 16) ∧
      bitLimit 127 = 128 * bitLimit (8 * 15) := by decide
  have hshort := (Bytes.length_ofNat_le_iff n 16).2 (by omega)
  have hlong := mt (Bytes.length_ofNat_le_iff n 15).1 (by omega)
  simp only [natContent]
  split
  · rename_i hnil
    rw [hnil] at hlong
    exact absurd (Nat.zero_le _) hlong
  · rename_i first digits hcons
    rw [hcons, List.length_cons] at hshort hlong
    obtain hdigits : digits.length = 15 := by omega
    have hfirst := Bytes.mul_bitLimit_le_toNat first digits
    rw [← hcons, Bytes.toNat_ofNat, hdigits] at hfirst
    rw [if_pos, hcons, List.length_cons, hdigits]
    refine UInt8.lt_iff_toNat_lt.2 (Nat.lt_of_mul_lt_mul_right (a := bitLimit (8 * 15)) ?_)
    exact Nat.lt_of_le_of_lt hfirst (hlimits.2.2 ▸ hmax)

theorem length_randomSerial (m : Moment) : (natContent (randomSerial m).value).length = 16 := by
  have hmod := Nat.mod_lt (Bytes.toNat (m.random 16)) (bitLimit_pos 126)
  have htwice : bitLimit 127 = bitLimit 126 + bitLimit 126 := by decide
  refine length_natContent (Nat.le_add_left _ _) ?_
  show Bytes.toNat (m.random 16) % bitLimit 126 + bitLimit 126 < bitLimit 127
  omega

theorem length_element {tag : UInt8} {x y : Bytes} (h : y.length = x.length) :
    (element tag y).length = (element tag x).length := by
  simp only [element, List.length_cons, List.length_append, h]

/-! ## Reading -/

theorem CertificateForm.version_eq (r : Rules) (rest : Bytes) :
    version r (explicit 0 (nat 2) ++ rest) = some ((), rest) := by
  have hnat : nat 2 = [tagInteger, 1, 2] := by
    simp [nat, natContent, Bytes.ofNat, Bytes.ofNatAux, element, lengthBytes]
  rw [hnat]
  cases r <;> rfl

/-- Fields behind the number are read whatever it is. -/
theorem CertificateForm.exists_signedFields {raw x y rest left : Bytes} {rules : Rules}
    {f : CertificateForm} (raw' : Bytes) (hy : y.length < bitLimit 64)
    (h : signedFields raw rules (explicit 0 (nat 2) ++ (element tagInteger x ++ rest)) =
      some (f, left)) :
    ∃ f', signedFields raw' rules (explicit 0 (nat 2) ++ (element tagInteger y ++ rest)) =
      some (f', left) ∧ f'.key = f.key := by
  simp only [signedFields, bind_eq_some_iff, pure_eq_some_iff, Prod.exists] at h
  obtain ⟨_, _, hversion, _, _, hserial, algorithm, _, halgorithm, h⟩ := h
  obtain rfl := of_version hversion
  obtain ⟨rfl, rfl⟩ := of_tagged_element (by decide) hserial
  obtain ⟨issuer, _, hissuer, start, stop, _, hperiod, subject, _, hsubject, key, _, hkey, one, _,
    hone, two, _, htwo, extensions, _, hextensions, rfl, rfl⟩ := h
  refine ⟨⟨raw', y, issuer, start, stop, subject, key, extensions, default, []⟩, ?_, rfl⟩
  simp only [signedFields, bind_eq_some_iff, pure_eq_some_iff, Prod.exists]
  exact ⟨(), _, version_eq rules _, y, _, tagged_element (by decide) hy, algorithm, _, halgorithm,
    issuer, _, hissuer, start, stop, _, hperiod, subject, _, hsubject, key, _, hkey, one, _, hone,
    two, _, htwo, extensions, _, hextensions, rfl, rfl⟩

/-- The number in a certificate can be exchanged for another of the same width. -/
theorem CertificateForm.exists_parse? {x y : Nat} {parts after : List Bytes} {f : CertificateForm}
    (hwidth : (natContent y).length = (natContent x).length)
    (h : parse? (seqOf (seqOf (explicit 0 (nat 2) :: nat x :: parts) :: after)) = some f) :
    ∃ f', parse? (seqOf (seqOf (explicit 0 (nat 2) :: nat y :: parts) :: after)) = some f' ∧
      f'.key = f.key := by
  let part (number : Nat) : Bytes := seqOf (explicit 0 (nat 2) :: nat number :: parts)
  have hnat : (nat y).length = (nat x).length := length_element hwidth
  have hpart : (part y).length = (part x).length :=
    length_element (by simp only [List.flatten_cons, List.length_append, hnat])
  obtain ⟨left, hread⟩ : ∃ left, inSequence fields .tolerant (seqOf (part x :: after) ++ []) =
      some (f, left) := by
    obtain ⟨⟨_, left⟩, hrun, rfl⟩ := Option.map_eq_some_iff.1 h
    exact ⟨left, by rw [List.append_nil]; exact hrun⟩
  have houter := length_of_inSequence_seqOf hread
  obtain ⟨⟨left, hfields⟩, -⟩ := of_inSequence_seqOf hread
  obtain ⟨e, _, he, hread⟩ := bind_eq_some_iff.1 hfields
  have hinner : (explicit 0 (nat 2) :: nat x :: parts).flatten.length < bitLimit 64 :=
    length_of_anyElement_element he
  obtain ⟨rfl, rfl⟩ := of_anyElement_element (by decide) he
  rw [if_pos rfl] at hread
  simp only [bind_eq_some_iff, within_eq_some_iff, pure_eq_some_iff] at hread
  obtain ⟨inner, _, ⟨⟨_, hsigned⟩, rfl⟩, algorithm, _, halgorithm, signature, _, hbits, rfl,
    hleft⟩ := hread
  have hfits : (explicit 0 (nat 2) :: nat y :: parts).flatten.length < bitLimit 64 := by
    simpa only [List.flatten_cons, List.length_append, hnat] using hinner
  have hy : (natContent y).length < bitLimit 64 := by
    have hle : (natContent y).length ≤ (nat y).length := length_le_element
    simp only [List.flatten_cons, List.length_append] at hfits
    omega
  obtain ⟨inner', hsigned', hkey⟩ := exists_signedFields (part y) hy hsigned
  refine ⟨{ inner' with signatureAlgorithm := algorithm, signature }, ?_, hkey⟩
  have hfields' : fields .tolerant (part y :: after).flatten =
      some ({ inner' with signatureAlgorithm := algorithm, signature }, left) := by
    refine bind_eq_some_iff.2 ⟨_, _, anyElement_element (by decide) hfits, ?_⟩
    rw [if_pos rfl]
    simp only [bind_eq_some_iff, within_eq_some_iff, pure_eq_some_iff]
    exact ⟨inner', _, ⟨⟨_, hsigned'⟩, rfl⟩, algorithm, _, halgorithm, signature, _, hbits, rfl, hleft⟩
  have houter' : (part y :: after).flatten.length < bitLimit 64 := by
    simpa only [List.flatten_cons, List.length_append, hpart] using houter
  have hrun : inSequence fields .tolerant (seqOf (part y :: after) ++ []) =
      (fields .tolerant (part y :: after).flatten).map fun x => (x.1, []) := inSequence_seqOf houter'
  rw [hfields', List.append_nil] at hrun
  exact congrArg (Option.map Prod.fst) hrun

/-! ## Drafts -/

namespace CertificatePlan

theorem ofRequest_of_serial {serial serial' : Option SerialNumber}
    {period : Option (Instant × Instant)} {key : SubjectKey} {p : CertificatePlan}
    (h : ofRequest r serial period key = .ok p) :
    ofRequest r serial' period key = .ok { p with serial := serial' } := by
  cases period <;> simp only [ofRequest, Outcome.bind_eq_ok_iff] at h ⊢
  · obtain ⟨name, hname, dates, hdates, extensions, hextensions, h⟩ := h
    rw [← Except.ok.inj h]
    exact ⟨name, hname, dates, hdates, extensions, hextensions, rfl⟩
  · obtain ⟨name, hname, start, hstart, stop, hstop, dates, hdates, extensions, hextensions, h⟩ := h
    rw [← Except.ok.inj h]
    exact ⟨name, hname, start, hstart, stop, hstop, dates, hdates, extensions, hextensions, rfl⟩

variable {p : CertificatePlan} {issuer : Issuer} {s : Signer} {part : Bytes}

theorem certificatePart_of_serial (serial : Option SerialNumber)
    (h : p.certificatePart issuer s = .ok part) :
    ∃ parts, part = seqOf (explicit 0 (nat 2) :: nat p.serialValue :: parts) ∧
      { p with serial }.certificatePart issuer s =
        .ok (seqOf (explicit 0 (nat 2) :: nat { p with serial }.serialValue :: parts)) := by
  simp only [certificatePart, Outcome.bind_eq_ok_iff] at h ⊢
  obtain ⟨dates, hdates, es, hes, hpart⟩ := h
  exact ⟨_, (Except.ok.inj hpart).symm, dates, hdates, es, hes, rfl⟩

/-- A plan that is rendered with one number and read back can be with another of its width. -/
theorem exists_certificateInfo {authority : Option Certificate} {serial : Option SerialNumber}
    {der : Bytes} {info : CertificateInfo}
    (hwidth : (natContent { p with serial }.serialValue).length = (natContent p.serialValue).length)
    (hder : p.issue authority .standIn = .ok der) (hinfo : certificateInfo der = .ok info) :
    ∃ der' info', { p with serial }.issue authority .standIn = .ok der' ∧
      certificateInfo der' = .ok info' := by
  obtain ⟨issuer, part, hissuer, hpart, hder⟩ := issue_eq_ok_iff.1 hder
  obtain ⟨parts, rfl, hpart'⟩ := certificatePart_of_serial serial hpart
  obtain ⟨signature, hsign, rfl⟩ := Signer.endorse_eq_ok_iff.1 hder
  unfold certificateInfo at hinfo
  split at hinfo
  · rename_i f hf
    obtain ⟨f', hf', hkey⟩ := CertificateForm.exists_parse? hwidth hf
    obtain ⟨publicKey, hhandle, -⟩ := Outcome.bind_eq_ok_iff.1 hinfo
    obtain ⟨info', hinfo'⟩ : ∃ info', f'.info = .ok info' :=
      ⟨_, by rw [CertificateForm.info, hkey, hhandle]; rfl⟩
    refine ⟨_, info', issue_eq_ok_iff.2 ⟨issuer, _, hissuer, hpart',
      Signer.endorse_eq_ok_iff.2 ⟨signature, hsign, rfl⟩⟩, ?_⟩
    rw [certificateInfo, hf']
    exact hinfo'
  · cases hinfo

end CertificatePlan

/-- At one time a request can be drafted with any random bytes or with none. -/
theorem exists_buildDraft (hnow : m'.now = m.now)
    (hd : buildDraft m artifact r subject signer = .ok d) :
    ∃ d', buildDraft m' artifact r subject signer = .ok d' := by
  simp only [buildDraft, Outcome.bind_eq_ok_iff] at hd ⊢
  obtain ⟨_, hcheck, key, hkey, ⟨der, a⟩, hrender, info, hinfo, -⟩ := hd
  cases artifact with
  | certificate =>
    simp only [render, Outcome.bind_eq_ok_iff] at hrender
    obtain ⟨a, ha, period, hperiod, p, hp, der, hissue, hpair⟩ := hrender
    obtain ⟨rfl, rfl⟩ := Prod.mk.inj (Except.ok.inj hpair)
    let serial : Option SerialNumber := some (r.serialNumber.getD (randomSerial m'))
    have hwidth : (natContent { p with serial }.serialValue).length =
        (natContent p.serialValue).length := by
      have hserial := (CertificatePlan.serial_ofRequest hp).1
      simp only [CertificatePlan.serialValue, hserial, serial]
      cases r.serialNumber with
      | some named => simp only [Option.getD_some]
      | none => exact (length_randomSerial m').trans (length_randomSerial m).symm
    obtain ⟨der', info', hissue', hinfo'⟩ := p.exists_certificateInfo hwidth hissue hinfo
    refine ⟨_, (), hcheck, key, hkey, (der', a), ?_, info', hinfo', rfl⟩
    simp only [render, Outcome.bind_eq_ok_iff, hnow]
    exact ⟨a, ha, period, hperiod, _, CertificatePlan.ofRequest_of_serial hp, der', hissue', rfl⟩
  | csr => exact ⟨_, (), hcheck, key, hkey, (der, a), hrender, info, hinfo, rfl⟩
  | crl =>
    rw [render, ← hnow] at hrender
    exact ⟨_, (), hcheck, key, hkey, (der, a), hrender, info, hinfo, rfl⟩

end X509

theorem OpenSsh.exists_buildDraft (hnow : m'.now = m.now)
    (hd : buildDraft m artifact r subject signer = .ok d) :
    ∃ d', buildDraft m' artifact r subject signer = .ok d' := by
  simp only [buildDraft, Outcome.bind_eq_ok_iff, hnow] at hd ⊢
  obtain ⟨_, hcheck, key, hkey, principals, hprincipals, period, hperiod, extensions, hextensions,
    options, hoptions, digest, hdigest, -⟩ := hd
  exact ⟨_, (), hcheck, key, hkey, principals, hprincipals, period, hperiod, extensions,
    hextensions, options, hoptions, digest, hdigest, rfl⟩

/-- At one time a request is drafted with whatever random bytes, and always alike. -/
theorem CertificateKind.exists_buildDraft (hnow : m'.now = m.now)
    (hd : k.backend.buildDraft m artifact r subject signer = .ok d) :
    ∃ d', k.backend.buildDraft m' artifact r subject signer = .ok d' ∧ d'.Alike d := by
  obtain ⟨d', hd'⟩ : ∃ d', k.backend.buildDraft m' artifact r subject signer = .ok d' := by
    cases k with
    | x509 => exact X509.exists_buildDraft hnow hd
    | ssh => exact OpenSsh.exists_buildDraft hnow hd
  refine ⟨d', hd', ?_⟩
  have hsame : k.backend.buildDraft m artifact (r.withDates r.notBefore r.notAfter r.ttl) subject
      signer = .ok d := hd
  refine alike_of_buildDraft hd' hsame fun _ e _ => ?_
  rw [hnow]

end CertAuthority
