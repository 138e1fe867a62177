import CertAuthority.Proofs.Asn1.Containers
import CertAuthority.Proofs.X509.Dates
import CertAuthority.X509.Backend

/-!
# The period of a draft

A draft is rendered as DER and read back, so its dates went through a plan, the signed part, and a
reader that knows neither. They are still those that were asked for, each cut to its second.

* `CertificatePlan.certificatePart_eq_ok`, `RevocationListPlan.part_eq_ok` : what a signed part
  begins with, up to its dates;
* `CertificateForm.of_signedFields`, `RevocationListForm.of_signedFields` : the dates that are read
  off such a part;
* `draftWindow` : the period that a draft is for. Signing requests have none;
* `period_of_buildDraft` : that period is the one in the draft's view.
-/

namespace CertAuthority.X509

open Der

/-! ## Writing -/

theorem dateBytes_eq_ok_iff {t : Instant} {b : Bytes} :
    dateBytes t = .ok b ↔ Date.encode? t = some b := by
  cases h : Date.encode? t <;> simp [dateBytes, orAbandon, h, Outcome.abandon]

theorem wholeDate_eq_ok {t t' : Instant} (h : wholeDate t = .ok t') : t' = t.wholeSecond := by
  unfold wholeDate at h
  split at h
  · exact (Except.ok.inj h).symm
  · cases h

theorem mapM_dateBytes_pair {a b : Instant} {dates : List Bytes}
    (h : [a, b].mapM dateBytes = .ok dates) :
    ∃ x y, Date.encode? a = some x ∧ Date.encode? b = some y ∧ dates = [x, y] := by
  simp only [List.mapM_cons, List.mapM_nil, Outcome.bind_eq_ok_iff, dateBytes_eq_ok_iff] at h
  obtain ⟨x, hx, _, ⟨y, hy, _, hnil, hxs⟩, hdates⟩ := h
  cases hnil; cases hxs; cases hdates
  exact ⟨x, y, hx, hy, rfl⟩

/-- A signed part is the first of three elements. -/
theorem Signer.endorse_eq_ok {s : Signer} {part der : Bytes} (h : s.endorse part = .ok der) :
    ∃ signature, der = seqOf [part, s.algorithm.encode, bits signature] := by
  unfold Signer.endorse at h
  split at h
  · exact ⟨_, (Except.ok.inj h).symm⟩
  · cases h

/-! ## Reading -/

section

variable {r : Rules} {rest b : Bytes}

theorem AlgorithmIdentifier.of_parser {a : SignatureAlgorithm} {x : AlgorithmIdentifier}
    (h : AlgorithmIdentifier.parser r (a.encode ++ rest) = some (x, b)) : b = rest :=
  (of_inSequence_seqOf h).2

theorem Name.of_parser {n : IssuedName} {x : Name}
    (h : Name.parser r (n.encode ++ rest) = some (x, b)) : b = rest :=
  (of_inSequence_seqOf h).2

theorem CertificateForm.of_version {part : Bytes} {u : Unit}
    (h : CertificateForm.version r (explicit 0 part ++ rest) = some (u, b)) : b = rest := by
  obtain ⟨content, b', hc, hread⟩ := bind_eq_some_iff.1 h
  obtain ⟨rfl, rfl⟩ := of_taggedIf_element (by decide) hc
  obtain ⟨_, b'', hw, hread⟩ := bind_eq_some_iff.1 hread
  obtain ⟨-, rfl⟩ := within_eq_some_iff.1 hw
  exact (pure_eq_some_iff.1 hread).2.symm

theorem CertificateForm.of_validity {start stop : Instant} {x y : Bytes}
    {period : Instant × Instant} (ha : start.nanos = 0) (hb : stop.nanos = 0)
    (hx : Date.encode? start = some x) (hy : Date.encode? stop = some y)
    (h : CertificateForm.validity r (seqOf [x, y] ++ rest) = some (period, b)) :
    period = (start, stop) ∧ b = rest := by
  obtain ⟨⟨left, hread⟩, rfl⟩ := of_inSequence_seqOf h
  simp only [bind_eq_some_iff, pure_eq_some_iff] at hread
  obtain ⟨_, _, hstart, _, _, hstop, hperiod, -⟩ := hread
  rw [List.flatten_cons, Date.parser_encode? ha hx] at hstart
  obtain ⟨rfl, rfl⟩ := Prod.mk.inj (Option.some.inj hstart)
  rw [List.flatten_cons, Date.parser_encode? hb hy] at hstop
  obtain ⟨rfl, rfl⟩ := Prod.mk.inj (Option.some.inj hstop)
  exact ⟨hperiod.symm, rfl⟩

/-- The dates in the signed part of a certificate. -/
theorem CertificateForm.of_signedFields {raw serial : Bytes} {a : SignatureAlgorithm}
    {issuer : IssuedName} {start stop : Instant} {x y : Bytes} {form : CertificateForm}
    (ha : start.nanos = 0) (hb : stop.nanos = 0)
    (hx : Date.encode? start = some x) (hy : Date.encode? stop = some y)
    (h : CertificateForm.signedFields raw r
      (explicit 0 (nat 2) ++ (element tagInteger serial ++ (a.encode ++ (issuer.encode ++
        (seqOf [x, y] ++ rest))))) = some (form, b)) :
    form.notBefore = start ∧ form.notAfter = stop := by
  simp only [CertificateForm.signedFields, bind_eq_some_iff, pure_eq_some_iff, Prod.exists] at h
  obtain ⟨_, _, hversion, _, _, hserial, _, _, halgorithm, _, _, hissuer, _, _, _, hperiod, h⟩ := h
  obtain rfl := CertificateForm.of_version hversion
  obtain ⟨rfl, rfl⟩ := of_tagged_element (by decide) hserial
  obtain rfl := AlgorithmIdentifier.of_parser halgorithm
  obtain rfl := Name.of_parser hissuer
  obtain ⟨hdates, rfl⟩ := CertificateForm.of_validity ha hb hx hy hperiod
  obtain ⟨_, _, -, _, _, -, _, _, -, _, _, -, _, _, -, rfl, -⟩ := h
  exact Prod.mk.inj hdates

end

/-- What is read where a signed part was written first, and other parts after it. -/
theorem of_parse?_signed {α : Type} {p : Element → Parser α} {parts after : List Bytes} {r : Rules}
    {a : α}
    (h : (inSequence do
      let e ← anyElement
      if e.tag = tagSequence then p e else Der.fail).parse? r (seqOf (seqOf parts :: after)) =
        some a) :
    ∃ left, p ⟨tagSequence, parts.flatten, seqOf parts⟩ r after.flatten = some (a, left) := by
  obtain ⟨⟨_, left⟩, hread, rfl⟩ := Option.map_eq_some_iff.1 h
  rw [Parser.runOn, ← List.append_nil (seqOf (seqOf parts :: after))] at hread
  obtain ⟨⟨_, hfields⟩, -⟩ := of_inSequence_seqOf hread
  obtain ⟨e, _, he, hp⟩ := bind_eq_some_iff.1 hfields
  obtain ⟨rfl, rfl⟩ := of_anyElement_element (by decide) he
  rw [if_pos rfl] at hp
  exact ⟨_, hp⟩

/-! ## Certificates -/

/-- The signed part of a certificate, up to its dates. -/
theorem CertificatePlan.certificatePart_eq_ok {p : CertificatePlan} {issuer : Issuer} {s : Signer}
    {part : Bytes} {start stop : Instant} (hp : p.validity = some (start, stop))
    (h : p.certificatePart issuer s = .ok part) :
    ∃ x y rest, Date.encode? start = some x ∧ Date.encode? stop = some y ∧
      part = seqOf ([explicit 0 (nat 2), p.serialBytes, s.algorithm.encode, issuer.name.encode,
        seqOf [x, y]] ++ rest) := by
  simp only [CertificatePlan.certificatePart, Outcome.bind_eq_ok_iff, hp, Option.getD_some] at h
  obtain ⟨dates, hdates, extensions, -, hpart⟩ := h
  obtain ⟨x, y, hx, hy, rfl⟩ := mapM_dateBytes_pair hdates
  exact ⟨x, y, _, hx, hy, (Except.ok.inj hpart).symm⟩

theorem CertificatePlan.issue_eq_ok {p : CertificatePlan} {authority : Option Certificate}
    {s : Signer} {der : Bytes} (h : p.issue authority s = .ok der) :
    ∃ issuer part signature, p.certificatePart issuer s = .ok part ∧
      der = seqOf [part, s.algorithm.encode, bits signature] := by
  cases authority <;> simp only [CertificatePlan.issue, Outcome.bind_eq_ok_iff] at h <;>
    obtain ⟨issuer, -, part, hpart, hder⟩ := h <;>
    obtain ⟨signature, rfl⟩ := Signer.endorse_eq_ok hder <;>
    exact ⟨issuer, part, signature, hpart, rfl⟩

/-- The dates in a certificate are those of its signed part. -/
theorem CertificateForm.of_parse? {parts after : List Bytes} {form : CertificateForm}
    (h : CertificateForm.parse? (seqOf (seqOf parts :: after)) = some form) :
    ∃ raw inner left,
      CertificateForm.signedFields raw .tolerant parts.flatten = some (inner, left) ∧
      form.notBefore = inner.notBefore ∧ form.notAfter = inner.notAfter := by
  obtain ⟨_, hread⟩ := of_parse?_signed h
  simp only [bind_eq_some_iff, within_eq_some_iff, pure_eq_some_iff] at hread
  obtain ⟨inner, _, ⟨⟨left, hsigned⟩, -⟩, _, _, -, _, _, -, rfl, -⟩ := hread
  exact ⟨_, inner, left, hsigned, rfl, rfl⟩

/-- The dates of a certificate that was issued are those of its plan. -/
theorem CertificatePlan.period_of_issue {p : CertificatePlan} {authority : Option Certificate}
    {s : Signer} {der : Bytes} {info : CertificateInfo} {start stop : Instant}
    (hp : p.validity = some (start, stop)) (ha : start.nanos = 0) (hb : stop.nanos = 0)
    (hissue : p.issue authority s = .ok der) (hinfo : certificateInfo der = .ok info) :
    info.notBefore = some start ∧ info.notAfter = some stop := by
  obtain ⟨issuer, part, signature, hpart, rfl⟩ := CertificatePlan.issue_eq_ok hissue
  obtain ⟨x, y, rest, hx, hy, rfl⟩ := CertificatePlan.certificatePart_eq_ok hp hpart
  unfold certificateInfo at hinfo
  split at hinfo
  · rename_i form hform
    obtain ⟨raw, inner, left, hsigned, hstart, hstop⟩ := CertificateForm.of_parse? hform
    obtain ⟨rfl, rfl⟩ := CertificateForm.of_signedFields ha hb hx hy hsigned
    simp only [CertificateForm.info, Outcome.bind_eq_ok_iff] at hinfo
    obtain ⟨_, -, hinfo⟩ := hinfo
    rw [← Except.ok.inj hinfo, ← hstart, ← hstop]
    exact ⟨rfl, rfl⟩
  · cases hinfo

/-! ## Revocation lists -/

theorem RevocationListPlan.dated_eq_ok {p q : RevocationListPlan} (h : p.dated = .ok q) :
    q.thisUpdate = p.thisUpdate.wholeSecond ∧ q.nextUpdate = p.nextUpdate.wholeSecond := by
  simp only [RevocationListPlan.dated, Outcome.bind_eq_ok_iff] at h
  obtain ⟨_, -, _, hthis, _, hnext, hq⟩ := h
  rw [← Except.ok.inj hq]
  exact ⟨wholeDate_eq_ok hthis, wholeDate_eq_ok hnext⟩

/-- The signed part of a list, up to its dates. -/
theorem RevocationListPlan.part_eq_ok {p : RevocationListPlan} {issuer : Issuer} {s : Signer}
    {part : Bytes} (h : p.part issuer s = .ok part) :
    ∃ x y rest, Date.encode? p.thisUpdate = some x ∧ Date.encode? p.nextUpdate = some y ∧
      part = seqOf (nat 1 :: s.algorithm.encode :: issuer.name.encode :: x :: y :: rest) := by
  simp only [RevocationListPlan.part, Outcome.bind_eq_ok_iff] at h
  obtain ⟨dates, hdates, entries, -, hpart⟩ := h
  obtain ⟨x, y, hx, hy, rfl⟩ := mapM_dateBytes_pair hdates
  simp only [List.cons_append, List.nil_append] at hpart
  exact ⟨x, y, _, hx, hy, (Except.ok.inj hpart).symm⟩

theorem RevocationListPlan.issue_eq_ok {p : RevocationListPlan} {r : CertificateRequest}
    {authority : Option Certificate} {s : Signer} {der : Bytes}
    (h : p.issue r authority s = .ok der) :
    ∃ q issuer part signature, p.dated = .ok q ∧ q.part issuer s = .ok part ∧
      der = seqOf [part, s.algorithm.encode, bits signature] := by
  cases authority <;> simp only [RevocationListPlan.issue, Outcome.bind_eq_ok_iff] at h
  · obtain ⟨q, hq, _, -, issuer, -, _, -, part, hpart, hder⟩ := h
    obtain ⟨signature, rfl⟩ := Signer.endorse_eq_ok hder
    exact ⟨q, issuer, part, signature, hq, hpart, rfl⟩
  · obtain ⟨q, hq, issuer, -, _, -, part, hpart, hder⟩ := h
    obtain ⟨signature, rfl⟩ := Signer.endorse_eq_ok hder
    exact ⟨q, issuer, part, signature, hq, hpart, rfl⟩

theorem natBelow_version (r : Rules) (rest : Bytes) :
    natBelow (bitLimit 32) r (nat 1 ++ rest) = some (1, rest) := by
  refine natBelow_nat (by decide) ?_ r rest
  simp [natContent, Bytes.ofNat, Bytes.ofNatAux, bitLimit]

theorem RevocationListForm.of_signedFields {raw : Bytes} {r : Rules} {a : SignatureAlgorithm}
    {issuer : IssuedName} {start stop : Instant} {x y rest b : Bytes} {form : RevocationListForm}
    (ha : start.nanos = 0) (hb : stop.nanos = 0)
    (hx : Date.encode? start = some x) (hy : Date.encode? stop = some y)
    (h : RevocationListForm.signedFields raw r
      (nat 1 ++ (a.encode ++ (issuer.encode ++ (x ++ (y ++ rest))))) = some (form, b)) :
    form.thisUpdate = start ∧ form.nextUpdate = some stop := by
  simp only [RevocationListForm.signedFields, bind_eq_some_iff, pure_eq_some_iff,
    of_optionally (natBelow_version r _), Option.some.injEq, Prod.mk.injEq] at h
  obtain ⟨_, _, ⟨rfl, rfl⟩, _, _, halgorithm, _, _, hissuer, _, _, hthis, _, _, hnext, h⟩ := h
  obtain rfl := AlgorithmIdentifier.of_parser halgorithm
  obtain rfl := Name.of_parser hissuer
  rw [Date.parser_encode? ha hx] at hthis
  obtain ⟨rfl, rfl⟩ := Prod.mk.inj (Option.some.inj hthis)
  rw [of_optionally (Date.parser_encode? hb hy r _)] at hnext
  obtain ⟨rfl, rfl⟩ := Prod.mk.inj (Option.some.inj hnext)
  obtain ⟨_, _, -, _, _, -, rfl, -⟩ := h
  exact ⟨rfl, rfl⟩

/-- The dates in a list are those of its signed part. -/
theorem RevocationListForm.of_parse? {parts after : List Bytes} {form : RevocationListForm}
    (h : RevocationListForm.parse? (seqOf (seqOf parts :: after)) = some form) :
    ∃ raw inner left,
      RevocationListForm.signedFields raw .tolerant parts.flatten = some (inner, left) ∧
      form.thisUpdate = inner.thisUpdate ∧ form.nextUpdate = inner.nextUpdate := by
  obtain ⟨_, hread⟩ := of_parse?_signed h
  simp only [bind_eq_some_iff, within_eq_some_iff, pure_eq_some_iff] at hread
  obtain ⟨inner, _, ⟨⟨left, hsigned⟩, -⟩, _, _, -, _, _, -, rfl, -⟩ := hread
  exact ⟨_, inner, left, hsigned, rfl, rfl⟩

/-- The dates of a list that was issued are those of its plan, without fractions of seconds. -/
theorem RevocationListPlan.period_of_issue {p : RevocationListPlan} {r : CertificateRequest}
    {authority : Option Certificate} {s : Signer} {der : Bytes} {info : CertificateInfo}
    (hissue : p.issue r authority s = .ok der) (hinfo : listInfo der = .ok info) :
    info.notBefore = some p.thisUpdate.wholeSecond ∧
      info.notAfter = some p.nextUpdate.wholeSecond := by
  obtain ⟨q, issuer, part, signature, hq, hpart, rfl⟩ := RevocationListPlan.issue_eq_ok hissue
  obtain ⟨hthis, hnext⟩ := RevocationListPlan.dated_eq_ok hq
  obtain ⟨x, y, rest, hx, hy, rfl⟩ := RevocationListPlan.part_eq_ok hpart
  unfold listInfo at hinfo
  split at hinfo
  · rename_i form hform
    obtain ⟨raw, inner, left, hsigned, hstart, hstop⟩ := RevocationListForm.of_parse? hform
    simp only [List.flatten_cons] at hsigned
    obtain ⟨hs, hn⟩ := RevocationListForm.of_signedFields (by rw [hthis]; rfl) (by rw [hnext]; rfl)
      hx hy hsigned
    rw [← Except.ok.inj hinfo, ← hthis, ← hnext, ← hs, ← hstart]
    exact ⟨rfl, hstop.trans hn⟩
  · cases hinfo

/-! ## Drafts -/

/-- The dates of a plan for a request. -/
theorem CertificatePlan.validity_ofRequest {r : CertificateRequest} {serial : Option SerialNumber}
    {start stop : Instant} {key : SubjectKey} {plan : CertificatePlan}
    (h : CertificatePlan.ofRequest r serial (some (start, stop)) key = .ok plan) :
    plan.validity = some (start.wholeSecond, stop.wholeSecond) := by
  simp only [CertificatePlan.ofRequest, Outcome.bind_eq_ok_iff] at h
  obtain ⟨_, -, _, hstart, _, hstop, _, hdates, _, -, hplan⟩ := h
  rw [← Except.ok.inj hplan, ← Except.ok.inj hdates, wholeDate_eq_ok hstart, wholeDate_eq_ok hstop]

/-- The period that a draft of the kind is for, if it is for any. -/
def draftWindow (now : Instant) (r : CertificateRequest) :
    ArtifactKind → BackendResult (Option (Instant × Instant))
  | .certificate => some <$> CertAuthority.validity now r
  | .csr => .ok none
  | .crl => some <$> updateWindow now r

/-- The dates in a draft's view are those of its period, without fractions of seconds. -/
theorem period_of_buildDraft {m : Moment} {artifact : ArtifactKind} {r : CertificateRequest}
    {subjectKey : PublicKey} {signer : SignerIdentity} {d : Draft}
    (h : buildDraft m artifact r subjectKey signer = .ok d) :
    ∃ window, draftWindow m.now r artifact = .ok window ∧
      d.info.notBefore = window.map (·.1.wholeSecond) ∧
      d.info.notAfter = window.map (·.2.wholeSecond) := by
  simp only [buildDraft, Outcome.bind_eq_ok_iff] at h
  obtain ⟨_, -, key, -, ⟨der, a⟩, hrender, info, hinfo, hd⟩ := h
  obtain rfl := Except.ok.inj hd
  cases artifact with
  | certificate =>
    simp only [render, Outcome.bind_eq_ok_iff] at hrender
    obtain ⟨_, -, ⟨start, stop⟩, hwindow, plan, hplan, _, hissue, hpair⟩ := hrender
    obtain ⟨rfl, rfl⟩ := Prod.mk.inj (Except.ok.inj hpair)
    have hvalidity := CertificatePlan.validity_ofRequest hplan
    have hperiod := CertificatePlan.period_of_issue hvalidity rfl rfl hissue hinfo
    exact ⟨some (start, stop), by rw [draftWindow, hwindow]; rfl, hperiod⟩
  | csr =>
    refine ⟨none, rfl, ?_⟩
    simp only [infoOf, requestInfo] at hinfo
    split at hinfo
    · simp only [RequestForm.info, Outcome.bind_eq_ok_iff] at hinfo
      obtain ⟨_, -, hinfo⟩ := hinfo
      rw [← Except.ok.inj hinfo]
      exact ⟨rfl, rfl⟩
    · cases hinfo
  | crl =>
    simp only [render, Outcome.bind_eq_ok_iff] at hrender
    obtain ⟨_, -, _, -, ⟨start, stop⟩, hwindow, _, -, _, hissue, hpair⟩ := hrender
    obtain ⟨rfl, rfl⟩ := Prod.mk.inj (Except.ok.inj hpair)
    have hperiod := RevocationListPlan.period_of_issue hissue hinfo
    exact ⟨some (start, stop), by rw [draftWindow, hwindow]; rfl, hperiod⟩

end CertAuthority.X509
