import CertAuthority.Proofs.Name.Values
import CertAuthority.X509.Draft

/-!
# Issued names

What a certificate says for an attribute, and how that follows from the request it is issued for.

* `X509.IssuedName.value?` : the text a name to be written has for an attribute;
* `X509.issuedName` : the name that a certificate for a request carries;
* `X509.value?_issuedName` : requested attributes come before the requested subject, and of several
  of one type the last one counts.
-/

namespace CertAuthority

theorem NameAttribute.mem_all (a : NameAttribute) : a ∈ NameAttribute.all := by
  cases a <;> decide

theorem NameAttribute.arcs_inj {a b : NameAttribute} (h : a.arcs = b.arcs) : a = b := by
  have hall : ∀ a ∈ NameAttribute.all, ∀ b ∈ NameAttribute.all, a.arcs = b.arcs → a = b := by
    decide
  exact hall a a.mem_all b b.mem_all h

namespace X509

namespace IssuedName

/-- The text the name has for the attribute. -/
def value? (n : IssuedName) (a : NameAttribute) : Option String := do
  let (tag, content) ← n.entries.lookup a.arcs
  if tag = Der.tagUtf8 then Bytes.text? content else none

theorem lookup_put (o oid : List Nat) (value : UInt8 × Bytes)
    (entries : List (List Nat × UInt8 × Bytes)) :
    (put oid value entries).lookup o = if oid = o then some value else entries.lookup o := by
  induction entries with
  | nil =>
    by_cases h : oid = o
    · simp [put, h]
    · have hb : (o == oid) = false := by simpa using fun e => h e.symm
      simp [put, h, List.lookup_cons, hb]
  | cons entry entries ih =>
    obtain ⟨found, w⟩ := entry
    rw [put]
    split
    · rename_i hf
      subst hf
      by_cases h : found = o
      · simp [h]
      · have hb : (o == found) = false := by simpa using fun e => h e.symm
        simp [h, List.lookup_cons, hb]
    · rename_i hf
      rw [List.lookup_cons, List.lookup_cons, ih]
      by_cases h : o = found
      · have hn : oid ≠ found := fun e => hf e.symm
        simp [h, hn]
      · have hb : (o == found) = false := by simpa using h
        simp [hb]

/-- The values of an attribute are written one over the other. -/
theorem value?_foldl_put (a : NameAttribute) (pairs : List (NameAttribute × String))
    (entries : List (List Nat × UInt8 × Bytes)) :
    value? ⟨pairs.foldl (fun out (b, v) => put b.arcs (Der.tagUtf8, Bytes.ofText v) out) entries⟩
        a =
      (a.valuesIn pairs).getLast?.or (value? ⟨entries⟩ a) := by
  induction pairs generalizing entries with
  | nil => simp
  | cons p pairs ih =>
    obtain ⟨b, v⟩ := p
    rw [List.foldl_cons, ih, NameAttribute.valuesIn_cons]
    by_cases hb : b = a
    · have hput : value? ⟨put b.arcs (Der.tagUtf8, Bytes.ofText v) entries⟩ a = some v := by
        simp [value?, lookup_put, hb, Bytes.text?_ofText]
      rw [hput]
      cases hl : (a.valuesIn pairs).getLast? <;> simp [hb, List.getLast?_cons, hl]
    · have harcs : b.arcs ≠ a.arcs := fun h => hb (NameAttribute.arcs_inj h)
      simp [value?, lookup_put, hb, harcs]

theorem value?_ofView {dn : DistinguishedName} (h : dn.IsUnique) (a : NameAttribute) :
    (ofView dn).value? a = dn.get? a := by
  have hu := h a
  rw [ofView, value?_foldl_put, DistinguishedName.get?, NameAttribute.lookup_eq_head?_valuesIn]
  cases hv : a.valuesIn dn.entries with
  | nil => rfl
  | cons v vs =>
    obtain rfl : vs = [] := by simpa [hv] using hu
    rfl

end IssuedName

/-! ## From a request -/

/-- The name that a certificate for the request carries. -/
def issuedName (r : CertificateRequest) : BackendResult IssuedName :=
  IssuedName.ofView <$> subjectOf r

/-- It is the name in what is written for the request, a certificate or a signing request. -/
theorem CertificatePlan.subject_ofRequest {r : CertificateRequest} {serial : Option SerialNumber}
    {validity : Option (Instant × Instant)} {key : SubjectKey} {plan : CertificatePlan}
    (h : CertificatePlan.ofRequest r serial validity key = .ok plan) :
    issuedName r = .ok plan.subject := by
  simp only [CertificatePlan.ofRequest, Outcome.bind_eq_ok_iff] at h
  obtain ⟨dn, hdn, h⟩ := h
  have hsubject : plan.subject = IssuedName.ofView dn := by
    cases validity with
    | none =>
      simp only [Outcome.bind_eq_ok_iff] at h
      obtain ⟨_, -, _, -, h⟩ := h
      rw [← Except.ok.inj h]
    | some dates =>
      simp only [Outcome.bind_eq_ok_iff] at h
      obtain ⟨_, -, _, -, _, -, _, -, h⟩ := h
      rw [← Except.ok.inj h]
  rw [issuedName, hdn, hsubject]
  rfl

/-- The name of a subject that may be missing. -/
def baseName : Option SubjectSpec → Except NameError DistinguishedName
  | some s => s.toName
  | none => .ok .empty

theorem isUnique_baseName {s : Option SubjectSpec} {base : DistinguishedName}
    (h : baseName s = .ok base) : base.IsUnique := by
  cases s with
  | none => exact Except.ok.inj h ▸ DistinguishedName.isUnique_empty
  | some s => exact SubjectSpec.isUnique_toName h

theorem subjectOf_eq_ok_iff {r : CertificateRequest} {dn : DistinguishedName} :
    subjectOf r = .ok dn ↔
      ∃ base, baseName r.subject = .ok base ∧ base.pushAll r.nameAttributes = dn := by
  unfold subjectOf
  cases hs : r.subject with
  | none => simp [baseName, pure, Except.pure, bind, Except.bind]
  | some s =>
    cases hn : s.toName <;>
      simp [baseName, hn, pure, Except.pure, bind, Except.bind, Outcome.fail]

/-- Requested attributes come before the requested subject, the last one of a type first. -/
theorem value?_issuedName {r : CertificateRequest} {n : IssuedName} (h : issuedName r = .ok n) :
    ∃ base, baseName r.subject = .ok base ∧
      ∀ a, n.value? a = (a.valuesIn r.nameAttributes).getLast?.or (base.get? a) := by
  obtain ⟨dn, hdn, rfl⟩ := Outcome.map_eq_ok_iff.1 h
  obtain ⟨base, hbase, rfl⟩ := subjectOf_eq_ok_iff.1 hdn
  refine ⟨base, hbase, fun a => ?_⟩
  have hu := DistinguishedName.isUnique_pushAll (isUnique_baseName hbase) r.nameAttributes
  rw [IssuedName.value?_ofView hu, DistinguishedName.get?_pushAll]

end X509
end CertAuthority
