import CertAuthority.Proofs.Asn1.Containers
import CertAuthority.X509.ExtensionPlan

/-!
# Extensions in stored artifacts

Extensions are read back as they were written: the same list, with identifiers, flags and values.

* `Extension.IsNamed` : the identifier survives its encoding, as those of all known kinds do;
* `Extension.of_taggedExtensions` : a list of such extensions at its tag is read back;
* `ExtensionPlan.viewOf_extensions` : the view of a certificate's extensions does not depend on the
  identifier of the issuer's key, of which it only says that it is present.
-/

namespace CertAuthority

namespace X509

open Der

/-! ## One extension -/

namespace Extension

/-- The identifier is read back from its encoding. -/
def IsNamed (e : Extension) : Prop := arcsOfContent? (oidContent e.oid) = some e.oid

variable {e : Extension} {r : Rules} {rest b : Bytes}

/-- The flag is read where it was written, and is otherwise not taken for the value. -/
theorem optionally_boolValue (critical : Bool) (value : Bytes) :
    ∃ flag : Option Bool, flag.getD false = critical ∧
      optionally boolValue r ((if critical then [boolean true] else []).flatten ++ octets value) =
        some (flag, octets value) := by
  cases critical with
  | true => exact ⟨some true, rfl, by cases r <;> rfl⟩
  | false =>
    refine ⟨none, rfl, ?_⟩
    have hnone : tagged tagBoolean r (octets value ++ []) = none := tagged_element_ne (by decide)
    rw [List.append_nil] at hnone
    have hflag : boolValue r (octets value) = none := by
      cases h : boolValue r (octets value) with
      | none => rfl
      | some x =>
        obtain ⟨c, b', hc, -⟩ := bind_eq_some_iff.1 h
        cases hnone.symm.trans hc
    simp only [optionally, Bool.false_eq_true, if_false, List.flatten_nil, List.nil_append, hflag]

theorem of_parser_encode (he : e.IsNamed) {x : Extension}
    (h : parser r (e.encode ++ rest) = some (x, b)) :
    (x = e ∧ b = rest) ∧ e.value.length < bitLimit 64 := by
  obtain ⟨⟨left, hfields⟩, rfl⟩ := of_inSequence_seqOf h
  simp only [bind_eq_some_iff, pure_eq_some_iff, List.cons_append, List.nil_append,
    List.flatten_cons, List.flatten_append, List.flatten_nil, List.append_nil] at hfields
  obtain ⟨arcs, _, harcs, flag, _, hflag, value, _, hvalue, rfl, -⟩ := hfields
  obtain ⟨hname, rfl⟩ := of_oidValue_oid harcs
  obtain ⟨_, hcritical, hread⟩ := optionally_boolValue (r := r) e.critical e.value
  rw [hread] at hflag
  obtain ⟨rfl, rfl⟩ := Prod.mk.inj (Option.some.inj hflag)
  rw [← List.append_nil (octets e.value)] at hvalue
  have hlength := length_of_tagged_element hvalue
  obtain ⟨rfl, -⟩ := of_tagged_element (by decide) hvalue
  rw [hcritical, ← Option.some.inj (he.symm.trans hname)]
  exact ⟨⟨rfl, rfl⟩, hlength⟩

/-- An extension within the limits of the encoding is read back. -/
theorem parser_encode (he : e.IsNamed) (hl : e.encode.length < bitLimit 64) :
    parser r (e.encode ++ rest) = some (e, rest) := by
  have hcontent := Nat.lt_of_le_of_lt length_le_element hl
  simp only [List.flatten_append, List.flatten_cons, List.flatten_nil, List.append_nil,
    List.length_append] at hcontent
  have hoid : (oidContent e.oid).length < bitLimit 64 := by
    have hle : (oidContent e.oid).length ≤ (Der.oid e.oid).length := length_le_element
    omega
  have hvalue : e.value.length < bitLimit 64 := by
    have hle : e.value.length ≤ (octets e.value).length := length_le_element
    omega
  obtain ⟨flag, hcritical, hflag⟩ := optionally_boolValue (r := r) e.critical e.value
  have hread : tagged tagOctetString r (octets e.value ++ []) = some (e.value, []) :=
    tagged_element (by decide) hvalue
  rw [List.append_nil] at hread
  rw [parser, encode, inSequence_seqOf (by
    simp only [List.flatten_append, List.flatten_cons, List.flatten_nil, List.append_nil,
      List.length_append]
    omega), Option.map_eq_some_iff]
  refine ⟨(e, []), ?_, rfl⟩
  simp only [List.flatten_append, List.flatten_cons, List.flatten_nil, List.append_nil,
    List.append_assoc, bind_eq_some_iff]
  refine ⟨e.oid, _, oidValue_oid he hoid, flag, _, hflag, e.value, [], hread, ?_⟩
  rw [hcritical]
  rfl

variable {es : List Extension}

theorem listParser_seqOf (hes : ∀ e ∈ es, e.IsNamed)
    (hl : (seqOf (es.map encode)).length < bitLimit 64) :
    listParser r (seqOf (es.map encode) ++ rest) = some (es, rest) := by
  have hcontent := Nat.lt_of_le_of_lt length_le_element hl
  have hread : listParser r (seqOf (es.map encode) ++ rest) = some (es.map id, rest) := by
    refine manyToEnd_seqOf (by cases r <;> rfl) (fun e he rest => parser_encode (hes e he) ?_)
      hcontent rest
    exact Nat.lt_of_le_of_lt (List.sublist_flatten_of_mem (List.mem_map_of_mem he)).length_le
      hcontent
  rwa [List.map_id] at hread

theorem reads (hes : ∀ e ∈ es, e.IsNamed) : Reads r parser encode id id es where
  atEnd := by cases r <;> rfl
  nonempty e _ := List.cons_ne_nil _ _
  value e he _ _ _ h := (of_parser_encode (hes e he) h).1

/-- A list is read back whole. -/
theorem of_manyToEnd (hes : ∀ e ∈ es, e.IsNamed) {found : List Extension}
    (h : manyToEnd parser r (es.map encode).flatten = some (found, b)) :
    found = es ∧ ∀ e ∈ es, e.value.length < bitLimit 64 := by
  obtain ⟨hfound, hread, -⟩ := (reads hes).of_manyToEnd h
  rw [List.map_id, List.map_id] at hfound
  refine ⟨hfound, fun e he => ?_⟩
  obtain ⟨rest, hsome⟩ := hread e he
  obtain ⟨⟨x, b'⟩, hx⟩ := Option.isSome_iff_exists.1 hsome
  exact (of_parser_encode (hes e he) hx).2

theorem of_listParser (hes : ∀ e ∈ es, e.IsNamed) {found : List Extension}
    (h : listParser r (seqOf (es.map encode) ++ rest) = some (found, b)) :
    (found = es ∧ ∀ e ∈ es, e.value.length < bitLimit 64) ∧ b = rest := by
  obtain ⟨c, _, hc, hread⟩ := bind_eq_some_iff.1 h
  obtain ⟨rfl, rfl⟩ := of_tagged_element (by decide) hc
  obtain ⟨⟨left, hmany⟩, rfl⟩ := within_eq_some_iff.1 hread
  exact ⟨of_manyToEnd hes hmany, rfl⟩

end Extension

theorem of_skipHeader_element {number tag : UInt8} {content rest b : Bytes} {r : Rules} {u : Unit}
    (h : skipHeader number r (element tag content ++ rest) = some (u, b)) :
    tag &&& 0x1f = number ∧ b = content ++ rest := by
  simp only [skipHeader, element, List.cons_append, List.append_assoc, takeLength_lengthBytes] at h
  split at h
  · rename_i htag
    split at h
    · exact ⟨htag, (Prod.mk.inj (Option.some.inj h)).2.symm⟩
    · cases h
  · cases h

/-- Only an element with their tag number is taken for extensions. -/
theorem number_of_taggedExtensions {number tag : UInt8} {content rest b : Bytes} {r : Rules}
    {found : List Extension}
    (h : taggedExtensions number r (element tag content ++ rest) = some (found, b)) :
    tag &&& 0x1f = number := by
  obtain ⟨ended, _, hended, hread⟩ := bind_eq_some_iff.1 h
  obtain ⟨rfl, rfl⟩ := Prod.mk.inj (Option.some.inj hended)
  rw [if_neg (by simp [element])] at hread
  obtain ⟨u, _, hskip, -⟩ := bind_eq_some_iff.1 hread
  exact (of_skipHeader_element hskip).1

/-- Extensions at their tag, after which there is nothing. -/
theorem Extension.of_taggedExtensions {number tag : UInt8} {es found : List Extension} {r : Rules}
    {b : Bytes} (hes : ∀ e ∈ es, e.IsNamed)
    (h : taggedExtensions number r (element tag (seqOf (es.map encode))) = some (found, b)) :
    found = es ∧ ∀ e ∈ es, e.value.length < bitLimit 64 := by
  obtain ⟨ended, _, hended, hread⟩ := bind_eq_some_iff.1 h
  obtain ⟨rfl, rfl⟩ := Prod.mk.inj (Option.some.inj hended)
  rw [if_neg (by simp [element])] at hread
  obtain ⟨u, _, hskip, hread⟩ := bind_eq_some_iff.1 hread
  rw [← List.append_nil (element tag _)] at hskip
  obtain ⟨-, rfl⟩ := of_skipHeader_element hskip
  obtain ⟨values, _, hvalues, hread⟩ := bind_eq_some_iff.1 hread
  obtain ⟨hfound, rfl⟩ := of_listParser hes hvalues
  obtain ⟨_, _, hclosed, hread⟩ := bind_eq_some_iff.1 hread
  obtain ⟨rfl, rfl⟩ := Prod.mk.inj (Option.some.inj hclosed)
  rw [if_pos (show ([] : Bytes).isEmpty = true from rfl)] at hread
  obtain ⟨rfl, -⟩ := pure_eq_some_iff.1 hread
  exact hfound

/-! ## The extensions of a plan -/

theorem extension_isNamed (k : ExtensionKind) (hk : (extensionOid? k).isSome = true)
    (critical : Bool) (value : Bytes) : (extension k critical value).IsNamed := by
  have hkind : (extensionOid? k).isSome = true →
      arcsOfContent? (oidContent ((extensionOid? k).getD [])) =
        some ((extensionOid? k).getD []) := by
    cases k <;> with_unfolding_all decide
  exact hkind hk

namespace ExtensionPlan

variable {p : ExtensionPlan} {c : ExtensionContext} {es : List Extension}

/-- The part of a certificate's extensions that has nothing to do with the issuer. -/
def ownExtensions (p : ExtensionPlan) (subjectIsEmpty : Bool) (subject : SubjectKey) :
    BackendResult (List Extension) := do
  let identifier :=
    if p.role = .unstated then []
    else [extension .subjectKeyIdentifier false (octets subject.identifier)]
  return p.alternativeNameExtension subjectIsEmpty ++ p.keyUsageExtension ++
    (← p.purposeExtension) ++ (← p.constraintsExtension) ++ (← p.pointsExtension) ++ identifier ++
    p.basicConstraintsExtension ++ p.closingExtensions subject

/-- Only the first extension names the issuer's key. -/
theorem extensions_eq (p : ExtensionPlan) (c : ExtensionContext) :
    p.extensions c = (p.ownExtensions c.subjectIsEmpty c.subject).map fun own =>
      (if p.authorityKeyIdentifier then [authorityKeyExtension c.authority] else []) ++ own := by
  simp only [extensions, ownExtensions]
  cases p.purposeExtension <;> cases p.constraintsExtension <;> cases p.pointsExtension <;>
    simp [bind, Except.bind, pure, Except.pure, Except.map]

theorem isNamed_keyUsageExtension (p : ExtensionPlan) :
    ∀ e ∈ p.keyUsageExtension, e.IsNamed := by
  unfold keyUsageExtension
  split
  · exact nofun
  · exact List.forall_mem_singleton.2 (extension_isNamed _ rfl _ _)

theorem isNamed_alternativeNameExtension (p : ExtensionPlan) (subjectIsEmpty : Bool) :
    ∀ e ∈ p.alternativeNameExtension subjectIsEmpty, e.IsNamed := by
  unfold alternativeNameExtension
  split
  · exact nofun
  · exact List.forall_mem_singleton.2 (extension_isNamed _ rfl _ _)

theorem isNamed_purposeExtension (h : p.purposeExtension = .ok es) : ∀ e ∈ es, e.IsNamed := by
  unfold purposeExtension at h
  split at h
  · cases h
    exact nofun
  · obtain ⟨values, -, h⟩ := Outcome.bind_eq_ok_iff.1 h
    rw [← Except.ok.inj h]
    exact List.forall_mem_singleton.2 (extension_isNamed _ rfl _ _)

theorem isNamed_constraintsExtension (h : p.constraintsExtension = .ok es) :
    ∀ e ∈ es, e.IsNamed := by
  unfold constraintsExtension at h
  split at h
  · cases h
    exact nofun
  · split at h
    · cases h
      exact nofun
    · obtain ⟨permitted, -, h⟩ := Outcome.bind_eq_ok_iff.1 h
      obtain ⟨excluded, -, h⟩ := Outcome.bind_eq_ok_iff.1 h
      rw [← Except.ok.inj h]
      exact List.forall_mem_singleton.2 (extension_isNamed _ rfl _ _)

theorem isNamed_pointsExtension (h : p.pointsExtension = .ok es) : ∀ e ∈ es, e.IsNamed := by
  unfold pointsExtension at h
  split at h
  · cases h
    exact nofun
  · obtain ⟨values, -, h⟩ := Outcome.bind_eq_ok_iff.1 h
    rw [← Except.ok.inj h]
    exact List.forall_mem_singleton.2 (extension_isNamed _ rfl _ _)

theorem isNamed_basicConstraintsExtension (p : ExtensionPlan) :
    ∀ e ∈ p.basicConstraintsExtension, e.IsNamed := by
  unfold basicConstraintsExtension
  split
  · exact nofun
  · exact List.forall_mem_singleton.2 (extension_isNamed _ rfl _ _)
  · exact List.forall_mem_singleton.2 (extension_isNamed _ rfl _ _)

theorem isNamed_closingExtensions (p : ExtensionPlan) (subject : SubjectKey) :
    ∀ e ∈ p.closingExtensions subject, e.IsNamed := by
  intro e he
  simp only [closingExtensions, List.mem_append, Option.mem_toList, Option.map_eq_some_iff] at he
  rcases he with (he | ⟨comment, -, rfl⟩) | he
  · split at he
    · rw [List.mem_singleton.1 he]
      exact extension_isNamed _ rfl _ _
    · cases he
  · exact extension_isNamed _ rfl _ _
  · split at he
    · rw [List.mem_singleton.1 he]
      exact extension_isNamed _ rfl _ _
    · cases he

theorem isNamed_ownExtensions {subjectIsEmpty : Bool} {subject : SubjectKey}
    (h : p.ownExtensions subjectIsEmpty subject = .ok es) : ∀ e ∈ es, e.IsNamed := by
  obtain ⟨purposes, hpurposes, h⟩ := Outcome.bind_eq_ok_iff.1 h
  obtain ⟨constraints, hconstraints, h⟩ := Outcome.bind_eq_ok_iff.1 h
  obtain ⟨points, hpoints, h⟩ := Outcome.bind_eq_ok_iff.1 h
  rw [← Except.ok.inj h]
  simp only [List.forall_mem_append]
  refine ⟨⟨⟨⟨⟨⟨⟨?_, ?_⟩, ?_⟩, ?_⟩, ?_⟩, ?_⟩, ?_⟩, ?_⟩
  · exact p.isNamed_alternativeNameExtension subjectIsEmpty
  · exact p.isNamed_keyUsageExtension
  · exact isNamed_purposeExtension hpurposes
  · exact isNamed_constraintsExtension hconstraints
  · exact isNamed_pointsExtension hpoints
  · split
    · exact nofun
    · exact List.forall_mem_singleton.2 (extension_isNamed _ rfl _ _)
  · exact p.isNamed_basicConstraintsExtension
  · exact p.isNamed_closingExtensions subject

theorem authorityKeyExtension_isNamed (identifier : Bytes) :
    (authorityKeyExtension identifier).IsNamed := extension_isNamed _ rfl _ _

/-- A certificate holds only extensions that can be read back. -/
theorem isNamed_extensions (h : p.extensions c = .ok es) : ∀ e ∈ es, e.IsNamed := by
  rw [extensions_eq] at h
  obtain ⟨own, hown, rfl⟩ := Outcome.map_eq_ok_iff.1 h
  rw [List.forall_mem_append]
  refine ⟨?_, isNamed_ownExtensions hown⟩
  split
  · exact List.forall_mem_singleton.2 (authorityKeyExtension_isNamed _)
  · exact nofun

/-- So does a signing request. -/
theorem isNamed_requested {subjectIsEmpty : Bool} {subject : SubjectKey}
    (h : p.requested subjectIsEmpty subject = .ok es) : ∀ e ∈ es, e.IsNamed := by
  obtain ⟨_, -, h⟩ := Outcome.bind_eq_ok_iff.1 h
  obtain ⟨purposes, hpurposes, h⟩ := Outcome.bind_eq_ok_iff.1 h
  rw [← Except.ok.inj h]
  simp only [List.forall_mem_append]
  refine ⟨⟨⟨⟨?_, ?_⟩, ?_⟩, ?_⟩, ?_⟩
  · exact p.isNamed_keyUsageExtension
  · exact p.isNamed_alternativeNameExtension subjectIsEmpty
  · exact isNamed_purposeExtension hpurposes
  · exact p.isNamed_basicConstraintsExtension
  · exact p.isNamed_closingExtensions subject

end ExtensionPlan

/-! ## Views -/

/-- An extension as it stands in a view, if its kind is in the vocabulary. -/
def Extension.viewed? (e : Extension) : Option (ExtensionKind × ExtensionValue) := do
  let k ← kindOfOid? e.oid
  return (k, ⟨e.critical, canonicalValue k e.value⟩)

/-- Of the issuer's key a view only says that it is named. -/
theorem viewed?_authorityKeyExtension {identifier : Bytes}
    (hl : (authorityKeyExtension identifier).value.length < bitLimit 64) :
    (authorityKeyExtension identifier).viewed? =
      some (.authorityKeyIdentifier, ⟨false, .present⟩) := by
  have hkind : kindOfOid? (authorityKeyExtension []).oid = some .authorityKeyIdentifier := by decide
  have hcontent : [implicit 0 identifier].flatten.length < bitLimit 64 := by
    refine Nat.lt_of_le_of_lt ?_ hl
    simp only [authorityKeyExtension, extension, seqOf, element, List.length_cons,
      List.length_append]
    omega
  have htag : tagged tagSequence .tolerant (seqOf [implicit 0 identifier] ++ []) =
      some ([implicit 0 identifier].flatten, []) := tagged_element (by decide) hcontent
  have hread : authorityKeyIdentifier .tolerant (authorityKeyExtension identifier).value =
      some (.present, []) := by
    rw [authorityKeyIdentifier, bind_eq_some_iff]
    rw [List.append_nil] at htag
    exact ⟨_, _, htag, rfl⟩
  have hvalue : readValue? .authorityKeyIdentifier (authorityKeyExtension identifier).value =
      some .present := congrArg (Option.map Prod.fst) hread
  rw [Extension.viewed?, show kindOfOid? (authorityKeyExtension identifier).oid = _ from hkind]
  simp only [canonicalValue, hvalue, Option.bind_eq_bind, Option.bind_some, Option.getD_some]
  rfl

/-- Two certificates of one plan have extensions that look the same, whoever issues them. -/
theorem ExtensionPlan.viewOf_extensions {p : ExtensionPlan} {c c' : ExtensionContext}
    {es es' : List Extension} (hempty : c.subjectIsEmpty = c'.subjectIsEmpty)
    (hsubject : c.subject = c'.subject)
    (h : p.extensions c = .ok es) (h' : p.extensions c' = .ok es')
    (hl : ∀ e ∈ es, e.value.length < bitLimit 64)
    (hl' : ∀ e ∈ es', e.value.length < bitLimit 64) : viewOf es = viewOf es' := by
  rw [extensions_eq] at h h'
  obtain ⟨own, hown, rfl⟩ := Outcome.map_eq_ok_iff.1 h
  rw [← hempty, ← hsubject, hown] at h'
  obtain rfl := Except.ok.inj h'
  suffices hview : ∀ {identifier : Bytes},
      (∀ e ∈ (if p.authorityKeyIdentifier then [authorityKeyExtension identifier] else []) ++ own,
        e.value.length < bitLimit 64) →
      (if p.authorityKeyIdentifier then [authorityKeyExtension identifier] else []).filterMap
        Extension.viewed? = if p.authorityKeyIdentifier then
          [(.authorityKeyIdentifier, ⟨false, .present⟩)] else [] by
    change ExtensionSet.ofList (List.filterMap Extension.viewed? _) =
      ExtensionSet.ofList (List.filterMap Extension.viewed? _)
    rw [List.filterMap_append, List.filterMap_append, hview hl, hview hl']
  intro identifier hlength
  split
  · rename_i hnamed
    rw [if_pos hnamed] at hlength
    have hkey := viewed?_authorityKeyExtension (hlength _ List.mem_cons_self)
    rw [List.filterMap_cons, hkey]
    rfl
  · rfl

end X509
end CertAuthority
