import CertAuthority.Proofs.X509.IssuedExtensions
import Mathlib.Data.List.Nodup

/-!
# Extensions by kind

A list that names no identifier twice has at most one extension of each kind, and its view has just
that one. Whatever is written for a plan is such a list.

* `extensionFor?` : the first extension of a kind;
* `get?_viewOf`, `get?_requestedViewOf` : the views, kind by kind;
* `Parted` : a list made of parts, each for one kind, with `Parted.extensionFor?_eq` and
  `Parted.nodup`;
* `ExtensionPlan.parted_extensions`, `ExtensionPlan.parted_requested` : the lists of a plan.
-/

namespace CertAuthority.X509

open Der

variable {k : ExtensionKind} {es : List Extension}

/-! ## Views -/

/-- The first extension of the kind. -/
def extensionFor? (k : ExtensionKind) (es : List Extension) : Option Extension :=
  es.find? fun e => kindOfOid? e.oid == some k

theorem extensionFor?_cons (e : Extension) (es : List Extension) :
    extensionFor? k (e :: es) =
      if kindOfOid? e.oid = some k then some e else extensionFor? k es := by
  by_cases h : kindOfOid? e.oid = some k <;> simp [extensionFor?, h]

theorem extensionFor?_append (es es' : List Extension) :
    extensionFor? k (es ++ es') = (extensionFor? k es).or (extensionFor? k es') :=
  List.find?_append

theorem extensionOid?_of_kindOfOid? {o : List Nat} (h : kindOfOid? o = some k) :
    extensionOid? k = some o := by
  simpa using List.find?_some h

theorem kindOfOid?_of_extensionFor? {e : Extension} (h : extensionFor? k es = some e) :
    e ∈ es ∧ kindOfOid? e.oid = some k :=
  ⟨List.mem_of_find?_eq_some h, by simpa using List.find?_some h⟩

/-- Behind an extension there is no other one with its identifier. -/
theorem extensionFor?_eq_none {e : Extension} (he : e.oid ∉ es.map (·.oid))
    (hk : kindOfOid? e.oid = some k) : extensionFor? k es = none := by
  rw [extensionFor?, List.find?_eq_none]
  intro e' he' hk'
  have hoid := extensionOid?_of_kindOfOid? (by simpa using hk')
  rw [extensionOid?_of_kindOfOid? hk] at hoid
  exact he (List.mem_map.2 ⟨e', he', (Option.some.inj hoid).symm⟩)

/-- What stands for an extension in a set, by a reading of its kind. -/
def entryBy (value? : ExtensionKind → Extension → Option ExtensionValue) (e : Extension) :
    Option (ExtensionKind × ExtensionValue) :=
  (kindOfOid? e.oid).bind fun k => (value? k e).map fun v => (k, v)

/-- The entries of a list without repetitions, put over a set. -/
theorem get?_putAll_entryBy (value? : ExtensionKind → Extension → Option ExtensionValue)
    (hes : (es.map (·.oid)).Nodup) (s : ExtensionSet) (k : ExtensionKind) :
    (s.putAll (es.filterMap (entryBy value?))).get? k =
      ((extensionFor? k es).bind (value? k)).or (s.get? k) := by
  induction es generalizing s with
  | nil => rfl
  | cons e es ih =>
    rw [List.map_cons, List.nodup_cons] at hes
    rw [extensionFor?_cons]
    cases hj : kindOfOid? e.oid with
    | none =>
      rw [List.filterMap_cons_none (by rw [entryBy, hj, Option.bind_none]), if_neg nofun]
      exact ih hes.2 s
    | some j =>
      -- what comes later does not touch this kind
      have hnone : k = j → extensionFor? k es = none :=
        fun hkj => extensionFor?_eq_none hes.1 (hkj ▸ hj)
      have hentry : entryBy value? e = (value? j e).map fun v => (j, v) := by
        rw [entryBy, hj, Option.bind_some]
      cases hv : value? j e with
      | none =>
        rw [List.filterMap_cons_none (by rw [hentry, hv, Option.map_none]), ih hes.2 s]
        by_cases hkj : k = j
        · rw [hnone hkj, if_pos (hkj ▸ rfl), Option.bind_some, hkj, hv]
          rfl
        · rw [if_neg fun h => hkj (Option.some.inj h).symm]
      | some v =>
        rw [List.filterMap_cons_some (by rw [hentry, hv, Option.map_some])]
        refine (ih hes.2 (s.insert j v)).trans ?_
        rw [ExtensionSet.get?_insert]
        by_cases hkj : k = j
        · rw [hnone hkj, if_pos hkj, if_pos (hkj ▸ rfl), Option.bind_some, hkj, hv]
          rfl
        · rw [if_neg hkj, if_neg fun h => hkj (Option.some.inj h).symm]

theorem get?_viewOf (hes : (es.map (·.oid)).Nodup) (k : ExtensionKind) :
    (viewOf es).get? k =
      (extensionFor? k es).map fun e => ⟨e.critical, canonicalValue k e.value⟩ := by
  have h := get?_putAll_entryBy (fun k e => some ⟨e.critical, canonicalValue k e.value⟩) hes
    .empty k
  rw [ExtensionSet.get?_empty, Option.or_none] at h
  refine Eq.trans ?_ (h.trans ?_)
  · rfl
  · cases extensionFor? k es <;> rfl

/-- The value a signing request is read for. -/
def requestedValue? (k : ExtensionKind) (value : Bytes) : Option AttributeValue :=
  if requestableKinds.contains k then readValue? k value else none

theorem get?_requestedViewOf (hes : (es.map (·.oid)).Nodup) (subjectIsEmpty : Bool)
    (k : ExtensionKind) :
    (requestedViewOf es subjectIsEmpty).get? k =
      (extensionFor? k es).bind fun e =>
        (requestedValue? k e.value).map fun v => ⟨impliedCritical subjectIsEmpty k, v⟩ := by
  have h := get?_putAll_entryBy
    (fun k e => (requestedValue? k e.value).map fun v => ⟨impliedCritical subjectIsEmpty k, v⟩) hes
    .empty k
  rw [ExtensionSet.get?_empty, Option.or_none] at h
  rw [← h]
  refine congrArg (fun entries => (ExtensionSet.ofList entries).get? k)
    (List.filterMap_congr fun e _ => ?_)
  cases hj : kindOfOid? e.oid with
  | none => rw [entryBy, hj]; rfl
  | some j =>
    rw [entryBy, hj, Option.bind_eq_bind, Option.bind_some, Option.bind_some, requestedValue?]
    split
    · cases readValue? j e.value <;> rfl
    · rfl

/-! ## Lists in parts -/

/-- At most one extension, which is of this kind. -/
def IsFor (k : ExtensionKind) (es : List Extension) : Prop :=
  (es.map fun e => kindOfOid? e.oid).Sublist [some k]

theorem isFor_nil (k : ExtensionKind) : IsFor k [] := List.nil_sublist _

theorem isFor_singleton (hk : (extensionOid? k).isSome = true) (critical : Bool) (value : Bytes) :
    IsFor k [extension k critical value] := by
  rw [IsFor, List.map_singleton, kindOfOid?_extension hk]

theorem IsFor.extensionFor?_eq {j : ExtensionKind} (h : IsFor j es) (k : ExtensionKind) :
    extensionFor? k es = if k = j then es.head? else none := by
  cases es with
  | nil => split <;> rfl
  | cons e es =>
    obtain ⟨hj, hnil⟩ := List.cons.inj
      (h.eq_of_length_le (Nat.succ_le_succ (Nat.zero_le _)))
    rw [List.map_eq_nil_iff.1 hnil, extensionFor?_cons, show kindOfOid? e.oid = some j from hj]
    by_cases hkj : k = j
    · rw [if_pos (hkj ▸ rfl), if_pos hkj]
      rfl
    · rw [if_neg fun h => hkj (Option.some.inj h).symm, if_neg hkj]
      rfl

/-- A list in parts, of which each is for a kind of its own. -/
structure Parted (parts : List (ExtensionKind × List Extension)) (es : List Extension) :
    Prop where
  eq : es = parts.flatMap (·.2)
  isFor : ∀ part ∈ parts, IsFor part.1 part.2
  nodup : (parts.map (·.1)).Nodup

namespace Parted

variable {parts : List (ExtensionKind × List Extension)}

/-- What a list has of a kind is in the part for it. -/
theorem extensionFor?_eq (h : Parted parts es) (k : ExtensionKind) :
    extensionFor? k es = (parts.lookup k).bind List.head? := by
  obtain ⟨rfl, hfor, hnodup⟩ := h
  induction parts with
  | nil => rfl
  | cons part parts ih =>
    rw [List.forall_mem_cons] at hfor
    rw [List.map_cons, List.nodup_cons] at hnodup
    rw [List.flatMap_cons, extensionFor?_append, hfor.1.extensionFor?_eq, ih hfor.2 hnodup.2,
      List.lookup_cons]
    by_cases hk : k = part.1
    · subst hk
      have hnone : parts.lookup part.1 = none := by
        refine List.lookup_eq_none_iff.2 fun other hother => bne_iff_ne.2 fun heq => ?_
        exact hnodup.1 (List.mem_map.2 ⟨other, hother, heq.symm⟩)
      rw [hnone, if_pos rfl, Option.bind_none, Option.or_none, beq_self_eq_true]
      rfl
    · rw [if_neg hk, beq_false_of_ne hk]
      rfl

theorem nodup_oids (h : Parted parts es) : (es.map (·.oid)).Nodup := by
  obtain ⟨rfl, hfor, hnodup⟩ := h
  have hkinds : ((parts.flatMap (·.2)).map fun e => kindOfOid? e.oid).Sublist
      ((parts.map (·.1)).map some) := by
    clear hnodup
    induction parts with
    | nil => exact List.Sublist.refl _
    | cons part parts ih =>
      rw [List.forall_mem_cons] at hfor
      rw [List.flatMap_cons, List.map_append, List.map_cons, List.map_cons]
      exact hfor.1.append (ih hfor.2)
  have hsome := (hnodup.map fun _ _ => Option.some.inj).sublist hkinds
  have hmap : ((parts.flatMap (·.2)).map fun e => kindOfOid? e.oid) =
      ((parts.flatMap (·.2)).map (·.oid)).map kindOfOid? := by
    rw [List.map_map]
    rfl
  rw [hmap] at hsome
  exact hsome.of_map

end Parted

/-! ## The lists of a plan -/

namespace ExtensionPlan

variable {p : ExtensionPlan} {c : ExtensionContext}

theorem isFor_keyUsageExtension (p : ExtensionPlan) : IsFor .keyUsage p.keyUsageExtension := by
  unfold keyUsageExtension
  split
  · exact isFor_nil _
  · exact isFor_singleton rfl _ _

theorem isFor_alternativeNameExtension (p : ExtensionPlan) (subjectIsEmpty : Bool) :
    IsFor .subjectAltName (p.alternativeNameExtension subjectIsEmpty) := by
  unfold alternativeNameExtension
  split
  · exact isFor_nil _
  · exact isFor_singleton rfl _ _

theorem isFor_purposeExtension (h : p.purposeExtension = .ok es) : IsFor .extendedKeyUsage es := by
  unfold purposeExtension at h
  split at h
  · rw [← Except.ok.inj h]
    exact isFor_nil _
  · obtain ⟨values, -, h⟩ := Outcome.bind_eq_ok_iff.1 h
    rw [← Except.ok.inj h]
    exact isFor_singleton rfl _ _

theorem isFor_constraintsExtension (h : p.constraintsExtension = .ok es) :
    IsFor .nameConstraints es := by
  unfold constraintsExtension at h
  split at h
  · rw [← Except.ok.inj h]
    exact isFor_nil _
  · split at h
    · rw [← Except.ok.inj h]
      exact isFor_nil _
    · obtain ⟨permitted, -, h⟩ := Outcome.bind_eq_ok_iff.1 h
      obtain ⟨excluded, -, h⟩ := Outcome.bind_eq_ok_iff.1 h
      rw [← Except.ok.inj h]
      exact isFor_singleton rfl _ _

theorem isFor_pointsExtension (h : p.pointsExtension = .ok es) :
    IsFor .crlDistributionPoints es := by
  unfold pointsExtension at h
  split at h
  · rw [← Except.ok.inj h]
    exact isFor_nil _
  · obtain ⟨values, -, h⟩ := Outcome.bind_eq_ok_iff.1 h
    rw [← Except.ok.inj h]
    exact isFor_singleton rfl _ _

theorem isFor_basicConstraintsExtension (p : ExtensionPlan) :
    IsFor .basicConstraints p.basicConstraintsExtension := by
  unfold basicConstraintsExtension
  split
  · exact isFor_nil _
  · exact isFor_singleton rfl _ _
  · exact isFor_singleton rfl _ _

/-- The extension that says no revocation is to be checked. -/
def noCheckPart (p : ExtensionPlan) : List Extension :=
  if p.noCheck then [extension .noCheck false null] else []

def commentPart (p : ExtensionPlan) : List Extension :=
  (p.comment.map fun comment => extension .nsComment false (ia5 comment)).toList

/-- The identifier of the subject's key, where no role brings one. -/
def identifierPart (p : ExtensionPlan) (subject : SubjectKey) : List Extension :=
  if p.subjectKeyIdentifier ∧ p.role = .unstated then
    [extension .subjectKeyIdentifier false (octets subject.bitsHash)]
  else []

theorem closingExtensions_eq (p : ExtensionPlan) (subject : SubjectKey) :
    p.closingExtensions subject = p.noCheckPart ++ p.commentPart ++ p.identifierPart subject := rfl

theorem isFor_noCheckPart (p : ExtensionPlan) : IsFor .noCheck p.noCheckPart := by
  unfold noCheckPart
  split
  · exact isFor_singleton rfl _ _
  · exact isFor_nil _

theorem isFor_commentPart (p : ExtensionPlan) : IsFor .nsComment p.commentPart := by
  unfold commentPart
  cases p.comment with
  | none => exact isFor_nil _
  | some comment => exact isFor_singleton rfl _ _

theorem isFor_identifierPart (p : ExtensionPlan) (subject : SubjectKey) :
    IsFor .subjectKeyIdentifier (p.identifierPart subject) := by
  unfold identifierPart
  split
  · exact isFor_singleton rfl _ _
  · exact isFor_nil _

/-- The extension that names the issuer's key. -/
def authorityPart (p : ExtensionPlan) (identifier : Bytes) : List Extension :=
  if p.authorityKeyIdentifier then [authorityKeyExtension identifier] else []

theorem isFor_authorityPart (p : ExtensionPlan) (identifier : Bytes) :
    IsFor .authorityKeyIdentifier (p.authorityPart identifier) := by
  unfold authorityPart
  split
  · exact isFor_singleton rfl _ _
  · exact isFor_nil _

/-- The parts of a certificate's extensions. The identifier of the subject's key stands before the
role that brings it, or at the end. -/
def certificateParts (p : ExtensionPlan) (c : ExtensionContext)
    (purposes constraints points : List Extension) : List (ExtensionKind × List Extension) :=
  [(.authorityKeyIdentifier, p.authorityPart c.authority),
    (.subjectAltName, p.alternativeNameExtension c.subjectIsEmpty),
    (.keyUsage, p.keyUsageExtension), (.extendedKeyUsage, purposes),
    (.nameConstraints, constraints), (.crlDistributionPoints, points)] ++
  if p.role = .unstated then
    [(.noCheck, p.noCheckPart), (.nsComment, p.commentPart),
      (.subjectKeyIdentifier, p.identifierPart c.subject)]
  else
    [(.subjectKeyIdentifier,
        [extension .subjectKeyIdentifier false (octets c.subject.identifier)]),
      (.basicConstraints, p.basicConstraintsExtension), (.noCheck, p.noCheckPart),
      (.nsComment, p.commentPart)]

/-- The parts of what a signing request asks for. -/
def requestParts (p : ExtensionPlan) (subjectIsEmpty : Bool) (subject : SubjectKey)
    (purposes : List Extension) : List (ExtensionKind × List Extension) :=
  [(.keyUsage, p.keyUsageExtension), (.subjectAltName, p.alternativeNameExtension subjectIsEmpty),
    (.extendedKeyUsage, purposes), (.basicConstraints, p.basicConstraintsExtension),
    (.noCheck, p.noCheckPart), (.nsComment, p.commentPart),
    (.subjectKeyIdentifier, p.identifierPart subject)]

theorem parted_extensions (h : p.extensions c = .ok es) :
    ∃ purposes constraints points, p.purposeExtension = .ok purposes ∧
      Parted (p.certificateParts c purposes constraints points) es := by
  obtain ⟨purposes, hpurposes, h⟩ := Outcome.bind_eq_ok_iff.1 h
  obtain ⟨constraints, hconstraints, h⟩ := Outcome.bind_eq_ok_iff.1 h
  obtain ⟨points, hpoints, h⟩ := Outcome.bind_eq_ok_iff.1 h
  refine ⟨purposes, constraints, points, hpurposes, ?_, ?_, ?_⟩
  · rw [← Except.ok.inj h, closingExtensions_eq, certificateParts]
    by_cases hrole : p.role = .unstated
    · simp [hrole, basicConstraintsExtension, authorityPart]
    · have hidentifier : p.identifierPart c.subject = [] := if_neg fun h => hrole h.2
      simp [hrole, hidentifier, authorityPart]
  · unfold certificateParts
    rw [List.forall_mem_append]
    refine ⟨?_, ?_⟩
    · simp only [List.forall_mem_cons]
      exact ⟨isFor_authorityPart _ _, isFor_alternativeNameExtension _ _,
        isFor_keyUsageExtension _, isFor_purposeExtension hpurposes,
        isFor_constraintsExtension hconstraints, isFor_pointsExtension hpoints, nofun⟩
    · split <;> simp only [List.forall_mem_cons]
      · exact ⟨isFor_noCheckPart _, isFor_commentPart _, isFor_identifierPart _ _, nofun⟩
      · exact ⟨isFor_singleton rfl _ _, isFor_basicConstraintsExtension _, isFor_noCheckPart _,
          isFor_commentPart _, nofun⟩
  · unfold certificateParts
    split <;> simp

theorem parted_requested {subjectIsEmpty : Bool} {subject : SubjectKey}
    (h : p.requested subjectIsEmpty subject = .ok es) :
    ∃ purposes, p.purposeExtension = .ok purposes ∧
      Parted (p.requestParts subjectIsEmpty subject purposes) es := by
  obtain ⟨_, -, h⟩ := Outcome.bind_eq_ok_iff.1 h
  obtain ⟨purposes, hpurposes, h⟩ := Outcome.bind_eq_ok_iff.1 h
  refine ⟨purposes, hpurposes, ?_, ?_, by simp [requestParts]⟩
  · rw [← Except.ok.inj h, closingExtensions_eq]
    simp [requestParts]
  · simp only [requestParts, List.forall_mem_cons]
    exact ⟨isFor_keyUsageExtension _, isFor_alternativeNameExtension _ _,
      isFor_purposeExtension hpurposes, isFor_basicConstraintsExtension _, isFor_noCheckPart _,
      isFor_commentPart _, isFor_identifierPart _ _, nofun⟩

end ExtensionPlan

end CertAuthority.X509
