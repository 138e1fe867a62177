import CertAuthority.Detect

/-!
# When principals differ

Both sides of a difference are taken as sets of names, and every principal is put in as one more
name, `allPrincipals`.

* `mem_principalNames_list` : the set of an explicit list is that of its names;
* `principalsDiff_eq_none_iff_mem` : nothing differs between the same sets;
* `principalsDiff_eq_none_iff` : when that is so in terms of the principals themselves.
-/

namespace CertAuthority

namespace Principals

/-- Valid for every principal. -/
def IsUnlimited (p : Principals) : Prop := p = .all ∨ p = .unspecified

/-- Names the marker of every principal and nobody else. -/
def NamesOnlyMarker (p : Principals) : Prop :=
  ∃ names, p = .list names ∧ names ≠ [] ∧ ∀ s ∈ names, s = allPrincipals

/-- Every principal on both sides, or lists of the same names in whatever order and number. -/
def Same (p q : Principals) : Prop :=
  p.IsUnlimited ∧ q.IsUnlimited ∨
    ∃ a b, p = .list a ∧ q = .list b ∧ ∀ s, s ∈ a ↔ s ∈ b

theorem isUnlimited_or_list (p : Principals) : p.IsUnlimited ∨ ∃ names, p = .list names := by
  cases p with
  | all => exact .inl (.inl rfl)
  | unspecified => exact .inl (.inr rfl)
  | list names => exact .inr ⟨names, rfl⟩

theorem not_isUnlimited_list (names : List String) : ¬(Principals.list names).IsUnlimited := by
  rintro (h | h) <;> cases h

theorem Same.symm {p q : Principals} (h : p.Same q) : q.Same p := by
  obtain ⟨hp, hq⟩ | ⟨a, b, hp, hq, hmem⟩ := h
  · exact .inl ⟨hq, hp⟩
  · exact .inr ⟨b, a, hq, hp, fun s => (hmem s).symm⟩

theorem same_iff_of_isUnlimited {p q : Principals} (hp : p.IsUnlimited) :
    p.Same q ↔ q.IsUnlimited := by
  constructor
  · rintro (⟨-, hq⟩ | ⟨a, -, rfl, -⟩)
    · exact hq
    · exact absurd hp (not_isUnlimited_list a)
  · exact fun hq => .inl ⟨hp, hq⟩

theorem same_list_iff {a b : List String} :
    (Principals.list a).Same (.list b) ↔ ∀ s, s ∈ a ↔ s ∈ b := by
  constructor
  · rintro (⟨h, -⟩ | ⟨a', b', ha, hb, hmem⟩)
    · exact absurd h (not_isUnlimited_list a)
    · cases ha
      cases hb
      exact hmem
  · exact fun hmem => .inr ⟨a, b, rfl, rfl, hmem⟩

end Principals

/-! ## The sets that are compared -/

theorem mem_insertName {s t : String} {names : List String} :
    t ∈ insertName s names ↔ t = s ∨ t ∈ names := by
  fun_induction insertName s names with
  | case1 => exact List.mem_cons
  | case2 => exact List.mem_cons
  | case3 => rw [List.mem_cons, or_self_left]
  | case4 _ _ _ _ ih => rw [List.mem_cons, ih, List.mem_cons, or_left_comm]

theorem mem_foldl_insertName {t : String} {names out : List String} :
    t ∈ names.foldl (fun out s => insertName s out) out ↔ t ∈ names ∨ t ∈ out := by
  induction names generalizing out with
  | nil => rw [List.foldl_nil, or_iff_right List.not_mem_nil]
  | cons s rest ih =>
    rw [List.foldl_cons, ih, mem_insertName, List.mem_cons, or_assoc, or_left_comm]

theorem mem_principalNames_list {t : String} {names : List String} :
    t ∈ principalNames (.list names) ↔ t ∈ names := by
  rw [principalNames, mem_foldl_insertName, or_iff_left List.not_mem_nil]

theorem principalNames_of_isUnlimited {p : Principals} (h : p.IsUnlimited) :
    principalNames p = [allPrincipals] := by
  obtain rfl | rfl := h <;> rfl

/-- Nothing is missing from `a` exactly when it holds every name of `b`. -/
theorem isEmpty_missing_iff {a b : List String} :
    (b.filter (!a.contains ·)).isEmpty = true ↔ ∀ s ∈ b, s ∈ a := by
  simp

theorem principalsDiff_eq_none_iff_mem {p q : Principals} :
    principalsDiff p q = none ↔ ∀ s, s ∈ principalNames p ↔ s ∈ principalNames q := by
  rw [principalsDiff]
  split
  · rename_i h
    obtain ⟨hadded, hremoved⟩ := Bool.and_eq_true_iff.1 h
    exact iff_of_true rfl fun s =>
      ⟨isEmpty_missing_iff.1 hremoved s, isEmpty_missing_iff.1 hadded s⟩
  · rename_i h
    refine iff_of_false nofun fun hmem => h (Bool.and_eq_true_iff.2 ⟨?_, ?_⟩)
    · exact isEmpty_missing_iff.2 fun s => (hmem s).2
    · exact isEmpty_missing_iff.2 fun s => (hmem s).1

/-- Against every principal nothing differs as soon as the marker is the only name. -/
theorem principalsDiff_eq_none_iff_of_isUnlimited {p q : Principals} (hp : p.IsUnlimited) :
    principalsDiff p q = none ↔ q.IsUnlimited ∨ q.NamesOnlyMarker := by
  rw [principalsDiff_eq_none_iff_mem, principalNames_of_isUnlimited hp]
  obtain hq | ⟨names, rfl⟩ := q.isUnlimited_or_list
  · rw [principalNames_of_isUnlimited hq]
    exact iff_of_true (fun _ => Iff.rfl) (.inl hq)
  · simp only [mem_principalNames_list, List.mem_singleton]
    rw [or_iff_right (Principals.not_isUnlimited_list names)]
    constructor
    · intro hmem
      refine ⟨names, rfl, List.ne_nil_of_mem ((hmem allPrincipals).1 rfl), ?_⟩
      exact fun s hs => (hmem s).2 hs
    · rintro ⟨_, heq, hne, honly⟩ s
      cases heq
      obtain ⟨t, ht⟩ := List.exists_mem_of_ne_nil names hne
      exact ⟨fun hs => by rw [hs, ← honly t ht]; exact ht, honly s⟩

theorem principalsDiff_eq_none_comm {p q : Principals} :
    principalsDiff p q = none ↔ principalsDiff q p = none := by
  simp only [principalsDiff_eq_none_iff_mem, iff_comm]

/-- **No difference is found exactly between the same principals, and between every principal and a
list of which the marker of every principal is the only name.** -/
theorem principalsDiff_eq_none_iff (p q : Principals) :
    principalsDiff p q = none ↔
      p.Same q ∨ (p.IsUnlimited ∧ q.NamesOnlyMarker) ∨ (p.NamesOnlyMarker ∧ q.IsUnlimited) := by
  obtain hp | ⟨a, rfl⟩ := p.isUnlimited_or_list
  · rw [principalsDiff_eq_none_iff_of_isUnlimited hp, Principals.same_iff_of_isUnlimited hp]
    have hlist : ¬p.NamesOnlyMarker := by
      rintro ⟨a, rfl, -⟩
      exact Principals.not_isUnlimited_list a hp
    rw [and_iff_right hp, or_iff_left (not_and_of_not_left _ hlist)]
  · have ha := Principals.not_isUnlimited_list a
    rw [or_iff_right (not_and_of_not_left _ ha)]
    obtain hq | ⟨b, rfl⟩ := q.isUnlimited_or_list
    · rw [principalsDiff_eq_none_comm, principalsDiff_eq_none_iff_of_isUnlimited hq,
        and_iff_left hq, or_iff_right ha, or_iff_right]
      exact fun h => ha ((Principals.same_iff_of_isUnlimited hq).1 h.symm)
    · rw [or_iff_left (not_and_of_not_right _ (Principals.not_isUnlimited_list b)),
        Principals.same_list_iff, principalsDiff_eq_none_iff_mem]
      simp only [mem_principalNames_list]

/-- A certificate for every principal is unchanged against a list of one name. -/
theorem principalsDiff_marker :
    principalsDiff .all (.list [allPrincipals]) = none ∧
      ¬Principals.Same .all (.list [allPrincipals]) := by
  refine ⟨rfl, fun h => Principals.not_isUnlimited_list [allPrincipals] ?_⟩
  exact (Principals.same_iff_of_isUnlimited (.inl rfl)).1 h

end CertAuthority
