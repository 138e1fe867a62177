import CertAuthority.Error
import CertAuthority.Name.Basic
import Mathlib.Data.List.Nodup

/-!
# The values of an attribute

A list of attributes with their values is seen through `NameAttribute.valuesIn`, all values it gives
one attribute. Putting a value replaces the first of them, and a name has at most one.

* `foldl_put_eq_append` : pairs with keys of their own are put one behind the other;
* `NameAttribute.valuesIn` : one lemma each for `put`, a run of them, and a sort by attribute;
* `DistinguishedName.get?_pushAll` : of the pairs pushed, the last one of an attribute counts;
* `DistinguishedName.IsUnique` : no attribute stands twice, and `DistinguishedName.ofPairs_entries` :
  such a name is rebuilt from its attributes;
* `SubjectSpec.isUnique_toName` : so it is in the name of every subject.
-/

namespace CertAuthority

/-! ## Pairs one behind the other -/

/-- Where a new key goes to the end, pairs with different keys stay in their order. -/
theorem foldl_put_eq_append {α β : Type} {put : α → β → List (α × β) → List (α × β)}
    (hput : ∀ a b out, a ∉ out.map (·.1) → put a b out = out ++ [(a, b)])
    {out pairs : List (α × β)} (h : ((out ++ pairs).map (·.1)).Nodup) :
    pairs.foldl (fun out p => put p.1 p.2 out) out = out ++ pairs := by
  induction pairs generalizing out with
  | nil => exact (List.append_nil out).symm
  | cons p pairs ih =>
    have hnew : p.1 ∉ out.map (·.1) := by
      rw [List.map_append, List.map_cons] at h
      exact fun hmem => (List.nodup_append.1 h).2.2 _ hmem _ List.mem_cons_self rfl
    rw [List.foldl_cons, hput p.1 p.2 out hnew, ih (by rwa [List.append_assoc]),
      List.append_assoc]
    rfl

/-! ## Values -/

namespace NameAttribute

/-- All values that the pairs give the attribute, in order. -/
def valuesIn (a : NameAttribute) (pairs : List (NameAttribute × String)) : List String :=
  (pairs.filter fun p => p.1 = a).map (·.2)

@[simp] theorem valuesIn_nil (a : NameAttribute) : a.valuesIn [] = [] := rfl

theorem valuesIn_cons (a b : NameAttribute) (v : String) (pairs : List (NameAttribute × String)) :
    a.valuesIn ((b, v) :: pairs) = if b = a then v :: a.valuesIn pairs else a.valuesIn pairs := by
  by_cases h : b = a <;> simp [valuesIn, h]

theorem valuesIn_append (a : NameAttribute) (pairs more : List (NameAttribute × String)) :
    a.valuesIn (pairs ++ more) = a.valuesIn pairs ++ a.valuesIn more := by
  simp [valuesIn]

theorem lookup_eq_head?_valuesIn (a : NameAttribute) (pairs : List (NameAttribute × String)) :
    pairs.lookup a = (a.valuesIn pairs).head? := by
  induction pairs with
  | nil => rfl
  | cons p pairs ih =>
    obtain ⟨b, v⟩ := p
    rw [valuesIn_cons, List.lookup_cons]
    by_cases h : b = a
    · simp [h]
    · have hb : (a == b) = false := by simpa using fun e => h e.symm
      simp [h, hb, ih]

theorem valuesIn_put (a b : NameAttribute) (v : String) (pairs : List (NameAttribute × String)) :
    a.valuesIn (DistinguishedName.put b v pairs) =
      if b = a then v :: (a.valuesIn pairs).tail else a.valuesIn pairs := by
  induction pairs with
  | nil => simp [DistinguishedName.put, valuesIn_cons]
  | cons p pairs ih =>
    obtain ⟨found, w⟩ := p
    rw [DistinguishedName.put]
    split
    · rename_i hf
      subst hf
      rw [valuesIn_cons, valuesIn_cons]
      by_cases ha : found = a <;> simp [ha]
    · rename_i hf
      rw [valuesIn_cons, valuesIn_cons, ih]
      by_cases ha : found = a
      · have hb : b ≠ a := fun e => hf (ha.trans e.symm)
        simp [ha, hb]
      · simp [ha]

/-- Of several values put, the last one stands in place of the first one there was. -/
theorem valuesIn_foldl_put (a : NameAttribute) (more pairs : List (NameAttribute × String)) :
    a.valuesIn (more.foldl (fun out (b, v) => DistinguishedName.put b v out) pairs) =
      match (a.valuesIn more).getLast? with
      | some v => v :: (a.valuesIn pairs).tail
      | none => a.valuesIn pairs := by
  induction more generalizing pairs with
  | nil => rfl
  | cons p more ih =>
    obtain ⟨b, v⟩ := p
    rw [List.foldl_cons, ih, valuesIn_put, valuesIn_cons]
    by_cases hb : b = a
    · cases hl : (a.valuesIn more).getLast? <;> simp [hb, List.getLast?_cons, hl]
    · simp [hb]

/-- A stable sort by attribute leaves the values of each attribute in their order. -/
theorem valuesIn_mergeSort (a : NameAttribute) (pairs : List (NameAttribute × String)) :
    a.valuesIn (pairs.mergeSort fun p q => p.1.rank ≤ q.1.rank) = a.valuesIn pairs := by
  have hsub : (pairs.filter fun p => p.1 = a).Sublist
      (pairs.mergeSort fun p q => p.1.rank ≤ q.1.rank) := by
    refine List.sublist_mergeSort ?_ ?_ ?_ List.filter_sublist
    · intro p q r hpq hqr
      simp only [decide_eq_true_eq] at hpq hqr ⊢
      omega
    · intro p q
      simp only [Bool.or_eq_true, decide_eq_true_eq]
      omega
    · rw [List.pairwise_filter]
      refine List.pairwise_of_forall fun p q => ?_
      simp only [decide_eq_true_eq]
      rintro rfl hq
      exact Nat.le_of_eq (by rw [hq])
  have hlen : ((pairs.mergeSort fun p q => p.1.rank ≤ q.1.rank).filter fun p => p.1 = a).length =
      (pairs.filter fun p => p.1 = a).length :=
    ((List.mergeSort_perm pairs _).filter _).length_eq
  have heq := (hsub.filter fun p => p.1 = a).eq_of_length (by simpa using hlen.symm)
  rw [List.filter_filter] at heq
  simp only [valuesIn, ← heq, Bool.and_self]

end NameAttribute

namespace DistinguishedName

/-- No attribute stands twice. -/
def IsUnique (dn : DistinguishedName) : Prop :=
  ∀ a : NameAttribute, (a.valuesIn dn.entries).length ≤ 1

theorem entries_pushAll (dn : DistinguishedName) (pairs : List (NameAttribute × String)) :
    (dn.pushAll pairs).entries = pairs.foldl (fun out (a, v) => put a v out) dn.entries := by
  induction pairs generalizing dn with
  | nil => rfl
  | cons p pairs ih => exact ih _

theorem isUnique_pushAll {dn : DistinguishedName} (h : dn.IsUnique)
    (pairs : List (NameAttribute × String)) : (dn.pushAll pairs).IsUnique := by
  intro a
  have ha := h a
  rw [entries_pushAll, NameAttribute.valuesIn_foldl_put]
  cases (a.valuesIn pairs).getLast? with
  | none => exact ha
  | some v =>
    simp only [List.length_cons, List.length_tail]
    omega

theorem isUnique_empty : empty.IsUnique := fun _ => Nat.zero_le 1

theorem isUnique_ofPairs (pairs : List (NameAttribute × String)) : (ofPairs pairs).IsUnique :=
  isUnique_pushAll isUnique_empty pairs

/-- Of the pairs pushed onto a name, the last one of an attribute counts. -/
theorem get?_pushAll (dn : DistinguishedName) (pairs : List (NameAttribute × String))
    (a : NameAttribute) :
    (dn.pushAll pairs).get? a = (a.valuesIn pairs).getLast?.or (dn.get? a) := by
  rw [get?, get?, NameAttribute.lookup_eq_head?_valuesIn, NameAttribute.lookup_eq_head?_valuesIn,
    entries_pushAll, NameAttribute.valuesIn_foldl_put]
  cases (a.valuesIn pairs).getLast? <;> simp

theorem get?_ofPairs (pairs : List (NameAttribute × String)) (a : NameAttribute) :
    (ofPairs pairs).get? a = (a.valuesIn pairs).getLast? := by
  rw [ofPairs, get?_pushAll]
  exact Option.or_none

theorem put_of_notMem (a : NameAttribute) (v : String) (out : List (NameAttribute × String))
    (h : a ∉ out.map (·.1)) : put a v out = out ++ [(a, v)] := by
  induction out with
  | nil => rfl
  | cons p out ih =>
    rw [List.map_cons, List.mem_cons, not_or] at h
    rw [put, if_neg fun heq => h.1 heq.symm, ih h.2]
    rfl

theorem nodup_of_isUnique {dn : DistinguishedName} (h : dn.IsUnique) :
    (dn.entries.map (·.1)).Nodup := by
  rw [List.nodup_iff_count_le_one]
  intro a
  have ha := h a
  rw [NameAttribute.valuesIn, List.length_map] at ha
  rw [List.count, List.countP_map, List.countP_eq_length_filter]
  exact ha

/-- A name is rebuilt from its attributes. -/
theorem ofPairs_entries {dn : DistinguishedName} (h : dn.IsUnique) : ofPairs dn.entries = dn := by
  have hfold : (ofPairs dn.entries).entries = dn.entries := by
    rw [ofPairs, entries_pushAll]
    exact foldl_put_eq_append put_of_notMem (List.nil_append dn.entries ▸ nodup_of_isUnique h)
  exact congrArg DistinguishedName.mk hfold

theorem mem_of_mem_put {a : NameAttribute} {v : String} {p : NameAttribute × String}
    {out : List (NameAttribute × String)} (h : p ∈ put a v out) : p = (a, v) ∨ p ∈ out := by
  induction out with
  | nil => exact .inl (List.mem_singleton.1 h)
  | cons q out ih =>
    rw [put] at h
    split at h
    · exact (List.mem_cons.1 h).imp_right (List.mem_cons_of_mem q)
    · rcases List.mem_cons.1 h with rfl | h
      · exact .inr List.mem_cons_self
      · exact (ih h).imp_right (List.mem_cons_of_mem q)

theorem mem_of_mem_foldl_put {p : NameAttribute × String} {pairs out : List (NameAttribute × String)}
    (h : p ∈ pairs.foldl (fun out (a, v) => put a v out) out) : p ∈ out ∨ p ∈ pairs := by
  induction pairs generalizing out with
  | nil => exact .inl h
  | cons q pairs ih =>
    rcases ih h with hput | hmem
    · exact (mem_of_mem_put hput).symm.imp_right fun (heq : p = q) => heq ▸ List.mem_cons_self
    · exact .inr (List.mem_cons_of_mem q hmem)

/-- Nothing stands in a name but what was pushed. -/
theorem mem_of_mem_ofPairs {pairs : List (NameAttribute × String)} {p : NameAttribute × String}
    (h : p ∈ (ofPairs pairs).entries) : p ∈ pairs := by
  rw [ofPairs, entries_pushAll] at h
  exact (mem_of_mem_foldl_put h).resolve_left List.not_mem_nil

end DistinguishedName

/-! ## Subjects -/

namespace SubjectSpec

/-- What a subject says, pair by pair, in the order in which its name takes them. -/
def pairs : SubjectSpec → Except NameError (List (NameAttribute × String))
  | .text s => (((DistinguishedName.splitUnescaped s.toList).filter fun p =>
      !(Text.trimChars p).isEmpty).map String.ofList).mapM DistinguishedName.parsePair
  | .list rdns => rdns.mapM DistinguishedName.parsePair
  | .map entries => do
    return (← entries.mapM mapEntry).mergeSort fun a b => a.1.rank ≤ b.1.rank

theorem toName_eq (s : SubjectSpec) : s.toName = DistinguishedName.ofPairs <$> s.pairs := by
  cases s with
  | text s => rfl
  | list rdns => rfl
  | map entries =>
    simp only [toName, pairs]
    cases entries.mapM mapEntry <;> rfl

theorem toName_eq_ok_iff {s : SubjectSpec} {d : DistinguishedName} :
    s.toName = .ok d ↔ ∃ pairs, s.pairs = .ok pairs ∧ DistinguishedName.ofPairs pairs = d := by
  rw [toName_eq, Outcome.map_eq_ok_iff]

theorem isUnique_toName {s : SubjectSpec} {d : DistinguishedName} (h : s.toName = .ok d) :
    d.IsUnique := by
  obtain ⟨pairs, -, rfl⟩ := toName_eq_ok_iff.1 h
  exact DistinguishedName.isUnique_ofPairs pairs

end SubjectSpec
end CertAuthority
