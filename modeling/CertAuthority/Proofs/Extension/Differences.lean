import CertAuthority.Proofs.Certificate.Changes
import CertAuthority.Proofs.Json.Values

/-!
# What the difference of two extension sets tells

Each kind is new, changed, gone or the same. It is changed if the flag differs, or the values differ
anywhere inside: lists item by item, and maps key by key.

* `AttributeValue.headAt?` : what stands at a place inside a value, and
  `AttributeValue.ne_iff_exists_headAt?_ne` : values are told apart by that alone;
* `ExtensionDiff.Adds`, `ExtensionDiff.Changes`, `ExtensionDiff.Removes` : what can become of a
  kind;
* `ExtensionDiff.mem_added_iff`, `ExtensionDiff.mem_changed_iff`, `ExtensionDiff.mem_removed_iff` :
  each list of a difference holds the kinds of one of the three;
* `ExtensionDiff.each_kind_told` : all of it together.
-/

namespace CertAuthority

/-! ## Maps -/

namespace Json

variable {α : Type}

/-- The first key of one map is found in the other only from the other's first key on. -/
theorem not_lt_of_lookup_eq {e f : String × α} {members others : List (String × α)}
    (ho : InKeyOrder (f :: others))
    (h : (e :: members).lookup e.1 = (f :: others).lookup e.1) : ¬ e.1 < f.1 := by
  intro hlt
  have hbeyond : ∀ x ∈ f :: others, e.1 < x.1 := by
    intro x hx
    obtain rfl | hx := List.mem_cons.1 hx
    · exact hlt
    · exact String.lt_trans hlt ((List.pairwise_cons.1 ho).1 x hx)
  rw [lookup_eq_none_of_lt hbeyond, lookup_cons, if_pos rfl] at h
  cases h

/-- A map is what is found in it. -/
theorem InKeyOrder.eq_of_lookup_eq {members others : List (String × α)} (hm : InKeyOrder members)
    (ho : InKeyOrder others) (h : ∀ key, members.lookup key = others.lookup key) :
    members = others := by
  induction members generalizing others with
  | nil =>
    cases others with
    | nil => rfl
    | cons f others =>
      obtain ⟨l, w⟩ := f
      simpa using h l
  | cons e members ih =>
    cases others with
    | nil =>
      obtain ⟨k, v⟩ := e
      simpa using h k
    | cons f others =>
      have hkeys : e.1 = f.1 := String.le_antisymm
        (String.not_lt.1 (not_lt_of_lookup_eq hm (h f.1).symm))
        (String.not_lt.1 (not_lt_of_lookup_eq ho (h e.1)))
      obtain ⟨k, v⟩ := e
      obtain ⟨l, w⟩ := f
      obtain rfl : k = l := hkeys
      obtain ⟨hbeyond, hmembers⟩ := List.pairwise_cons.1 hm
      obtain ⟨hbeyond', hothers⟩ := List.pairwise_cons.1 ho
      obtain rfl : v = w := by simpa using h k
      rw [ih hmembers hothers fun key => ?_]
      by_cases hkey : key = k
      · rw [hkey, lookup_eq_none_of_lt hbeyond, lookup_eq_none_of_lt hbeyond']
      · simpa [hkey] using h key

end Json

/-! ## Places inside a value -/

namespace AttributeValue

/-- A step into a value. -/
inductive Step where
  | item (i : Nat)
  | key (k : String)

/-- A value without the values inside it. -/
def head : AttributeValue → AttributeValue
  | .list _ => .list []
  | .map _ => .map []
  | a => a

/-- What stands at the end of a path into a value. -/
def headAt? : List Step → AttributeValue → Option AttributeValue
  | [], a => some a.head
  | .item i :: path, .list items => items[i]?.bind (headAt? path)
  | .key k :: path, .map entries => (entries.lookup k).bind (headAt? path)
  | _ :: _, _ => none

/-- The values have the same at every place. -/
def Same (a b : AttributeValue) : Prop := ∀ path, headAt? path a = headAt? path b

theorem eq_of_bind_headAt? {x y : Option AttributeValue}
    (h : ∀ path, x.bind (headAt? path) = y.bind (headAt? path))
    (hsame : ∀ a ∈ x, ∀ b ∈ y, a.Same b → a = b) : x = y := by
  cases x with
  | none =>
    cases y with
    | none => rfl
    | some b => cases h []
  | some a =>
    cases y with
    | none => cases h []
    | some b => exact congrArg some (hsame a rfl b rfl h)

theorem Same.head_eq {a b : AttributeValue} (h : a.Same b) : a.head = b.head :=
  Option.some.inj (h [])

/-- Values as a program holds them are equal if they have the same at every place. -/
theorem Same.eq {a b : AttributeValue} (h : a.Same b) (ha : a.IsWritable) (hb : b.IsWritable) :
    a = b := by
  induction ha generalizing b with
  | present => cases b <;> cases h.head_eq; rfl
  | text s => cases b <;> cases h.head_eq; rfl
  | bytes x => cases b <;> cases h.head_eq; rfl
  | integer hn => cases b <;> cases h.head_eq; rfl
  | list hitems ih =>
    cases hb with
    | list hitems' =>
      refine congrArg list (List.ext_getElem? fun i => eq_of_bind_headAt? (fun path => ?_) ?_)
      · exact h (.item i :: path)
      · exact fun x hx y hy hxy =>
          ih x (List.mem_of_getElem? hx) hxy (hitems' y (List.mem_of_getElem? hy))
    | _ => cases h.head_eq
  | map horder hvalues ih =>
    cases hb with
    | map horder' hvalues' =>
      refine congrArg map (horder.eq_of_lookup_eq horder' fun k =>
        eq_of_bind_headAt? (fun path => ?_) ?_)
      · exact h (.key k :: path)
      · exact fun x hx y hy hxy =>
          ih (k, x) (Text.mem_of_lookup hx) hxy (hvalues' (k, y) (Text.mem_of_lookup hy))
    | _ => cases h.head_eq

/-- Values differ if and only if they differ at some place. -/
theorem ne_iff_exists_headAt?_ne {a b : AttributeValue} (ha : a.IsWritable) (hb : b.IsWritable) :
    a ≠ b ↔ ∃ path, headAt? path a ≠ headAt? path b := by
  rw [← not_forall]
  exact not_congr ⟨fun h path => congrArg (headAt? path) h, fun h => Same.eq h ha hb⟩

end AttributeValue

/-! ## Kinds -/

theorem ExtensionKind.nodup_all : all.Nodup := by decide

namespace ExtensionDiff

variable {existing desired : ExtensionSet} {k : ExtensionKind} {v w : ExtensionValue}

/-- Only the wanted set has the kind. -/
def Adds (existing desired : ExtensionSet) (k : ExtensionKind) : Prop :=
  existing.get? k = none ∧ ∃ w, desired.get? k = some w

/-- Both sets have the kind, with another flag or another value. -/
def Changes (existing desired : ExtensionSet) (k : ExtensionKind) : Prop :=
  ∃ v w, existing.get? k = some v ∧ desired.get? k = some w ∧
    (v.critical ≠ w.critical ∨ v.value ≠ w.value)

/-- Only the existing set has the kind. -/
def Removes (existing desired : ExtensionSet) (k : ExtensionKind) : Prop :=
  (∃ v, existing.get? k = some v) ∧ desired.get? k = none

theorem mem_added_iff : k ∈ (compare existing desired).added ↔ Adds existing desired k := by
  simp [compare, ExtensionSet.kinds, ExtensionKind.mem_all, ExtensionSet.contains, Adds,
    Option.isSome_iff_exists]

theorem mem_removed_iff : k ∈ (compare existing desired).removed ↔ Removes existing desired k := by
  simp [compare, ExtensionSet.kinds, ExtensionKind.mem_all, ExtensionSet.contains, Removes,
    Option.isSome_iff_exists, and_comm]

theorem value_ne_iff : v ≠ w ↔ v.critical ≠ w.critical ∨ v.value ≠ w.value := by
  cases v
  cases w
  rw [Ne, ExtensionValue.mk.injEq, not_and_or]

theorem mem_changed_iff : k ∈ (compare existing desired).changed ↔ Changes existing desired k := by
  simp only [compare, ExtensionSet.kinds, List.mem_filter, ExtensionKind.mem_all, true_and,
    ExtensionSet.contains, Changes]
  cases existing.get? k with
  | none => simp
  | some v => cases desired.get? k <;> simp [value_ne_iff]

/-- What a kind in both sets has to differ in. -/
theorem mem_changed_iff_of_get? (hexisting : existing.get? k = some v)
    (hdesired : desired.get? k = some w) (hv : v.value.IsWritable) (hw : w.value.IsWritable) :
    k ∈ (compare existing desired).changed ↔ v.critical ≠ w.critical ∨
      ∃ path, v.value.headAt? path ≠ w.value.headAt? path := by
  rw [mem_changed_iff, ← AttributeValue.ne_iff_exists_headAt?_ne hv hw]
  simp [Changes, hexisting, hdesired]

theorem isEmpty_iff : (compare existing desired).isEmpty = true ↔ existing = desired := by
  rw [← between_eq_none_iff, between]
  simp

/-- The lists of a difference, in the order in which they are written. -/
def lists (d : ExtensionDiff) : List (List ExtensionKind) := [d.added, d.changed, d.removed]

/-- Each list is in the order of the kinds. -/
theorem sublist_all_of_mem_lists {ks : List ExtensionKind}
    (h : ks ∈ (compare existing desired).lists) : ks.Sublist ExtensionKind.all := by
  simp only [lists, List.mem_cons, List.not_mem_nil, or_false] at h
  obtain rfl | rfl | rfl := h
  all_goals exact List.filter_sublist.trans List.filter_sublist

/-- No two lists name the same kind. -/
theorem pairwise_disjoint_lists (existing desired : ExtensionSet) :
    (compare existing desired).lists.Pairwise List.Disjoint := by
  have hadded : ∀ k ∈ (compare existing desired).added, existing.get? k = none :=
    fun k hk => (mem_added_iff.1 hk).1
  have hchanged : ∀ k ∈ (compare existing desired).changed,
      existing.get? k ≠ none ∧ desired.get? k ≠ none := by
    intro k hk
    obtain ⟨v, w, hv, hw, -⟩ := mem_changed_iff.1 hk
    simp [hv, hw]
  have hremoved : ∀ k ∈ (compare existing desired).removed,
      existing.get? k ≠ none ∧ desired.get? k = none := by
    intro k hk
    obtain ⟨⟨v, hv⟩, hw⟩ := mem_removed_iff.1 hk
    simp [hv, hw]
  simp only [lists, List.pairwise_cons, List.forall_mem_cons, List.Pairwise.nil, and_true,
    List.not_mem_nil, false_imp_iff, implies_true]
  refine ⟨⟨?_, ?_⟩, ?_⟩
  · exact fun k hk hk' => (hchanged k hk').1 (hadded k hk)
  · exact fun k hk hk' => (hremoved k hk').1 (hadded k hk)
  · exact fun k hk hk' => (hchanged k hk).2 (hremoved k hk').2

/-- **A difference tells exactly what becomes of each kind.** Its lists hold the kinds that only the
wanted set has, those in both sets with another flag or another value, and those that only the
existing set has. Another value is one with something else at some place, however deep. Each list is
in the order of the kinds and names no kind twice, and no two lists name the same one. All are empty
if and only if the sets are equal. -/
theorem each_kind_told (existing desired : ExtensionSet) :
    (∀ k, (k ∈ (compare existing desired).added ↔ Adds existing desired k) ∧
      (k ∈ (compare existing desired).changed ↔ Changes existing desired k) ∧
      (k ∈ (compare existing desired).removed ↔ Removes existing desired k)) ∧
    (∀ k v w, existing.get? k = some v → desired.get? k = some w →
      v.value.IsWritable → w.value.IsWritable →
      (k ∈ (compare existing desired).changed ↔ v.critical ≠ w.critical ∨
        ∃ path, v.value.headAt? path ≠ w.value.headAt? path)) ∧
    (∀ ks ∈ (compare existing desired).lists, ks.Sublist ExtensionKind.all ∧ ks.Nodup) ∧
    (compare existing desired).lists.Pairwise List.Disjoint ∧
    ((compare existing desired).isEmpty = true ↔ existing = desired) := by
  refine ⟨fun k => ⟨mem_added_iff, mem_changed_iff, mem_removed_iff⟩,
    fun k v w hexisting hdesired hv hw => mem_changed_iff_of_get? hexisting hdesired hv hw,
    fun ks hks => ?_, pairwise_disjoint_lists existing desired, isEmpty_iff⟩
  have hsublist := sublist_all_of_mem_lists hks
  exact ⟨hsublist, hsublist.nodup ExtensionKind.nodup_all⟩

end ExtensionDiff
end CertAuthority
