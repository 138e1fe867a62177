import CertAuthority.Merge
import Mathlib.Data.List.Nodup

/-!
# Extensions and options under a policy

Each kind is decided on its own: a forced entry wins over a permitted requested one, and that over a
default. So a set that was merged stays as it is, and what a policy forces or forbids makes no
difference in a request.

* `ExtensionSet.putAll` : entries inserted one after another, as a merge takes them;
* `ExtensionSet.ruling` : the entry of one kind, by precedence;
* `ofList_eq` : a set is rebuilt from its entries;
* `mergeSet_eq_putAll`, `get?_mergeSet` : a merge both ways, in order and kind by kind;
* `mergeSet_mergeSet`, `mergeSet_congr` : merging again, and merging another request;
* `SigningPolicy.merge_law` : they hold for options and extensions apart.
-/

namespace CertAuthority

theorem ExtensionKind.ofName?_name (k : ExtensionKind) : ofName? k.name = some k := by
  have hall : ∀ k ∈ all, ofName? k.name = some k := by decide
  exact hall k (mem_all k)

theorem ExtensionKind.name_injective : Function.Injective name := fun k l h => by
  have hk := ofName?_name k
  rw [h, ofName?_name l] at hk
  exact (Option.some.inj hk).symm

theorem ExtensionKind.ofName?_eq_some_iff {s : String} {k : ExtensionKind} :
    ofName? s = some k ↔ k.name = s := by
  constructor
  · intro h
    simpa using List.find?_some h
  · rintro rfl
    exact ofName?_name k

theorem ExtensionKind.ofName_eq_ok_iff {s : String} {k : ExtensionKind} :
    ofName s = .ok k ↔ k.name = s := by
  rw [← ofName?_eq_some_iff, ofName]
  cases ofName? s <;> simp

namespace ExtensionSet

theorem mem_toList_iff {s : ExtensionSet} {k : ExtensionKind} {v : ExtensionValue} :
    (k, v) ∈ s.toList ↔ s.get? k = some v := by
  simp [toList, ExtensionKind.mem_all]

theorem nodup_toList (s : ExtensionSet) : (s.toList.map (·.1)).Nodup := by
  rw [toList, List.map_filterMap]
  refine List.Nodup.filterMap (fun j k kind hj hk => ?_) (by decide)
  have hkind {j : ExtensionKind}
      (h : kind ∈ ((s.get? j).map fun v => (j, v)).map (·.1)) : j = kind := by
    rw [Option.map_map, Option.mem_def, Option.map_eq_some_iff] at h
    obtain ⟨_, -, hj⟩ := h
    exact hj
  rw [hkind hj, hkind hk]

/-! ## One entry after another -/

/-- Inserts the entries in order. -/
def putAll (s : ExtensionSet) (entries : List (ExtensionKind × ExtensionValue)) : ExtensionSet :=
  entries.foldl (fun s (k, v) => s.insert k v) s

/-- Entries that agree with a set leave what it has at their kinds. -/
theorem get?_putAll {upper : ExtensionSet} {entries : List (ExtensionKind × ExtensionValue)}
    (h : ∀ e ∈ entries, upper.get? e.1 = some e.2) (s : ExtensionSet) (k : ExtensionKind) :
    (s.putAll entries).get? k = if k ∈ entries.map (·.1) then upper.get? k else s.get? k := by
  induction entries generalizing s with
  | nil => simp [putAll]
  | cons e entries ih =>
    obtain ⟨he, hrest⟩ := List.forall_mem_cons.1 h
    have hstep : s.putAll (e :: entries) = (s.insert e.1 e.2).putAll entries := rfl
    rw [hstep, ih hrest, get?_insert]
    by_cases hk : k ∈ entries.map (·.1)
    · simp [hk]
    · rw [if_neg hk]
      by_cases hek : k = e.1
      · subst hek
        simp [he]
      · rw [if_neg hek, if_neg (by simpa [hek] using hk)]

theorem putAll_eq_overlay {upper : ExtensionSet}
    {entries : List (ExtensionKind × ExtensionValue)}
    (h : ∀ k v, (k, v) ∈ entries ↔ upper.get? k = some v) (s : ExtensionSet) :
    s.putAll entries = s.overlay upper := by
  ext1 k
  rw [get?_putAll (fun e he => (h e.1 e.2).1 he), get?_overlay]
  cases hk : upper.get? k with
  | some v =>
    have hmem : k ∈ entries.map (·.1) := List.mem_map.2 ⟨(k, v), (h k v).2 hk, rfl⟩
    simp [hmem]
  | none =>
    have hmem : k ∉ entries.map (·.1) := by
      intro hmem
      obtain ⟨⟨j, v⟩, he, rfl⟩ := List.mem_map.1 hmem
      rw [(h j v).1 he] at hk
      cases hk
    simp [hmem]

/-- What is found after insertions was inserted, or was there. -/
theorem mem_or_of_get?_putAll {s : ExtensionSet}
    {entries : List (ExtensionKind × ExtensionValue)} {k : ExtensionKind} {v : ExtensionValue}
    (h : (s.putAll entries).get? k = some v) :
    (k, v) ∈ entries ∨ s.get? k = some v := by
  induction entries generalizing s with
  | nil => exact .inr h
  | cons e entries ih =>
    obtain hmem | hput := ih (s := s.insert e.1 e.2) h
    · exact .inl (List.mem_cons_of_mem e hmem)
    · rw [get?_insert] at hput
      split at hput
      · rename_i hk
        rw [hk, ← Option.some.inj hput]
        exact .inl List.mem_cons_self
      · exact .inr hput

theorem mem_of_get?_ofList {entries : List (ExtensionKind × ExtensionValue)}
    {k : ExtensionKind} {v : ExtensionValue} (h : (ofList entries).get? k = some v) : (k, v) ∈ entries :=
  (mem_or_of_get?_putAll (s := empty) h).resolve_right nofun

/-- A set is rebuilt from a list of exactly its entries. -/
theorem ofList_eq {s : ExtensionSet} {entries : List (ExtensionKind × ExtensionValue)}
    (h : ∀ k v, (k, v) ∈ entries ↔ s.get? k = some v) : ofList entries = s := by
  have hput : ofList entries = empty.overlay s := putAll_eq_overlay h empty
  rw [hput]
  ext1 k
  simp

/-! ## Kind by kind -/

/-- The entry of one kind: the forced one, else a permitted requested one, else the default. -/
def ruling (defaults : ExtensionSet) (allowed : Allowed) (forced requested : ExtensionSet)
    (k : ExtensionKind) : Option ExtensionValue :=
  match forced.get? k, requested.get? k with
  | some v, _ => some v
  | none, some v => if allowed.permits k then some v else defaults.get? k
  | none, none => defaults.get? k

/-- Two sets of requested entries agree where the policy leaves a choice. -/
def AgreeOn (allowed : Allowed) (forced s t : ExtensionSet) : Prop :=
  ∀ k, allowed.permits k = true → forced.get? k = none → s.get? k = t.get? k

end ExtensionSet

section

variable (defaults : ExtensionSet) (allowed : Allowed) (forced requested : ExtensionSet)

/-- Defaults, then the permitted requested entries, then the forced ones, each inserted in turn. -/
theorem mergeSet_eq_putAll :
    mergeSet defaults allowed forced requested =
      (defaults.putAll (requested.toList.filter fun e => allowed.permits e.1)).putAll
        forced.toList := by
  have hpermitted (k : ExtensionKind) (v : ExtensionValue) :
      (k, v) ∈ requested.toList.filter (fun e => allowed.permits e.1) ↔
        (requested.filter fun k _ => allowed.permits k).get? k = some v := by
    simp [ExtensionSet.mem_toList_iff, Option.filter_eq_some_iff]
  rw [ExtensionSet.putAll_eq_overlay (fun k v => ExtensionSet.mem_toList_iff),
    ExtensionSet.putAll_eq_overlay hpermitted, mergeSet]

theorem get?_mergeSet (k : ExtensionKind) :
    (mergeSet defaults allowed forced requested).get? k =
      ExtensionSet.ruling defaults allowed forced requested k := by
  unfold mergeSet ExtensionSet.ruling
  simp only [ExtensionSet.get?_overlay, ExtensionSet.get?_filter]
  cases forced.get? k with
  | some v => rfl
  | none =>
    cases requested.get? k with
    | none => rfl
    | some v => cases allowed.permits k <;> simp [Option.filter]

theorem mergeSet_congr {defaults : ExtensionSet} {allowed : Allowed}
    {forced requested other : ExtensionSet}
    (h : ExtensionSet.AgreeOn allowed forced requested other) :
    mergeSet defaults allowed forced requested = mergeSet defaults allowed forced other := by
  ext1 k
  rw [get?_mergeSet, get?_mergeSet, ExtensionSet.ruling, ExtensionSet.ruling]
  cases hf : forced.get? k with
  | some v => rfl
  | none =>
    cases hp : allowed.permits k with
    | true => rw [h k hp hf]
    | false => cases requested.get? k <;> cases other.get? k <;> rfl

/-- What was merged is not changed by merging it once more. -/
theorem mergeSet_mergeSet :
    mergeSet defaults allowed forced (mergeSet defaults allowed forced requested) =
      mergeSet defaults allowed forced requested := by
  ext1 k
  rw [get?_mergeSet, ExtensionSet.ruling, get?_mergeSet, ExtensionSet.ruling]
  cases forced.get? k with
  | some v => rfl
  | none =>
    cases hp : allowed.permits k <;> cases requested.get? k <;> cases defaults.get? k <;> rfl

end

namespace SigningPolicy

/-- **Each kind of option and extension is decided on its own: forced, requested, default.**
The merge is the one that inserts entry by entry, merging its result again changes nothing, and two
requests that agree where the policy leaves a choice get equal sets. Options and extensions do not
depend on each other. -/
theorem merge_law (p : SigningPolicy) (r : CertificateRequest) :
    ((∀ k, (r.under (some p)).options.get? k =
        ExtensionSet.ruling p.defaultOptions p.allowedOptions p.forcedOptions r.options k) ∧
      (r.under (some p)).options =
        (p.defaultOptions.putAll
          (r.options.toList.filter fun e => p.allowedOptions.permits e.1)).putAll
          p.forcedOptions.toList ∧
      ((r.under (some p)).under (some p)).options = (r.under (some p)).options ∧
      ∀ other : CertificateRequest,
        ExtensionSet.AgreeOn p.allowedOptions p.forcedOptions r.options other.options →
        (r.under (some p)).options = (other.under (some p)).options) ∧
    ((∀ k, (r.under (some p)).extensions.get? k =
        ExtensionSet.ruling p.defaultExtensions p.allowedExtensions p.forcedExtensions
          r.extensions k) ∧
      (r.under (some p)).extensions =
        (p.defaultExtensions.putAll
          (r.extensions.toList.filter fun e => p.allowedExtensions.permits e.1)).putAll
          p.forcedExtensions.toList ∧
      ((r.under (some p)).under (some p)).extensions = (r.under (some p)).extensions ∧
      ∀ other : CertificateRequest,
        ExtensionSet.AgreeOn p.allowedExtensions p.forcedExtensions r.extensions other.extensions →
        (r.under (some p)).extensions = (other.under (some p)).extensions) := by
  simp only [CertificateRequest.under, options_resolve, extensions_resolve]
  refine ⟨⟨get?_mergeSet _ _ _ _, mergeSet_eq_putAll _ _ _ _, mergeSet_mergeSet _ _ _ _, ?_⟩,
    ⟨get?_mergeSet _ _ _ _, mergeSet_eq_putAll _ _ _ _, mergeSet_mergeSet _ _ _ _, ?_⟩⟩
  · exact fun other h => mergeSet_congr h
  · exact fun other h => mergeSet_congr h

/-- Two requests that differ where a critical option is forced, where one is not permitted, and in
an extension. -/
theorem merge_law_agreeing :
    let p : SigningPolicy :=
      { kind := .ssh
        forcedOptions := .ofList [(.forceCommand, ⟨true, .text "backup"⟩)]
        defaultOptions := .ofList [(.sourceAddress, ⟨true, .text "10.0.0.0/8"⟩)]
        allowedOptions := .ofKinds [.forceCommand, .sourceAddress] }
    let r : CertificateRequest :=
      { kind := .ssh
        options := .ofList
          [(.forceCommand, ⟨true, .text "sh"⟩), (.verifyRequired, ⟨true, .present⟩)] }
    let other : CertificateRequest :=
      { kind := .ssh, extensions := .ofList [(.permitPty, ⟨false, .present⟩)] }
    ExtensionSet.AgreeOn p.allowedOptions p.forcedOptions r.options other.options ∧
      (r.under (some p)).options = (other.under (some p)).options ∧
      (r.under (some p)).options.get? .sourceAddress = some ⟨true, .text "10.0.0.0/8"⟩ := by
  intro p r other
  have hagree : ExtensionSet.AgreeOn p.allowedOptions p.forcedOptions r.options other.options := by
    intro k hp hf
    cases k with
    | forceCommand => cases hf
    | verifyRequired => cases hp
    | _ => rfl
  obtain ⟨⟨hentry, -, -, hother⟩, -⟩ := merge_law p r
  exact ⟨hagree, hother other hagree, hentry .sourceAddress⟩

end SigningPolicy
end CertAuthority
