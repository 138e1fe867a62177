import CertAuthority.Proofs.Bytes.Hex
import CertAuthority.Proofs.Certificate.Changes
import Mathlib.Data.List.Basic

/-!
# What the difference of two revocation lists tells

Entries are compared by their serial numbers. A list that was read can hold several for one number,
and then the first of them counts. The date of an entry does not.

* `RevocationsDiff.IsFirst` : the entry of a list that counts for a number;
* `RevocationsDiff.Adds`, `RevocationsDiff.Changes`, `RevocationsDiff.Removes` : what can become of
  a number;
* `RevocationsDiff.Tells` : texts are those of certain numbers and no others;
* `RevocationsDiff.tells_added`, `RevocationsDiff.tells_changed`, `RevocationsDiff.tells_removed` :
  each list of a difference tells one of the three;
* `RevocationsDiff.between_eq_of_undated` : lists that differ in dates alone make the same
  difference;
* `RevocationsDiff.each_number_told` : all of it together.
-/

namespace CertAuthority

theorem SerialNumber.text_injective : Function.Injective SerialNumber.text := by
  intro s s' h
  have hread := parse_text s
  rw [h, parse_text s'] at hread
  exact (Except.ok.inj hread).symm

namespace RevocationsDiff

variable {old want : List Revocation} {entries : List Revocation} {s : SerialNumber}
  {e : Revocation}

/-! ## The entry for a number -/

/-- The serial numbers of a list, with repetitions. -/
def numbers (entries : List Revocation) : List SerialNumber := entries.map (·.serialNumber)

/-- The first entry for the number. -/
def IsFirst (s : SerialNumber) (entries : List Revocation) (e : Revocation) : Prop :=
  e.serialNumber = s ∧
    ∃ before after, entries = before ++ e :: after ∧ ∀ o ∈ before, o.serialNumber ≠ s

theorem firstWith?_eq_some_iff : firstWith? s entries = some e ↔ IsFirst s entries e := by
  simp [firstWith?, List.find?_eq_some_iff_append, IsFirst]

theorem mem_numbers_iff : s ∈ numbers entries ↔ ∃ e ∈ entries, e.serialNumber = s := List.mem_map

theorem isNone_firstWith?_iff : (firstWith? s entries).isNone = true ↔ s ∉ numbers entries := by
  simp [firstWith?, mem_numbers_iff]

/-- The entries say something else of their number. -/
theorem not_sameEntry_iff {o : Revocation} (h : o.serialNumber = e.serialNumber) :
    (!o.sameEntry e) = true ↔ o.reason ≠ e.reason ∨ o.invalidityDate ≠ e.invalidityDate := by
  simp only [Revocation.sameEntry, h, beq_self_eq_true, Bool.true_and, Bool.not_eq_true',
    Bool.and_eq_false_iff, beq_eq_false_iff_ne]

/-! ## What becomes of a number -/

/-- The number comes to the list. -/
def Adds (old want : List Revocation) (s : SerialNumber) : Prop :=
  s ∈ numbers want ∧ s ∉ numbers old

/-- The number stays on the list, with another reason or invalidity date. -/
def Changes (old want : List Revocation) (s : SerialNumber) : Prop :=
  ∃ e ∈ want, e.serialNumber = s ∧
    ∃ o, IsFirst s old o ∧ (o.reason ≠ e.reason ∨ o.invalidityDate ≠ e.invalidityDate)

/-- The number leaves the list. -/
def Removes (old want : List Revocation) (s : SerialNumber) : Prop :=
  s ∈ numbers old ∧ s ∉ numbers want

theorem Changes.mem_want (h : Changes old want s) : s ∈ numbers want := by
  obtain ⟨e, he, rfl, -⟩ := h
  exact mem_numbers_iff.2 ⟨e, he, rfl⟩

theorem Changes.mem_old (h : Changes old want s) : s ∈ numbers old := by
  obtain ⟨-, -, -, o, ⟨rfl, before, after, rfl, -⟩, -⟩ := h
  exact mem_numbers_iff.2 ⟨o, by simp, rfl⟩

/-! ## The lists of a difference -/

/-- The texts are those of the numbers `P`, in the order of a list that has them all. -/
def Tells (texts : List String) (listed : List SerialNumber) (P : SerialNumber → Prop) : Prop :=
  ∃ told : List SerialNumber,
    texts = told.map SerialNumber.text ∧ told.Sublist listed ∧ ∀ s, s ∈ told ↔ P s

theorem Tells.text_mem_iff {texts : List String} {listed : List SerialNumber}
    {P : SerialNumber → Prop} (h : Tells texts listed P) : s.text ∈ texts ↔ P s := by
  obtain ⟨told, rfl, -, hP⟩ := h
  rw [List.mem_map_of_injective SerialNumber.text_injective, hP]

theorem Tells.eq_nil_iff {texts : List String} {listed : List SerialNumber}
    {P : SerialNumber → Prop} (h : Tells texts listed P) : texts = [] ↔ ∀ s, ¬P s := by
  obtain ⟨told, rfl, -, hP⟩ := h
  rw [List.map_eq_nil_iff, List.eq_nil_iff_forall_not_mem]
  simp only [hP]

/-- Lists for numbers that have nothing in common have no text in common. -/
theorem Tells.disjoint {texts texts' : List String} {listed listed' : List SerialNumber}
    {P Q : SerialNumber → Prop} (h : Tells texts listed P) (h' : Tells texts' listed' Q)
    (hPQ : ∀ s, P s → ¬Q s) : texts.Disjoint texts' := by
  intro t ht ht'
  obtain ⟨told, rfl, -, hP⟩ := h
  obtain ⟨s, hs, rfl⟩ := List.mem_map.1 ht
  exact hPQ s ((hP s).1 hs) (h'.text_mem_iff.1 ht')

/-- The texts of some entries tell the numbers of these entries. -/
theorem tells_filter {keep : Revocation → Bool} {P : SerialNumber → Prop}
    (h : ∀ s, P s ↔ ∃ e ∈ entries, keep e = true ∧ e.serialNumber = s) :
    Tells ((entries.filter keep).map fun e => e.serialNumber.text) (numbers entries) P := by
  have htexts : (numbers (entries.filter keep)).map SerialNumber.text =
      (entries.filter keep).map fun e => e.serialNumber.text := List.map_map
  refine ⟨numbers (entries.filter keep), htexts.symm, List.filter_sublist.map _, fun s => ?_⟩
  simp only [mem_numbers_iff, List.mem_filter, h, and_assoc]

theorem tells_added (old want : List Revocation) :
    Tells (of old want).added (numbers want) (Adds old want) := by
  refine tells_filter fun s => ?_
  rw [Adds, mem_numbers_iff]
  simp only [isNone_firstWith?_iff]
  constructor
  · rintro ⟨⟨e, he, rfl⟩, hnew⟩
    exact ⟨e, he, hnew, rfl⟩
  · rintro ⟨e, he, hnew, rfl⟩
    exact ⟨⟨e, he, rfl⟩, hnew⟩

theorem tells_changed (old want : List Revocation) :
    Tells (of old want).changed (numbers want) (Changes old want) := by
  refine tells_filter fun s => ?_
  simp only [Changes, Option.any_eq_true]
  constructor
  · rintro ⟨e, he, rfl, o, ho, hdiffers⟩
    exact ⟨e, he, ⟨o, firstWith?_eq_some_iff.2 ho, (not_sameEntry_iff ho.1).2 hdiffers⟩, rfl⟩
  · rintro ⟨e, he, ⟨o, ho, hdiffers⟩, rfl⟩
    have hfirst := firstWith?_eq_some_iff.1 ho
    exact ⟨e, he, rfl, o, hfirst, (not_sameEntry_iff hfirst.1).1 hdiffers⟩

theorem tells_removed (old want : List Revocation) :
    Tells (of old want).removed (numbers old) (Removes old want) := by
  have hswap : Removes old want = Adds want old := rfl
  rw [hswap]
  exact tells_added want old

theorem eq_of_between {d : RevocationsDiff} (h : between old want = some d) : d = of old want := by
  rw [between] at h
  split at h
  · cases h
  · exact (Option.some.inj h).symm

theorem between_eq_none_iff :
    between old want = none ↔
      ∀ s, ¬Adds old want s ∧ ¬Changes old want s ∧ ¬Removes old want s := by
  have hempty : between old want = none ↔ (of old want).isEmpty = true := by
    simp [between]
  simp only [hempty, isEmpty, Bool.and_eq_true, List.isEmpty_iff, (tells_added old want).eq_nil_iff,
    (tells_changed old want).eq_nil_iff, (tells_removed old want).eq_nil_iff, forall_and, and_assoc]

/-! ## Dates -/

/-- Lists that differ in dates alone make the same difference. -/
theorem between_eq_of_undated {old' want' : List Revocation}
    (hold : old'.map Revocation.undated = old.map Revocation.undated)
    (hwant : want'.map Revocation.undated = want.map Revocation.undated) :
    between old' want' = between old want := by
  rw [← between_undated_left, ← between_undated, hold, hwant, between_undated,
    between_undated_left]

/-- **A difference tells exactly what becomes of each serial number.** There is none if and only if
no number is new, changed or gone. Else its three lists hold the texts of the new, the changed and
the gone numbers and nothing more, each in the order of the list that its numbers are from, and no
two of them have a text in common. Other dates of the same entries make no other difference. The
lists that are compared may name a number more than once. -/
theorem each_number_told (old want : List Revocation) :
    (between old want = none ↔
      ∀ s, ¬Adds old want s ∧ ¬Changes old want s ∧ ¬Removes old want s) ∧
    (∀ d, between old want = some d →
      Tells d.added (numbers want) (Adds old want) ∧
      Tells d.changed (numbers want) (Changes old want) ∧
      Tells d.removed (numbers old) (Removes old want) ∧
      (∀ s : SerialNumber, (s.text ∈ d.added ↔ Adds old want s) ∧
        (s.text ∈ d.changed ↔ Changes old want s) ∧ (s.text ∈ d.removed ↔ Removes old want s)) ∧
      d.added.Disjoint d.changed ∧ d.added.Disjoint d.removed ∧ d.changed.Disjoint d.removed) ∧
    ∀ old' want', old'.map Revocation.undated = old.map Revocation.undated →
      want'.map Revocation.undated = want.map Revocation.undated →
      between old' want' = between old want := by
  refine ⟨between_eq_none_iff, fun d hd => ?_, fun _ _ => between_eq_of_undated⟩
  obtain rfl := eq_of_between hd
  have hadded := tells_added old want
  have hchanged := tells_changed old want
  have hremoved := tells_removed old want
  refine ⟨hadded, hchanged, hremoved,
    fun s => ⟨hadded.text_mem_iff, hchanged.text_mem_iff, hremoved.text_mem_iff⟩, ?_, ?_, ?_⟩
  · exact hadded.disjoint hchanged fun s hs hs' => hs.2 hs'.mem_old
  · exact hadded.disjoint hremoved fun s hs hs' => hs.2 hs'.1
  · exact hchanged.disjoint hremoved fun s hs hs' => hs'.2 hs.mem_want

end RevocationsDiff
end CertAuthority
