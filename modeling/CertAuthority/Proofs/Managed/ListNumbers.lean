import CertAuthority.Proofs.Managed.RevocationLists

/-!
# The numbers of revocation lists

A list that is issued without a number of its own gets the one after that of the list before it, in
64 bits: a longer number is cut, and the last number of 64 bits is given again and again.

* `ListRun.number?` : the number of the list that a run issued;
* `Follow.numbers_eq` : the numbers of runs one after another;
* `Follow.listNumbers_advance_iff` : whether they advance by one, and whether they increase.
-/

namespace CertAuthority

variable {σ : Type} {f : FileSystem σ} {path : String} {files : σ} {rs : List (ListRun σ)}

/-- The number of a list, and zero where there is none. -/
def lastNumber (before : Option Certificate) : Nat :=
  ((before.bind (·.info.serialNumber)).map (·.value)).getD 0

/-- The number after `n`, and those after it. -/
def numberAt (n i : Nat) : Nat := min (n % bitLimit 64 + i + 1) (bitLimit 64 - 1)

theorem bitLimit_64 : bitLimit 64 = 18446744073709551616 := by decide

theorem numberAt_numberAt (n i : Nat) : numberAt (numberAt n 0) i = numberAt n (i + 1) := by
  unfold numberAt
  rw [bitLimit_64]
  omega

/-- In 64 bits the numbers after `n` are those that follow it. -/
theorem numberAt_eq_iff (n count : Nat) :
    (∀ i < count, numberAt n i = n + i + 1) ↔ count = 0 ∨ n + count < bitLimit 64 := by
  unfold numberAt
  rw [bitLimit_64]
  constructor
  · intro h
    by_cases hzero : count = 0
    · exact .inl hzero
    · have hlast := h (count - 1) (by omega)
      right
      omega
  · rintro (rfl | hlt) i hi
    · cases hi
    · omega

/-- They increase only as long as they do not reach the last one. -/
theorem pairwise_numberAt_iff (n count : Nat) :
    (n :: (List.range count).map (numberAt n)).Pairwise (· < ·) ↔
      count = 0 ∨ n + count < bitLimit 64 := by
  rw [List.pairwise_cons, List.pairwise_map]
  constructor
  · rintro ⟨hfirst, hrest⟩
    by_cases hzero : count = 0
    · exact .inl hzero
    right
    have hstart : n < numberAt n 0 :=
      hfirst _ (List.mem_map_of_mem (List.mem_range.2 (Nat.pos_of_ne_zero hzero)))
    by_cases hone : count = 1
    · unfold numberAt at hstart
      rw [bitLimit_64] at hstart ⊢
      omega
    · have hlast : numberAt n (count - 2) < numberAt n (count - 1) := by
        have hordered := List.pairwise_iff_getElem.1 hrest (count - 2) (count - 1)
          (by rw [List.length_range]; omega) (by rw [List.length_range]; omega) (by omega)
        rwa [List.getElem_range, List.getElem_range] at hordered
      unfold numberAt at hstart hlast
      rw [bitLimit_64] at hstart hlast ⊢
      omega
  · intro h
    have hnumbers := (numberAt_eq_iff n count).2 h
    refine ⟨fun x hx => ?_, ?_⟩
    · obtain ⟨i, hi, rfl⟩ := List.mem_map.1 hx
      rw [hnumbers i (List.mem_range.1 hi)]
      omega
    · refine List.pairwise_lt_range.imp_of_mem fun {i j} hi hj hij => ?_
      rw [hnumbers i (List.mem_range.1 hi), hnumbers j (List.mem_range.1 hj)]
      omega

namespace ListRun

variable {r : ListRun σ}

/-- The number of the list that the run issued. -/
def number? (r : ListRun σ) : Option Nat :=
  (r.issued?.bind (·.info.serialNumber)).map (·.value)

theorem numberAfter_eq (before : Option Certificate) :
    numberAfter before = ⟨numberAt (lastNumber before) 0⟩ := by
  unfold numberAfter lastNumber numberAt
  cases before.bind (·.info.serialNumber) with
  | none => rfl
  | some number => rfl

/-- Without a number of its own a list gets the next. -/
theorem number_of_issued {c : Certificate} (hr : r.On f path) (hfiles : f.IsFaithful path)
    (hnone : r.spec.request.serialNumber = none) (hc : r.issued? = some c) :
    c.info.serialNumber = some ⟨numberAt (lastNumber (f.list? path r.start.world.files)) 0⟩ := by
  rcases r.cases_list hr hfiles with ⟨hidle, -⟩ | ⟨c', hissued, hlists, -⟩
  · rw [hc] at hidle
    cases hidle
  · obtain rfl := Option.some.inj (hc.symm.trans hissued)
    rw [hlists.number, hnone, ← numberAfter_eq]
    rfl

end ListRun

namespace Follow

/-- **The numbers of runs one after another**, none of which asks for a number. -/
theorem numbers_eq (hfiles : f.IsFaithful path) (hruns : Follow f path files rs)
    (hnone : ∀ r ∈ rs, r.spec.request.serialNumber = none) :
    ∃ count, rs.filterMap ListRun.number? =
      (List.range count).map (numberAt (lastNumber (f.list? path files))) := by
  induction hruns with
  | nil files => exact ⟨0, rfl⟩
  | @cons files r rs on plain found _ ih =>
    obtain ⟨hfirst, hrest⟩ := List.forall_mem_cons.1 hnone
    obtain ⟨count, hcount⟩ := ih hrest
    have hbefore := FileSystem.list?_of_sight found
    rcases r.cases_list on hfiles with ⟨hidle, hkept⟩ | ⟨c, hissued, hlists, hafter⟩
    · refine ⟨count, ?_⟩
      rw [hkept plain, hbefore] at hcount
      have hnumber : r.number? = none := by
        unfold ListRun.number?
        rw [hidle]
        rfl
      rw [List.filterMap_cons_none hnumber, hcount]
    · obtain ⟨c', hlist, hsame, -⟩ := hafter plain
      have hserial := r.number_of_issued on hfiles hfirst hissued
      rw [hbefore] at hserial
      have hnumber : r.number? = some (numberAt (lastNumber (f.list? path files)) 0) := by
        unfold ListRun.number?
        rw [hissued, Option.bind_some, hserial, Option.map_some]
      have hlast : lastNumber (f.list? path r.files) =
          numberAt (lastNumber (f.list? path files)) 0 := by
        rw [hlist, lastNumber, Option.bind_some, hsame, hserial, Option.map_some, Option.getD_some]
      refine ⟨count + 1, ?_⟩
      rw [List.filterMap_cons_some hnumber, hcount, hlast, List.range_succ_eq_map, List.map_cons,
        List.map_map]
      congr 1
      exact List.map_congr_left fun i _ => numberAt_numberAt _ i

/-- **The numbers of lists advance by one as long as they have 64 bits.** Of runs on one path, one
after another, with requests that ask for no number, each list that is issued has the number after
that of the list before it, in 64 bits. So with `n` for the number of the list that is there at
first, the numbers are `n + 1`, `n + 2` and so on if and only if the last of them is below the limit
of 64 bits, and if and only if that is so they increase. -/
theorem listNumbers_advance_iff (hfiles : f.IsFaithful path) (hruns : Follow f path files rs)
    (hnone : ∀ r ∈ rs, r.spec.request.serialNumber = none) :
    (∀ (r : ListRun σ) (c : Certificate), r.On f path → r.spec.request.serialNumber = none →
      r.issued? = some c →
        let n := lastNumber (f.list? path r.start.world.files)
        c.info.serialNumber = some ⟨min (n % bitLimit 64 + 1) (bitLimit 64 - 1)⟩ ∧
        (c.info.serialNumber = some ⟨n + 1⟩ ↔ n + 1 < bitLimit 64)) ∧
    let n := lastNumber (f.list? path files)
    let numbers := rs.filterMap ListRun.number?
    (numbers = (List.range numbers.length).map (fun i => n + i + 1) ↔
      numbers = [] ∨ n + numbers.length < bitLimit 64) ∧
    ((n :: numbers).Pairwise (· < ·) ↔ numbers = [] ∨ n + numbers.length < bitLimit 64) := by
  refine ⟨fun r c on hfree hc => ?_, ?_⟩
  · intro n
    have hserial : c.info.serialNumber = some ⟨numberAt n 0⟩ :=
      r.number_of_issued on hfiles hfree hc
    have hone := numberAt_eq_iff n 1
    refine ⟨hserial, ?_⟩
    rw [hserial, Option.some.injEq, SerialNumber.mk.injEq]
    constructor
    · intro hnext
      refine (hone.1 fun i hi => ?_).resolve_left Nat.one_ne_zero
      obtain rfl : i = 0 := Nat.lt_one_iff.1 hi
      exact hnext
    · exact fun hlt => hone.2 (.inr hlt) 0 Nat.one_pos
  · intro n numbers
    obtain ⟨count, hcount⟩ := numbers_eq hfiles hruns hnone
    replace hcount : numbers = (List.range count).map (numberAt n) := hcount
    have hlength : numbers.length = count := by
      rw [hcount, List.length_map, List.length_range]
    have hempty : numbers = [] ↔ count = 0 := by
      rw [← hlength, List.length_eq_zero_iff]
    rw [hempty, hlength]
    refine ⟨?_, ?_⟩
    · rw [← numberAt_eq_iff, hcount, List.map_inj_left]
      exact forall_congr' fun i => imp_congr_left List.mem_range
    · rw [← pairwise_numberAt_iff, hcount]

end Follow

/-! ## The last number -/

theorem lastNumber_lastRun :
    lastNumber (FileStore.fileSystem.list? "/ca.crl" lastRun.start.world.files) =
      bitLimit 64 - 1 := by decide +kernel

/-- After the last number of 64 bits comes that number again. -/
theorem listNumbers_advance_iff_of_lastRun :
    FileStore.fileSystem.IsFaithful "/ca.crl" ∧
    Follow FileStore.fileSystem "/ca.crl" lastRun.start.world.files [lastRun] ∧
    ∃ c, lastRun.issued? = some c ∧
      c.info.serialNumber = some ⟨min ((bitLimit 64 - 1) % bitLimit 64 + 1) (bitLimit 64 - 1)⟩ ∧
      ¬ ((bitLimit 64 - 1) :: [lastRun].filterMap ListRun.number?).Pairwise (· < ·) := by
  have hfiles := FileStore.isFaithful "/ca.crl"
  obtain ⟨c, _, hc, -⟩ := issued_lastRun
  obtain ⟨hone, -, hmany⟩ := Follow.listNumbers_advance_iff hfiles follow_lastRun
    (List.forall_mem_singleton.2 rfl)
  obtain ⟨hnumber, -⟩ := hone lastRun c on_lastRun rfl hc
  rw [lastNumber_lastRun] at hnumber hmany
  refine ⟨hfiles, follow_lastRun, c, hc, hnumber, fun hincreases => ?_⟩
  have hissued : lastRun.number? = some (bitLimit 64 - 1) := by
    unfold ListRun.number?
    rw [hc, Option.bind_some, hnumber]
    decide
  have hnumbers : [lastRun].filterMap ListRun.number? = [bitLimit 64 - 1] := by
    rw [List.filterMap_cons_some hissued]
    rfl
  rw [hnumbers] at hincreases
  exact Nat.lt_irrefl _ (List.pairwise_cons.1 hincreases |>.1 _ List.mem_cons_self)

/-- A list is issued with the number of the list before it. -/
theorem number_given_again :
    ∃ before c, FileStore.fileSystem.list? "/ca.crl" lastRun.start.world.files = some before ∧
      lastRun.spec.request.serialNumber = none ∧ lastRun.issued? = some c ∧
      before.info.serialNumber = some ⟨bitLimit 64 - 1⟩ ∧
      c.info.serialNumber = some ⟨bitLimit 64 - 1⟩ := by
  have hbefore : ((FileStore.fileSystem.list? "/ca.crl" lastRun.start.world.files).bind
      (·.info.serialNumber)) = some ⟨bitLimit 64 - 1⟩ := by decide +kernel
  obtain ⟨before, hlist, hnumber⟩ := Option.bind_eq_some_iff.1 hbefore
  obtain ⟨c, _, hc, -⟩ := issued_lastRun
  have hserial := lastRun.number_of_issued on_lastRun (FileStore.isFaithful "/ca.crl") rfl hc
  rw [lastNumber_lastRun] at hserial
  exact ⟨before, c, hlist, rfl, hc, hnumber, hserial.trans (by decide)⟩

end CertAuthority
