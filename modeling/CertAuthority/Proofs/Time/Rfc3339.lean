import CertAuthority.Proofs.Text.Basic
import CertAuthority.Proofs.Time.Calendar
import CertAuthority.Time.Rfc3339

/-!
# Dates printed and read

Every date that has a time of day is read back from its text with all of its fraction, in any year
that can be represented and in leap seconds too.

* `Instant.IsCivil` : the instants that are a time of day;
* `year?_yearText`, `number?_padded`, `fraction?_fractionText` : the parts of a text, off its front;
* `parse?_print` : the whole.
-/

namespace CertAuthority

/-- A time of day on some date. Only the last second of a minute may be followed by a leap second,
which counts as more of its fraction. -/
structure Instant.IsCivil (t : Instant) : Prop where
  representable : t.representable = true
  fraction : t.nanos < 1000000000 ∨ t.nanos < 2000000000 ∧ t.seconds.fmod 60 = 59

namespace Rfc3339

open Text (padded isDigit)

/-! ## Digits -/

/-- Digits are taken up to the limit, or up to something else. -/
theorem digits?_padded {limit width n : Nat} {rest : List Char}
    (hlimit : (padded width n).toList.length ≤ limit)
    (hrest : ∀ c, (rest.take (limit - (padded width n).toList.length)).head? = some c →
      isDigit c = false) :
    digits? limit ((padded width n).toList ++ rest) = some (n, rest) := by
  obtain ⟨c, cs, hcs, -⟩ := Text.padded_eq_cons width n
  have hdigits : (((padded width n).toList ++ rest).take limit).takeWhile isDigit =
      (padded width n).toList := by
    rw [List.take_append, List.take_of_length_le hlimit]
    exact Text.takeWhile_padded width n hrest
  simp only [digits?, hdigits, Text.digitsValue_padded, List.drop_left]
  rw [hcs]
  rfl

/-- Two digits are taken, whatever follows them. -/
theorem number?_padded {n : Nat} (hn : n < 100) (rest : List Char) :
    number? 2 ((padded 2 n).toList ++ rest) = some (n, rest) := by
  have hlength : (padded 2 n).toList.length = 2 := Text.length_padded (by decide) hn
  rw [number?, Text.trimStartChars_padded]
  refine digits?_padded (Nat.le_of_eq hlength) fun c hc => ?_
  rw [hlength] at hc
  cases hc

/-! ## Years -/

theorem year?_minus (cs : List Char) :
    year? ('-' :: cs) = (digits? cs.length cs).map fun (n, r) => (-(n : Int), r) := by
  rw [year?, Text.trimStartChars_cons (by decide)]
  rfl

theorem year?_plus (cs : List Char) :
    year? ('+' :: cs) = (digits? cs.length cs).map fun (n, r) => ((n : Int), r) := by
  rw [year?, Text.trimStartChars_cons (by decide)]
  rfl

theorem year?_of_isDigit {c : Char} (h : isDigit c = true) (cs : List Char) :
    year? (c :: cs) = (digits? 4 (c :: cs)).map fun (n, r) => ((n : Int), r) := by
  rw [year?, Text.trimStartChars_cons (Text.not_isBlank_of_isDigit h)]
  split
  · rename_i heq
    obtain rfl := (List.cons.inj heq).1
    cases h
  · rename_i heq
    obtain rfl := (List.cons.inj heq).1
    cases h
  · rfl

theorem year?_yearText (year : Int) (rest : List Char) :
    year? ((yearText year).toList ++ '-' :: rest) = some (year, '-' :: rest) := by
  have hdash (limit : Nat) (c : Char) (hc : (('-' :: rest).take limit).head? = some c) :
      isDigit c = false := by
    cases limit with
    | zero => cases hc
    | succ limit =>
      obtain rfl := Option.some.inj hc
      rfl
  have hsigned : digits? ((padded 4 year.natAbs).toList ++ '-' :: rest).length
      ((padded 4 year.natAbs).toList ++ '-' :: rest) = some (year.natAbs, '-' :: rest) :=
    digits?_padded (by simp) (hdash _)
  unfold yearText
  split
  · rename_i hrange
    have hn : year.toNat < 10000 := by omega
    have hlength : (padded 4 year.toNat).toList.length = 4 := Text.length_padded (by decide) hn
    have hread : digits? 4 ((padded 4 year.toNat).toList ++ '-' :: rest) =
        some (year.toNat, '-' :: rest) :=
      digits?_padded (Nat.le_of_eq hlength) (hdash _)
    obtain ⟨c, cs, hcs, hc⟩ := Text.padded_eq_cons 4 year.toNat
    rw [hcs, List.cons_append] at hread ⊢
    rw [year?_of_isDigit hc, hread]
    simp only [Option.map_some, Int.toNat_of_nonneg hrange.1]
  split
  · rename_i hneg
    have habs : -(year.natAbs : Int) = year := by omega
    have htext : ("-" ++ padded 4 year.natAbs).toList ++ '-' :: rest =
        '-' :: ((padded 4 year.natAbs).toList ++ '-' :: rest) := by
      rw [String.toList_append, show "-".toList = ['-'] from rfl]
      simp only [List.cons_append, List.nil_append]
    rw [htext, year?_minus, hsigned]
    simp only [Option.map_some, habs]
  · rename_i hneg
    have habs : (year.natAbs : Int) = year := by omega
    have htext : ("+" ++ padded 4 year.natAbs).toList ++ '-' :: rest =
        '+' :: ((padded 4 year.natAbs).toList ++ '-' :: rest) := by
      rw [String.toList_append, show "+".toList = ['+'] from rfl]
      simp only [List.cons_append, List.nil_append]
    rw [htext, year?_plus, hsigned]
    simp only [Option.map_some, habs]

/-! ## Fractions -/

theorem fraction?_padded {w n : Nat} (hw : 0 < w) (hmost : w ≤ 9)
    (hn : n < Nat.pow 10 w) :
    fraction? ('.' :: (padded w n).toList ++ ['Z']) =
      some (n * Nat.pow 10 (9 - w), ['Z']) := by
  have hlength : (padded w n).toList.length = w := Text.length_padded hw hn
  have hdigits : (((padded w n).toList ++ ['Z']).take 9).takeWhile isDigit =
      (padded w n).toList := by
    rw [List.take_append, List.take_of_length_le (by omega)]
    refine Text.takeWhile_padded w n fun c hc => ?_
    cases hk : 9 - (padded w n).toList.length with
    | zero =>
      rw [hk] at hc
      cases hc
    | succ k =>
      rw [hk] at hc
      obtain rfl := Option.some.inj hc
      rfl
  have hne : (padded w n).toList.isEmpty = false := by
    obtain ⟨c, cs, hcs, -⟩ := Text.padded_eq_cons w n
    rw [hcs]
    rfl
  simp only [List.cons_append, fraction?, hdigits, hne, Text.digitsValue_padded, hlength]
  rw [if_neg nofun, List.drop_left' hlength]
  rfl

theorem fraction?_fractionText {nanos : Nat} (h : nanos < 1000000000) :
    fraction? ((fractionText nanos).toList ++ ['Z']) = some (nanos, ['Z']) := by
  unfold fractionText
  split
  · rename_i hzero
    rw [hzero]
    rfl
  split
  · rw [String.toList_append]
    exact (fraction?_padded (w := 3) (by decide) (by decide)
      (show nanos / 1000000 < 1000 by omega)).trans
        (congrArg (fun n => some (n, ['Z'])) (show nanos / 1000000 * 1000000 = nanos by omega))
  split
  · rw [String.toList_append]
    exact (fraction?_padded (w := 6) (by decide) (by decide)
      (show nanos / 1000 < 1000000 by omega)).trans
        (congrArg (fun n => some (n, ['Z'])) (show nanos / 1000 * 1000 = nanos by omega))
  · rw [String.toList_append]
    exact (fraction?_padded (w := 9) (by decide) (by decide) h).trans
      (congrArg (fun n => some (n, ['Z'])) (Nat.mul_one nanos))

/-! ## Dates -/

theorem sep?_cons {c : Char} (h : Text.isBlank c = false) (rest : List Char) :
    sep? c (c :: rest) = some rest := by
  rw [sep?, Text.trimStartChars_cons h]
  exact if_pos rfl

/-- The clock of a text: hours, minutes, seconds and their fraction. -/
def clockText (rest second nanos : Nat) : List Char :=
  (padded 2 (rest / 3600)).toList ++ ':' :: ((padded 2 (rest / 60 % 60)).toList ++
    ':' :: ((padded 2 second).toList ++ ((fractionText nanos).toList ++ ['Z'])))

theorem toList_print {t : Instant} {year month day : Int}
    (h : civilFromDays (t.seconds.fdiv 86400) = (year, month, day)) :
    (print t).toList = (yearText year).toList ++ '-' :: ((padded 2 month.toNat).toList ++
      '-' :: ((padded 2 day.toNat).toList ++ 'T' :: clockText (t.seconds.fmod 86400).toNat
        ((t.seconds.fmod 86400).toNat % 60 + if t.nanos ≥ 1000000000 then 1 else 0)
        (t.nanos % 1000000000))) := by
  simp only [print, h, clockText, String.toList_append, List.append_assoc,
    show "-".toList = ['-'] from rfl, show "T".toList = ['T'] from rfl,
    show ":".toList = [':'] from rfl, show "Z".toList = ['Z'] from rfl, List.cons_append,
    List.nil_append]

/-- **A date is read back from its text**, with its whole fraction, and leap seconds as such. -/
theorem parse?_print {t : Instant} (h : t.IsCivil) : parse? (print t) = some t := by
  rcases hcivil : civilFromDays (t.seconds.fdiv 86400) with ⟨year, month, day⟩
  obtain ⟨hmonth, hday, hdays⟩ := civilFromDays_spec hcivil
  have hlength : daysInMonth year month ≤ 31 := daysInMonth_le year month
  have hclock : 0 ≤ t.seconds.fmod 86400 ∧ t.seconds.fmod 86400 < 86400 :=
    ⟨Int.fmod_nonneg_of_pos _ (by decide), Int.fmod_lt_of_pos _ (by decide)⟩
  have hseconds : 86400 * t.seconds.fdiv 86400 + t.seconds.fmod 86400 = t.seconds :=
    Int.mul_fdiv_add_fmod _ _
  have hminute : t.seconds.fmod 60 = t.seconds.fmod 86400 % 60 := by
    rw [Int.fmod_eq_emod_of_nonneg _ (by decide), Int.fmod_eq_emod_of_nonneg _ (by decide)]
    omega
  have hleap : t.nanos ≥ 1000000000 → t.nanos < 2000000000 ∧ t.seconds.fmod 86400 % 60 = 59 := by
    intro hnanos
    obtain hfraction | ⟨hbound, hlast⟩ := h.fraction
    · omega
    · exact ⟨hbound, hminute ▸ hlast⟩
  rw [parse?, toList_print hcivil]
  generalize t.seconds.fmod 86400 = rest at *
  obtain ⟨rest, rfl⟩ := Int.eq_ofNat_of_zero_le hclock.1
  have hsecond : (rest % 60 + if t.nanos ≥ 1000000000 then 1 else 0) < 100 := by
    split <;> omega
  -- The reader takes the fields one after another, each off the front of what is left.
  refine Option.bind_eq_some_iff.2 ⟨_, year?_yearText _ _, ?_⟩
  refine Option.bind_eq_some_iff.2 ⟨_, sep?_cons (by decide) _, ?_⟩
  refine Option.bind_eq_some_iff.2 ⟨_, number?_padded (by omega) _, ?_⟩
  refine Option.bind_eq_some_iff.2 ⟨_, sep?_cons (by decide) _, ?_⟩
  refine Option.bind_eq_some_iff.2 ⟨_, number?_padded (by omega) _, ?_⟩
  refine Option.bind_eq_some_iff.2 ⟨_, rfl, ?_⟩
  refine Option.bind_eq_some_iff.2 ⟨_, number?_padded (by omega) _, ?_⟩
  refine Option.bind_eq_some_iff.2 ⟨_, sep?_cons (by decide) _, ?_⟩
  refine Option.bind_eq_some_iff.2 ⟨_, number?_padded (by omega) _, ?_⟩
  refine Option.bind_eq_some_iff.2 ⟨_, sep?_cons (by decide) _, ?_⟩
  refine Option.bind_eq_some_iff.2 ⟨_, number?_padded hsecond _, ?_⟩
  refine Option.bind_eq_some_iff.2 ⟨_, fraction?_fractionText (Nat.mod_lt _ (by decide)), ?_⟩
  refine Option.bind_eq_some_iff.2 ⟨(0, []), rfl, ?_⟩
  have hempty : (!(Text.trimStartChars []).isEmpty) = false := rfl
  dsimp only
  rw [hempty, if_neg nofun, Int.toNat_natCast, Int.toNat_of_nonneg (by omega : 0 ≤ month),
    Int.toNat_of_nonneg (by omega : 0 ≤ day), hdays, if_neg (by omega)]
  rcases Nat.lt_or_ge t.nanos 1000000000 with hplain | hnanos
  · have hwhole : ¬ t.nanos ≥ 1000000000 := by omega
    have hsame : (⟨t.seconds.fdiv 86400 * 86400 + ((rest / 3600 : Nat) * 3600 +
        (rest / 60 % 60 : Nat) * 60 + (rest % 60 : Nat)) - 0,
        t.nanos % 1000000000 + 0⟩ : Instant) = ⟨t.seconds, t.nanos⟩ := by
      rw [Instant.mk.injEq]
      omega
    simp only [if_neg hwhole, Nat.add_zero, if_neg (show ¬ rest % 60 = 60 by omega)] at hsame ⊢
    rw [if_neg (by omega), hsame, if_pos h.representable]
  · -- The printed second is the sixtieth, and stands for the fifty-ninth.
    obtain ⟨hbound, hlast⟩ := hleap hnanos
    have hsame : (⟨t.seconds.fdiv 86400 * 86400 + ((rest / 3600 : Nat) * 3600 +
        (rest / 60 % 60 : Nat) * 60 + (59 : Nat)) - 0,
        t.nanos % 1000000000 + 1000000000⟩ : Instant) = ⟨t.seconds, t.nanos⟩ := by
      rw [Instant.mk.injEq]
      omega
    have hsixty : rest % 60 + 1 = 60 := by omega
    simp only [if_pos hnanos, hsixty, if_true]
    rw [if_neg (by omega), hsame, if_pos h.representable]

end Rfc3339
end CertAuthority
