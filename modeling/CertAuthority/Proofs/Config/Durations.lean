import CertAuthority.Config.Duration
import CertAuthority.Error
import CertAuthority.Proofs.Text.Basic

/-!
# What the text of a duration stands for

A duration is written as a bare number of seconds or as numbers with units one behind the other.
What is written there is a natural number without a bound; reading gives that number or nothing.

* `Duration.Spells` : the seconds in numbers with units, and `Duration.Denotes` in a whole text,
  where no text stands for two numbers of seconds;
* `Duration.sumParts_cons_eq_ok_iff` : what one unit adds to the sum, and
  `Duration.sumParts_eq_ok_iff` what the text does from any point on;
* `Duration.parse_eq_ok_iff` : a text is read as what it stands for, if that fits;
* `Duration.spells_text` : the text of a duration stands for it;
* `Duration.written_value_read` : the two together.
-/

namespace CertAuthority.Duration

open Text (DenotesNat IsNumeral denotesNat_iff_of_digits digitsValue isDigit natBelow?_eq_some_iff)

variable {cs ds rest : List Char} {c : Char} {size m n : Nat} {s : String}

/-! ## Units -/

/-- The seconds that a letter stands for. -/
def unitTable : List (Char × Nat) :=
  [('s', 1), ('S', 1), ('m', 60), ('M', 60), ('h', 3600), ('H', 3600), ('d', 86400), ('D', 86400),
    ('w', 604800), ('W', 604800)]

/-- A unit is a letter, and none is shorter than a second. -/
theorem unit_of_lookup (h : unitTable.lookup c = some size) :
    c.toNat < 128 ∧ isDigit c = false ∧ Text.isBlank c = false ∧ 0 < size := by
  have hall : ∀ u ∈ unitTable, u.1.toNat < 128 ∧ isDigit u.1 = false ∧
      Text.isBlank u.1 = false ∧ 0 < u.2 := by
    decide
  exact hall _ (Text.mem_of_lookup h)

theorem unitSeconds?_eq_lookup (c : Char) : unitSeconds? c = unitTable.lookup c := by
  by_cases hc : c.toNat < 128
  · have hall : ∀ n < 128, unitSeconds? (Char.ofNat n) = unitTable.lookup (Char.ofNat n) := by
      decide
    rw [← Char.ofNat_toNat c]
    exact hall _ hc
  · have hnone : unitTable.lookup c = none := by
      rw [Option.eq_none_iff_forall_ne_some]
      exact fun size h => hc (unit_of_lookup h).1
    rw [hnone, unitSeconds?, Text.lowerChar_of_not_ascii hc]
    split
    all_goals first | rfl | exact absurd (by decide) hc

/-! ## What is written -/

/-- Numbers with units, one behind the other, and the seconds in all of them. -/
inductive Spells : List Char → Nat → Prop
  | nil : Spells [] 0
  | part {ds rest : List Char} {c : Char} {size n : Nat} (numeral : IsNumeral ds)
      (unit : unitTable.lookup c = some size) (others : Spells rest n) :
      Spells (ds ++ c :: rest) (digitsValue ds * size + n)

/-- The seconds in a text, however many they are: a bare number of them, or numbers with units. -/
def Denotes (s : String) (n : Nat) : Prop :=
  DenotesNat (Text.trim s).toList n ∨ Text.trim s ≠ "" ∧ Spells (Text.trim s).toList n

theorem Spells.not_isBlank (h : Spells cs n) : ∀ c ∈ cs, Text.isBlank c = false := by
  induction h with
  | nil => exact fun _ h => nomatch h
  | part numeral unit _ ih =>
    exact List.forall_mem_append.2
      ⟨fun c hc => Text.not_isBlank_of_isDigit (numeral.2 c hc),
        List.forall_mem_cons.2 ⟨(unit_of_lookup unit).2.2.1, ih⟩⟩

/-- A unit ends its number. -/
theorem digits_append_inj {ds' rest' : List Char} {c' : Char} (hds : ∀ d ∈ ds, isDigit d = true)
    (hds' : ∀ d ∈ ds', isDigit d = true) (hc : isDigit c = false) (hc' : isDigit c' = false)
    (h : ds ++ c :: rest = ds' ++ c' :: rest') : ds = ds' ∧ c = c' ∧ rest = rest' := by
  have htake {ds rest : List Char} {c : Char} (hds : ∀ d ∈ ds, isDigit d = true)
      (hc : isDigit c = false) : (ds ++ c :: rest).takeWhile isDigit = ds := by
    rw [List.takeWhile_append_of_pos hds, List.takeWhile_cons_of_neg (by simp [hc]),
      List.append_nil]
  obtain rfl : ds = ds' := by rw [← htake hds hc, h, htake hds' hc']
  obtain ⟨rfl, rfl⟩ := List.cons.inj (List.append_cancel_left h)
  exact ⟨rfl, rfl, rfl⟩

/-- A text with a unit is the number before it and the rest. -/
theorem spells_append_cons_iff (hds : ∀ d ∈ ds, isDigit d = true) (hc : isDigit c = false) :
    Spells (ds ++ c :: rest) m ↔
      ds ≠ [] ∧ ∃ size n, unitTable.lookup c = some size ∧ Spells rest n ∧
        digitsValue ds * size + n = m := by
  constructor
  · generalize hcs : ds ++ c :: rest = cs
    rintro (_ | ⟨numeral, unit, others⟩)
    · exact absurd hcs (List.append_ne_nil_of_right_ne_nil _ (List.cons_ne_nil _ _))
    · obtain ⟨rfl, rfl, rfl⟩ := digits_append_inj hds numeral.2 hc (unit_of_lookup unit).2.1 hcs
      exact ⟨numeral.1, _, _, unit, others, rfl⟩
  · rintro ⟨hne, size, n, hunit, hrest, rfl⟩
    exact .part ⟨hne, hds⟩ hunit hrest

/-- A number is followed by a unit. -/
theorem spells_digits_iff (hds : ∀ d ∈ ds, isDigit d = true) : Spells ds m ↔ ds = [] ∧ m = 0 := by
  constructor
  · rintro (_ | ⟨-, unit, -⟩)
    · exact ⟨rfl, rfl⟩
    · have hdigit := hds _ (List.mem_append_right _ List.mem_cons_self)
      rw [(unit_of_lookup unit).2.1] at hdigit
      cases hdigit
  · rintro ⟨rfl, rfl⟩
    exact .nil

theorem Spells.unique (hn : Spells cs n) (hm : Spells cs m) : n = m := by
  induction hn generalizing m with
  | nil => exact ((spells_digits_iff (List.forall_mem_nil _)).1 hm).2.symm
  | part numeral unit _ ih =>
    obtain ⟨-, size, k, hunit, hrest, rfl⟩ :=
      (spells_append_cons_iff numeral.2 (unit_of_lookup unit).2.1).1 hm
    obtain rfl := Option.some.inj (unit.symm.trans hunit)
    rw [ih hrest]

/-- A bare number has no units. -/
theorem Spells.not_denotesNat (h : Spells cs n) : ¬ DenotesNat cs m := by
  rintro ⟨ds, rfl | rfl, hds, -⟩
  · exact hds.1 ((spells_digits_iff hds.2).1 h).1
  · exact ((spells_append_cons_iff (List.forall_mem_nil _) (by decide)).1 h).1 rfl

/-- No text stands for two numbers. -/
theorem Denotes.unique (hn : Denotes s n) (hm : Denotes s m) : n = m := by
  obtain hn | ⟨-, hn⟩ := hn <;> obtain hm | ⟨-, hm⟩ := hm
  · exact hn.unique hm
  · exact absurd hn hm.not_denotesNat
  · exact absurd hm hn.not_denotesNat
  · exact hn.unique hm

/-! ## Reading -/

/-- A unit adds the number before it, and the sum still fits. -/
theorem sumParts_cons_eq_ok_iff {text : String} {total : Nat} (hds : ∀ d ∈ ds, isDigit d = true)
    (hc : isDigit c = false) :
    sumParts text total ds (c :: cs) = .ok n ↔
      ds ≠ [] ∧ ∃ size, unitTable.lookup c = some size ∧ total + digitsValue ds * size < bound ∧
        sumParts text (total + digitsValue ds * size) [] cs = .ok n := by
  rw [sumParts, if_neg (by simp [hc]), unitSeconds?_eq_lookup]
  split
  · rename_i hunit
    constructor
    · rintro ⟨⟩
    · rintro ⟨-, _, hunit', -⟩
      rw [hunit] at hunit'
      cases hunit'
  · rename_i size hunit hread
    constructor
    · rintro ⟨⟩
    · rintro ⟨hne, size', hunit', hsum, -⟩
      obtain rfl := Option.some.inj (hunit.symm.trans hunit')
      -- a number too long to be read is too much for the sum in any unit
      have hle : digitsValue ds ≤ digitsValue ds * size :=
        Nat.le_mul_of_pos_right _ (unit_of_lookup hunit).2.2.2
      have hlt : digitsValue ds < bound := by omega
      have hsome := natBelow?_eq_some_iff.2 ⟨hlt, (denotesNat_iff_of_digits hds).2 ⟨hne, rfl⟩⟩
      rw [hread] at hsome
      cases hsome
  · rename_i size number hunit hread
    obtain ⟨hne, rfl⟩ := (denotesNat_iff_of_digits hds).1 (natBelow?_eq_some_iff.1 hread).2
    constructor
    · intro h
      split at h
      · rename_i hsum
        exact ⟨hne, size, hunit, hsum, h⟩
      · cases h
    · rintro ⟨-, size', hunit', hsum, hrest⟩
      obtain rfl := Option.some.inj (hunit.symm.trans hunit')
      rwa [if_pos hsum]

/-- From any point on: the number begun, as far as it is read, and the sum so far. -/
theorem sumParts_eq_ok_iff {text : String} {total : Nat} (hds : ∀ d ∈ ds, isDigit d = true)
    (htotal : total < bound) :
    sumParts text total ds cs = .ok n ↔
      n < bound ∧ ∃ m, Spells (ds ++ cs) m ∧ total + m = n := by
  induction cs generalizing total ds with
  | nil =>
    simp only [List.append_nil, spells_digits_iff hds, sumParts, List.isEmpty_iff]
    split
    · rename_i hempty
      constructor
      · rintro ⟨⟩
        exact ⟨htotal, 0, ⟨hempty, rfl⟩, rfl⟩
      · rintro ⟨-, _, ⟨-, rfl⟩, rfl⟩
        rfl
    · rename_i hmore
      constructor
      · rintro ⟨⟩
      · rintro ⟨-, _, ⟨hempty, -⟩, -⟩
        exact absurd hempty hmore
  | cons c cs ih =>
    cases hc : isDigit c with
    | true =>
      rw [sumParts, if_pos hc,
        ih (List.forall_mem_append.2 ⟨hds, List.forall_mem_singleton.2 hc⟩) htotal,
        List.append_assoc, List.singleton_append]
    | false =>
      simp only [spells_append_cons_iff hds hc]
      rw [sumParts_cons_eq_ok_iff hds hc]
      constructor
      · rintro ⟨hne, size, hunit, hsum, hrest⟩
        obtain ⟨hn, m, hm, rfl⟩ := (ih (List.forall_mem_nil _) hsum).1 hrest
        exact ⟨hn, _, ⟨hne, size, m, hunit, hm, rfl⟩, (Nat.add_assoc ..).symm⟩
      · rintro ⟨hn, _, ⟨hne, size, m, hunit, hm, rfl⟩, rfl⟩
        have hsum : total + digitsValue ds * size < bound := by omega
        exact ⟨hne, size, hunit, hsum,
          (ih (List.forall_mem_nil _) hsum).2 ⟨hn, m, hm, Nat.add_assoc ..⟩⟩

/-- A text is read as what it stands for, if that fits. -/
theorem parse_eq_ok_iff {d : Duration} :
    parse s = .ok d ↔ d.seconds < bound ∧ Denotes s d.seconds := by
  rw [parse]
  split
  · rename_i hempty
    constructor
    · rintro ⟨⟩
    · rintro ⟨-, ⟨ds, h | h, hds, -⟩ | ⟨hne, -⟩⟩
      · exact absurd (h.symm.trans (congrArg String.toList hempty)) hds.1
      · exact absurd (h.symm.trans (congrArg String.toList hempty)) (List.cons_ne_nil _ _)
      · exact absurd hempty hne
  · rename_i hmore
    split
    · rename_i n hn
      obtain ⟨hlt, hbare⟩ := natBelow?_eq_some_iff.1 hn
      have hdenotes : Denotes s n := .inl hbare
      constructor
      · rintro ⟨⟩
        exact ⟨hlt, hdenotes⟩
      · rintro ⟨-, h⟩
        rw [hdenotes.unique h]
    · rename_i hnone
      have hparts : sumParts (Text.trim s) 0 [] (Text.trim s).toList = .ok d.seconds ↔
          d.seconds < bound ∧ Spells (Text.trim s).toList d.seconds := by
        rw [sumParts_eq_ok_iff (List.forall_mem_nil _) (bitLimit_pos 64)]
        simp only [List.nil_append, Nat.zero_add, exists_eq_right]
      constructor
      · intro h
        obtain ⟨n, hn, rfl⟩ := Outcome.map_eq_ok_iff.1 h
        obtain ⟨hlt, hspells⟩ := hparts.1 hn
        exact ⟨hlt, .inr ⟨hmore, hspells⟩⟩
      · rintro ⟨hlt, hbare | ⟨-, hspells⟩⟩
        · rw [natBelow?_eq_some_iff.2 ⟨hlt, hbare⟩] at hnone
          cases hnone
        · exact Outcome.map_eq_ok_iff.2 ⟨_, hparts.2 ⟨hlt, hspells⟩, rfl⟩

/-! ## Writing -/

theorem spells_digits_append {name : String} (hname : name.toList = [c])
    (hc : unitTable.lookup c = some size) (hrest : Spells rest n) (k : Nat) :
    Spells ((toString k ++ name).toList ++ rest) (k * size + n) := by
  have hspells := Spells.part (Text.isNumeral_toDigits k) hc hrest
  rw [Text.digitsValue_toDigits] at hspells
  rwa [String.toList_append, hname, List.append_assoc, List.singleton_append,
    Nat.toString_eq_repr, Nat.toList_repr]

/-- The parts spell what they leave of the duration. -/
theorem spells_parts {names : List (Nat × String)}
    (hnames : ∀ u ∈ names, ∃ c, u.2.toList = [c] ∧ unitTable.lookup c = some u.1) (n : Nat) :
    ∃ m, Spells ((parts n names).flatMap String.toList) m ∧
      m + names.foldl (fun left u => left % u.1) n = n := by
  induction names generalizing n with
  | nil => exact ⟨0, .nil, Nat.zero_add n⟩
  | cons u names ih =>
    obtain ⟨⟨c, hname, hc⟩, hnames⟩ := List.forall_mem_cons.1 hnames
    rw [parts, List.foldl_cons]
    split
    · obtain ⟨m, hm, hsum⟩ := ih hnames (n % u.1)
      refine ⟨_, spells_digits_append hname hc hm (n / u.1), ?_⟩
      rw [Nat.add_assoc, hsum, Nat.mul_comm, Nat.div_add_mod]
    · rename_i hsmall
      rw [Nat.mod_eq_of_lt (Nat.lt_of_not_le hsmall)]
      exact ih hnames n

theorem lookup_of_mem_units :
    ∀ u ∈ units, ∃ c, u.2.toList = [c] ∧ unitTable.lookup c = some u.1 := by
  have hall : units.map (fun u => u.2.toList.map fun c => unitTable.lookup c) =
      units.map fun u => [some u.1] := by
    decide
  intro u hu
  obtain ⟨c, hname, hc⟩ := List.map_eq_singleton_iff.1 (List.map_inj_left.1 hall u hu)
  exact ⟨c, hname, hc⟩

/-- Nothing is left under the last unit, a second. -/
theorem spells_text (d : Duration) : Spells d.text.toList d.seconds := by
  rw [text]
  split
  · rename_i hzero
    rw [hzero]
    have hunit : unitTable.lookup 's' = some 1 := rfl
    exact .part (Text.isNumeral_toDigits 0) hunit .nil
  · obtain ⟨m, hm, hsum⟩ := spells_parts lookup_of_mem_units d.seconds
    have hleft : units.foldl (fun left u => left % u.1) d.seconds = 0 := Nat.mod_one _
    rw [hleft, Nat.add_zero] at hsum
    obtain rfl := hsum
    rwa [String.toList_join]

/-- Zero is written out. -/
theorem text_ne_empty (d : Duration) : d.text ≠ "" := by
  intro hempty
  have hspells := d.spells_text
  rw [hempty] at hspells
  obtain ⟨-, hzero⟩ := (spells_digits_iff (List.forall_mem_nil _)).1 hspells
  rw [text, if_pos hzero] at hempty
  exact absurd hempty (by decide)

theorem denotes_text (d : Duration) : Denotes d.text d.seconds := by
  have htrim : Text.trim d.text = d.text := Text.trim_of_not_isBlank d.spells_text.not_isBlank
  refine .inr ?_
  rw [htrim]
  exact ⟨d.text_ne_empty, d.spells_text⟩

/-- **What is read is what was written.** A duration of 64 bits is read back from its text; and a
text is read as a duration if and only if that fits 64 bits and is the number of seconds that is
written there, the only one. -/
theorem written_value_read :
    (∀ n : UInt64, parse (text ⟨n.toNat⟩) = .ok ⟨n.toNat⟩) ∧
      ∀ s d, parse s = .ok d ↔ d.seconds < bound ∧ ∀ n, Denotes s n ↔ n = d.seconds := by
  constructor
  · intro n
    exact parse_eq_ok_iff.2 ⟨n.toNat_lt, denotes_text _⟩
  · intro s d
    rw [parse_eq_ok_iff]
    constructor
    · rintro ⟨hlt, h⟩
      exact ⟨hlt, fun n => ⟨fun hn => hn.unique h, fun hn => hn ▸ h⟩⟩
    · rintro ⟨hlt, h⟩
      exact ⟨hlt, (h _).2 rfl⟩

end CertAuthority.Duration
