import CertAuthority.Text.Basic
import Mathlib.Data.List.DropRight

/-!
# Digits and pieces of texts

* `Text.trimStartChars_cons` : text that does not begin with a blank is not trimmed, such as that
  of a number;
* `Text.trimChars_sublist`, `Text.trimChars_trimChars` : trimming only takes away, and all at once;
* `Text.trimChars_append`, `Text.exists_trimChars` : what is taken away are the blanks around a text
  that has none at its ends;
* `Text.toString_inj` : a number is told by its text;
* `Text.digitsValue_padded` : the zeros in front do not change what the digits stand for;
* `Text.length_padded` : a number that fits has exactly the width;
* `Text.takeWhile_padded` : its digits are told from what follows them, where that is no digit;
* `Text.natBelow?_eq_some_iff` : the numbers that are read;
* `Text.splitChars_append`, `Text.splitChars_append_cons` : a separator ends a piece, and the first
  one the first piece;
* `Text.splitChars_intercalate` : pieces without the separator are found again in the text that they
  were joined to;
* `Text.intercalate_splitChars`, `Text.notMem_of_mem_splitChars` : the pieces of any text, which have
  no separator, are joined to that text;
* `Text.exists_mem_splitChars` : no character gets lost but the separator;
* `Text.isSome_mapM_iff` : pieces can be read if each of them can.
-/

namespace CertAuthority.Text

/-! ## Trimming -/

theorem trimStartChars_cons {c : Char} {cs : List Char} (h : isBlank c = false) :
    trimStartChars (c :: cs) = c :: cs :=
  List.dropWhile_cons_of_neg (by simp [h])

theorem trimEndChars_cons {c : Char} {cs : List Char} (h : isBlank c = false) :
    trimEndChars (c :: cs) = c :: trimEndChars cs := by
  rw [trimEndChars, List.reverse_cons, List.dropWhile_append]
  split
  · rename_i hempty
    rw [trimEndChars, List.isEmpty_iff.1 hempty, List.dropWhile_cons_of_neg (by simp [h])]
    rfl
  · rw [List.reverse_append]
    rfl

theorem trimChars_cons {c : Char} {cs : List Char} (h : isBlank c = false) :
    trimChars (c :: cs) = c :: trimEndChars cs := by
  rw [trimChars, trimStartChars_cons h, trimEndChars_cons h]

theorem trimChars_sublist (cs : List Char) : (trimChars cs).Sublist cs := by
  have hend (ds : List Char) : (trimEndChars ds).Sublist ds := by
    have hreverse := (List.dropWhile_sublist (l := ds.reverse) isBlank).reverse
    rwa [List.reverse_reverse] at hreverse
  exact (hend _).trans (List.dropWhile_sublist isBlank)

/-- What is left at the start begins with no blank. -/
theorem trimStartChars_eq_nil_or_cons (cs : List Char) :
    trimStartChars cs = [] ∨ ∃ c ds, trimStartChars cs = c :: ds ∧ isBlank c = false := by
  have hhead := List.head?_dropWhile_not isBlank cs
  cases h : trimStartChars cs with
  | nil => exact .inl rfl
  | cons c ds =>
    rw [show cs.dropWhile isBlank = c :: ds from h] at hhead
    exact .inr ⟨c, ds, rfl, hhead⟩

theorem trimChars_trimChars (cs : List Char) : trimChars (trimChars cs) = trimChars cs := by
  have hend (ds : List Char) : trimEndChars (trimEndChars ds) = trimEndChars ds :=
    List.rdropWhile_idempotent isBlank ds
  obtain h | ⟨c, ds, h, hc⟩ := trimStartChars_eq_nil_or_cons cs
  · rw [trimChars, trimChars, h]
    rfl
  · rw [trimChars, trimChars, h, trimEndChars_cons hc, trimStartChars_cons hc,
      trimEndChars_cons hc, hend]

theorem trim_trim (s : String) : trim (trim s) = trim s := by
  rw [trim, trim, String.toList_ofList, trimChars_trimChars]

/-- The blanks around a text go, and no more if it begins and ends with none. -/
theorem trimChars_append {before cs after : List Char} (hbefore : ∀ c ∈ before, isBlank c = true)
    (hafter : ∀ c ∈ after, isBlank c = true) (hhead : ∀ c ∈ cs.head?, isBlank c = false)
    (hlast : ∀ c ∈ cs.getLast?, isBlank c = false) :
    trimChars (before ++ (cs ++ after)) = cs := by
  have hstart : trimStartChars (before ++ (cs ++ after)) = trimStartChars (cs ++ after) :=
    List.dropWhile_append_of_pos hbefore
  rw [trimChars, hstart]
  cases cs with
  | nil =>
    rw [List.nil_append, trimStartChars, List.dropWhile_eq_nil_iff.2 hafter]
    rfl
  | cons c cs =>
    rw [List.cons_append, trimStartChars_cons (hhead c rfl), ← List.cons_append, trimEndChars,
      List.reverse_append,
      List.dropWhile_append_of_pos fun d hd => hafter d (List.mem_reverse.1 hd)]
    refine List.rdropWhile_eq_self_iff.2 fun hne => ?_
    rw [hlast _ (List.getLast?_eq_some_getLast hne)]
    exact Bool.false_ne_true

/-- Every text is what is left of it, with blanks around. -/
theorem exists_trimChars (cs : List Char) : ∃ before after,
    before ++ (trimChars cs ++ after) = cs ∧ (∀ c ∈ before ++ after, isBlank c = true) ∧
      (∀ c ∈ (trimChars cs).head?, isBlank c = false) ∧
      ∀ c ∈ (trimChars cs).getLast?, isBlank c = false := by
  refine ⟨cs.takeWhile isBlank, (trimStartChars cs).rtakeWhile isBlank, ?_, ?_, ?_, ?_⟩
  · have hend : trimChars cs ++ (trimStartChars cs).rtakeWhile isBlank = trimStartChars cs :=
      List.rdropWhile_append_rtakeWhile
    rw [hend]
    exact List.takeWhile_append_dropWhile
  · intro c hc
    obtain hc | hc := List.mem_append.1 hc
    · exact List.mem_takeWhile_imp hc
    · exact List.mem_rtakeWhile_imp hc
  · intro c hc
    obtain h | ⟨d, ds, h, hd⟩ := trimStartChars_eq_nil_or_cons cs
    · rw [trimChars, h] at hc
      cases hc
    · rw [trimChars, h, trimEndChars_cons hd] at hc
      cases hc
      exact hd
  · intro c hc
    obtain ⟨hne, rfl⟩ := List.mem_getLast?_eq_getLast hc
    exact Bool.eq_false_iff.2 (List.rdropWhile_last_not isBlank (trimStartChars cs) hne)

theorem trim_of_not_isBlank {s : String} (h : ∀ c ∈ s.toList, isBlank c = false) : trim s = s := by
  have hkept {ds : List Char} (hds : ∀ c ∈ ds, isBlank c = false) : ds.dropWhile isBlank = ds := by
    cases ds with
    | nil => rfl
    | cons c ds => exact trimStartChars_cons (hds c List.mem_cons_self)
  rw [trim, trimChars, trimStartChars, hkept h, trimEndChars,
    hkept fun c hc => h c (List.mem_reverse.1 hc), List.reverse_reverse, String.ofList_toList]

/-! ## Digits -/

theorem not_isBlank_of_isDigit {c : Char} (h : isDigit c = true) : isBlank c = false := by
  have hrange : 48 ≤ c.toNat ∧ c.toNat ≤ 57 := by
    simpa [isDigit, Char.le_def, UInt32.le_iff_toNat_le] using h
  simp only [isBlank, Bool.or_eq_false_iff, Bool.and_eq_false_iff, decide_eq_false_iff_not,
    beq_eq_false_iff_ne]
  omega

/-! ## Letters -/

/-- A character that no letter is made into. -/
theorem eq_of_lowerChar_eq {c d : Char} (hd : ∀ n ≤ 90, 65 ≤ n → Char.ofNat (n + 32) ≠ d)
    (h : lowerChar c = d) : c = d := by
  unfold lowerChar at h
  split at h
  · rename_i hupper
    have hrange : 65 ≤ c.toNat ∧ c.toNat ≤ 90 := by
      simpa [Char.le_def, UInt32.le_iff_toNat_le] using hupper
    exact absurd h (hd c.toNat hrange.2 hrange.1)
  · exact h

theorem lowerChar_of_not_ascii {c : Char} (h : ¬ c.toNat < 128) : lowerChar c = c := by
  refine if_neg fun hupper => h ?_
  have hle : c.toNat ≤ 90 := hupper.2
  omega

/-! ## Numbers written to a width -/

theorem isDigit_of_mem_toDigits {n : Nat} {c : Char} (h : c ∈ Nat.toDigits 10 n) :
    isDigit c = true := by
  have hc : c.isDigit = true := Nat.isDigit_of_mem_toDigits (by decide) (by decide) h
  simpa [Char.isDigit, isDigit, Char.le_def, UInt32.le_iff_toNat_le] using hc

/-- Numbers with the same digits are the same. -/
theorem toDigits_inj {n m : Nat} (h : Nat.toDigits 10 n = Nat.toDigits 10 m) : n = m := by
  rw [← Nat.ofDigitChars_ten_toDigits (n := n), h, Nat.ofDigitChars_ten_toDigits]

theorem toString_inj {n m : Nat} (h : toString n = toString m) : n = m := by
  have hdigits := congrArg String.toList h
  rw [Nat.toString_eq_repr, Nat.toString_eq_repr, Nat.toList_repr, Nat.toList_repr] at hdigits
  exact toDigits_inj hdigits

theorem toList_padded (width n : Nat) :
    (padded width n).toList =
      List.replicate (width - (Nat.toDigits 10 n).length) '0' ++ Nat.toDigits 10 n := by
  simp [padded]

theorem digitsValue_eq_ofDigitChars (cs : List Char) :
    digitsValue cs = Nat.ofDigitChars 10 cs 0 := by
  simp only [digitsValue, Nat.ofDigitChars_eq_foldl, digitValue, Nat.mul_comm]
  rfl

theorem digitsValue_toDigits (n : Nat) : digitsValue (Nat.toDigits 10 n) = n := by
  rw [digitsValue_eq_ofDigitChars, Nat.ofDigitChars_ten_toDigits]

theorem digitsValue_padded (width n : Nat) : digitsValue (padded width n).toList = n := by
  rw [digitsValue_eq_ofDigitChars, toList_padded, Nat.ofDigitChars_append,
    Nat.ofDigitChars_replicate_zero]
  simp

theorem length_padded {w n : Nat} (hw : 0 < w) (hn : n < Nat.pow 10 w) :
    (padded w n).toList.length = w := by
  have hl := (Nat.length_toDigits_le_iff (b := 10) (by decide) hw).2 hn
  rw [toList_padded, List.length_append, List.length_replicate]
  omega

theorem isDigit_of_mem_padded {width n : Nat} {c : Char} (h : c ∈ (padded width n).toList) :
    isDigit c = true := by
  rw [toList_padded] at h
  rcases List.mem_append.1 h with hzero | hdigit
  · rw [List.eq_of_mem_replicate hzero]
    rfl
  · exact isDigit_of_mem_toDigits hdigit

/-- Every number has a digit. -/
theorem padded_eq_cons (width n : Nat) :
    ∃ c cs, (padded width n).toList = c :: cs ∧ isDigit c = true := by
  have hne : (padded width n).toList ≠ [] := by
    rw [toList_padded]
    exact List.append_ne_nil_of_right_ne_nil _ Nat.toDigits_ne_nil
  obtain ⟨c, cs, hcs⟩ := List.exists_cons_of_ne_nil hne
  exact ⟨c, cs, hcs, isDigit_of_mem_padded (hcs ▸ List.mem_cons_self)⟩

theorem trimStartChars_padded (width n : Nat) (rest : List Char) :
    trimStartChars ((padded width n).toList ++ rest) = (padded width n).toList ++ rest := by
  obtain ⟨c, cs, hcs, hc⟩ := padded_eq_cons width n
  rw [hcs, List.cons_append, trimStartChars_cons (not_isBlank_of_isDigit hc)]

/-- Digits end where something else begins. -/
theorem takeWhile_padded (width n : Nat) {rest : List Char}
    (hrest : ∀ c, rest.head? = some c → isDigit c = false) :
    ((padded width n).toList ++ rest).takeWhile isDigit = (padded width n).toList := by
  have hnone : rest.takeWhile isDigit = [] := by
    cases rest with
    | nil => rfl
    | cons c cs => rw [List.takeWhile_cons, hrest c rfl]; rfl
  rw [List.takeWhile_append_of_pos fun c hc => isDigit_of_mem_padded hc, hnone, List.append_nil]

/-! ## Numbers that are read -/

/-- Decimal digits, at least one. -/
def IsNumeral (ds : List Char) : Prop := ds ≠ [] ∧ ∀ c ∈ ds, isDigit c = true

theorem isNumeral_toDigits (n : Nat) : IsNumeral (Nat.toDigits 10 n) :=
  ⟨Nat.toDigits_ne_nil, fun _ => isDigit_of_mem_toDigits⟩

theorem IsNumeral.head_ne {c : Char} {ds : List Char} (h : IsNumeral (c :: ds)) : c ≠ '+' := by
  rintro rfl
  exact absurd (h.2 '+' List.mem_cons_self) (by decide)

/-- A numeral that stands for `n`, perhaps with a sign. -/
def DenotesNat (cs : List Char) (n : Nat) : Prop :=
  ∃ ds, (cs = ds ∨ cs = '+' :: ds) ∧ IsNumeral ds ∧ digitsValue ds = n

theorem denotesNat_iff_of_digits {ds : List Char} {n : Nat} (hds : ∀ d ∈ ds, isDigit d = true) :
    DenotesNat ds n ↔ ds ≠ [] ∧ digitsValue ds = n := by
  constructor
  · rintro ⟨_, rfl | rfl, hnumeral, hn⟩
    · exact ⟨hnumeral.1, hn⟩
    · exact absurd (hds '+' List.mem_cons_self) (by decide)
  · rintro ⟨hne, hn⟩
    exact ⟨ds, .inl rfl, ⟨hne, hds⟩, hn⟩

theorem DenotesNat.unique {cs : List Char} {n m : Nat} (hn : DenotesNat cs n)
    (hm : DenotesNat cs m) : n = m := by
  obtain ⟨ds, h, hds, rfl⟩ := hn
  obtain ⟨ds', h', hds', rfl⟩ := hm
  obtain h | h := h <;> obtain h' | h' := h' <;> rw [h] at h'
  · rw [h']
  · exact absurd rfl (h' ▸ hds).head_ne
  · exact absurd rfl (h' ▸ hds').head_ne
  · rw [(List.cons.inj h').2]

/-- What is written is read if it is below the bound. -/
theorem natBelow?_eq_some_iff {bound n : Nat} {cs : List Char} :
    natBelow? bound cs = some n ↔ n < bound ∧ DenotesNat cs n := by
  have hread (ds : List Char) :
      (if ds ≠ [] ∧ ds.all isDigit ∧ digitsValue ds < bound then some (digitsValue ds) else none) =
          some n ↔ n < bound ∧ IsNumeral ds ∧ digitsValue ds = n := by
    rw [Option.ite_none_right_eq_some, Option.some.injEq, List.all_eq_true, IsNumeral]
    constructor
    · rintro ⟨⟨hne, hall, hlt⟩, rfl⟩
      exact ⟨hlt, ⟨hne, hall⟩, rfl⟩
    · rintro ⟨hlt, ⟨hne, hall⟩, rfl⟩
      exact ⟨⟨hne, hall, hlt⟩, rfl⟩
  unfold natBelow?
  dsimp only
  split
  · rename_i rest
    rw [hread]
    constructor
    · rintro ⟨hlt, hds, hn⟩
      exact ⟨hlt, rest, .inr rfl, hds, hn⟩
    · rintro ⟨hlt, ds, rfl | heq, hds, hn⟩
      · exact absurd rfl hds.head_ne
      · obtain rfl := (List.cons.inj heq).2
        exact ⟨hlt, hds, hn⟩
  · rename_i hsign
    rw [hread]
    constructor
    · rintro ⟨hlt, hds, hn⟩
      exact ⟨hlt, cs, .inl rfl, hds, hn⟩
    · rintro ⟨hlt, ds, rfl | rfl, hds, hn⟩
      · exact ⟨hlt, hds, hn⟩
      · exact absurd rfl (hsign ds)

theorem lt_of_natBelow? {bound n : Nat} {cs : List Char} (h : natBelow? bound cs = some n) :
    n < bound :=
  (natBelow?_eq_some_iff.1 h).1

/-! ## Pieces -/

variable {sep c : Char} {p rest cs : List Char} {pieces : List (List Char)}

theorem splitOnceChars?_append (hp : sep ∉ p) (rest : List Char) :
    splitOnceChars? sep (p ++ sep :: rest) = some (p, rest) := by
  induction p with
  | nil => simp [splitOnceChars?]
  | cons c p ih =>
    rw [List.mem_cons, not_or] at hp
    rw [List.cons_append, splitOnceChars?, if_neg (Ne.symm hp.1), ih hp.2]
    rfl

/-- Both parts are there, with the separator in between. -/
theorem of_splitOnceChars? (h : splitOnceChars? sep cs = some (p, rest)) :
    cs = p ++ sep :: rest := by
  induction cs generalizing p with
  | nil => cases h
  | cons c cs ih =>
    rw [splitOnceChars?] at h
    split at h
    · rename_i hc
      obtain ⟨rfl, rfl⟩ := Prod.mk.inj (Option.some.inj h)
      rw [hc]
      rfl
    · obtain ⟨⟨before, after⟩, hparts, heq⟩ := Option.map_eq_some_iff.1 h
      obtain ⟨rfl, rfl⟩ := Prod.mk.inj heq
      rw [ih hparts]
      rfl

theorem splitChars_ne_nil (sep : Char) (cs : List Char) : splitChars sep cs ≠ [] := by
  induction cs with
  | nil => exact List.cons_ne_nil _ _
  | cons c cs ih =>
    rw [splitChars]
    split
    · exact List.cons_ne_nil _ _
    · split <;> exact List.cons_ne_nil _ _

theorem splitChars_of_not_mem (hp : sep ∉ p) : splitChars sep p = [p] := by
  induction p with
  | nil => rfl
  | cons c p ih =>
    rw [List.mem_cons, not_or] at hp
    rw [splitChars, if_neg (Ne.symm hp.1), ih hp.2]

/-- A separator ends a piece, whatever stands before it. -/
theorem splitChars_append (cs rest : List Char) :
    splitChars sep (cs ++ sep :: rest) = splitChars sep cs ++ splitChars sep rest := by
  induction cs with
  | nil => simp [splitChars]
  | cons c cs ih =>
    rw [List.cons_append, splitChars, splitChars, ih]
    split
    · rfl
    · obtain ⟨piece, pieces, hpieces⟩ := List.exists_cons_of_ne_nil (splitChars_ne_nil sep cs)
      rw [hpieces]
      rfl

theorem splitChars_append_cons (hp : sep ∉ p) :
    splitChars sep (p ++ sep :: rest) = p :: splitChars sep rest := by
  rw [splitChars_append, splitChars_of_not_mem hp, List.singleton_append]

theorem splitChars_intercalate (hne : pieces ≠ []) (h : ∀ p ∈ pieces, sep ∉ p) :
    splitChars sep ([sep].intercalate pieces) = pieces := by
  induction pieces with
  | nil => exact absurd rfl hne
  | cons p pieces ih =>
    rw [List.forall_mem_cons] at h
    cases pieces with
    | nil => rw [List.intercalate_singleton, splitChars_of_not_mem h.1]
    | cons q pieces =>
      rw [List.intercalate_cons_cons, List.append_assoc, List.singleton_append,
        splitChars_append_cons h.1, ih (List.cons_ne_nil _ _) h.2]

/-- Pieces that each end with the separator are the pieces in between. -/
theorem splitChars_flatMap (h : ∀ p ∈ pieces, sep ∉ p) :
    splitChars sep (pieces.flatMap (· ++ [sep])) = pieces ++ [[]] := by
  induction pieces with
  | nil => rfl
  | cons p pieces ih =>
    rw [List.forall_mem_cons] at h
    rw [List.flatMap_cons, List.append_assoc, List.singleton_append, splitChars_append_cons h.1,
      ih h.2]
    rfl

/-- No text is lost by taking it to pieces. -/
theorem intercalate_splitChars (sep : Char) (cs : List Char) :
    [sep].intercalate (splitChars sep cs) = cs := by
  induction cs with
  | nil => rfl
  | cons c cs ih =>
    obtain ⟨piece, pieces, hpieces⟩ := List.exists_cons_of_ne_nil (splitChars_ne_nil sep cs)
    rw [hpieces] at ih
    rw [splitChars, hpieces]
    split
    · rename_i hc
      rw [List.intercalate_cons_cons, ih, hc]
      rfl
    · cases pieces with
      | nil =>
        rw [← ih]
        rfl
      | cons q pieces =>
        rw [List.intercalate_cons_cons] at ih ⊢
        rw [← ih]
        rfl

theorem notMem_of_mem_splitChars (h : p ∈ splitChars sep cs) : sep ∉ p := by
  induction cs generalizing p with
  | nil =>
    obtain rfl := List.mem_singleton.1 h
    exact List.not_mem_nil
  | cons c cs ih =>
    rw [splitChars] at h
    split at h
    · obtain rfl | h := List.mem_cons.1 h
      · exact List.not_mem_nil
      · exact ih h
    · rename_i hc
      obtain ⟨piece, pieces, hpieces⟩ := List.exists_cons_of_ne_nil (splitChars_ne_nil sep cs)
      rw [hpieces] at h ih
      obtain rfl | h := List.mem_cons.1 h
      · rw [List.mem_cons, not_or]
        exact ⟨Ne.symm hc, ih List.mem_cons_self⟩
      · exact ih (List.mem_cons_of_mem _ h)

theorem exists_mem_splitChars (hc : c ∈ cs) (hne : c ≠ sep) : ∃ p ∈ splitChars sep cs, c ∈ p := by
  induction cs with
  | nil => cases hc
  | cons d cs ih =>
    rw [splitChars]
    split
    · rename_i hd
      obtain ⟨p, hp, hmem⟩ := ih ((List.mem_cons.1 hc).resolve_left (hd ▸ hne))
      exact ⟨p, List.mem_cons_of_mem _ hp, hmem⟩
    · split
      · rename_i hnil
        exact absurd hnil (splitChars_ne_nil sep cs)
      · rename_i piece pieces hpieces
        obtain rfl | hc := List.mem_cons.1 hc
        · exact ⟨_, List.mem_cons_self, List.mem_cons_self⟩
        · obtain ⟨p, hp, hmem⟩ := ih hc
          rw [hpieces] at hp
          obtain rfl | hp := List.mem_cons.1 hp
          · exact ⟨_, List.mem_cons_self, List.mem_cons_of_mem d hmem⟩
          · exact ⟨p, List.mem_cons_of_mem _ hp, hmem⟩

theorem mem_of_lookup {α β : Type} [BEq α] [LawfulBEq α] {pairs : List (α × β)} {a : α} {b : β}
    (h : pairs.lookup a = some b) : (a, b) ∈ pairs := by
  obtain ⟨before, after, hpairs, -⟩ := List.lookup_eq_some_iff.1 h
  rw [hpairs]
  exact List.mem_append_right _ List.mem_cons_self

/-- Pieces can be read if each of them can. -/
theorem isSome_mapM_iff {α β : Type} {f : α → Option β} {as : List α} :
    (as.mapM f).isSome = true ↔ ∀ a ∈ as, (f a).isSome = true := by
  induction as with
  | nil => simp
  | cons a as ih =>
    rw [List.forall_mem_cons, ← ih, List.mapM_cons]
    cases f a with
    | none => simp
    | some b => cases as.mapM f <;> simp

theorem mapM_eq_none {α β : Type} {f : α → Option β} {as : List α} {a : α} (ha : a ∈ as)
    (hf : f a = none) : as.mapM f = none := by
  rw [← Option.not_isSome_iff_eq_none, isSome_mapM_iff]
  intro hall
  have hsome := hall a ha
  rw [hf] at hsome
  cases hsome

end CertAuthority.Text
