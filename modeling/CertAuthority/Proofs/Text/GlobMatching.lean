import CertAuthority.Text.Glob

/-!
# What a glob accepts

`Glob.accepts` reads a text once and keeps the rests of the pattern that may still match. Here is
the same set of texts without any search: a text matches if it can be cut into stretches, one for
each part of the pattern, such that every part covers its stretch.

* `GlobPart.Covers` : the stretches of one part;
* `Glob.Matches` : the texts of a pattern;
* `Glob.Follows` : one rest of a pattern reads a text to its end;
* `Glob.accepts_iff_matches` : the search finds exactly the texts that match.
-/

namespace CertAuthority

/-- A part covers a stretch of the text, before what is left of it. -/
def GlobPart.Covers : GlobPart → List Char → List Char → Prop
  | .run, _, _ => True
  | .directories, taken, left => taken = [] ∨ taken.getLast? = some Glob.separator ∨ left = []
  | part, taken, _ => ∃ c, taken = [c] ∧ Glob.GlobPart.takes c part = true

namespace Glob

/-- The text falls into stretches that the parts cover, in order. -/
inductive Matches : Glob → List Char → Prop where
  | nil : Matches [] []
  | cons {part : GlobPart} {rest : Glob} (taken : List Char) {left : List Char} :
    part.Covers taken left → Matches rest left → Matches (part :: rest) (taken ++ left)

/-- A part that takes one character and no more. -/
def IsSingle (part : GlobPart) : Prop := part ≠ .run ∧ part ≠ .directories

theorem isSingle_or (part : GlobPart) : IsSingle part ∨ part = .run ∨ part = .directories := by
  by_cases hr : part = .run
  · exact .inr (.inl hr)
  · by_cases hd : part = .directories
    · exact .inr (.inr hd)
    · exact .inl ⟨hr, hd⟩

/-! ## Matching, part by part -/

theorem matches_nil_iff (cs : List Char) : Matches [] cs ↔ cs = [] := by
  constructor
  · intro h
    cases h
    rfl
  · rintro rfl
    exact .nil

theorem matches_run_cons_iff (rest : Glob) (c : Char) (cs : List Char) :
    Matches (.run :: rest) (c :: cs) ↔ Matches rest (c :: cs) ∨ Matches (.run :: rest) cs := by
  constructor
  · generalize ht : c :: cs = text
    rintro (_ | @⟨_, _, taken, left, -, hm⟩)
    cases taken with
    | nil => exact .inl hm
    | cons d taken =>
      obtain ⟨-, rfl⟩ := List.cons.inj ht
      exact .inr (.cons taken trivial hm)
  · rintro (h | h)
    · exact .cons [] trivial h
    · obtain _ | @⟨_, _, taken, left, -, hm⟩ := h
      exact .cons (c :: taken) trivial hm

theorem matches_run_nil_iff (rest : Glob) : Matches (.run :: rest) [] ↔ Matches rest [] := by
  constructor
  · generalize ht : ([] : List Char) = text
    rintro (_ | @⟨_, _, taken, left, -, hm⟩)
    obtain ⟨rfl, rfl⟩ := List.append_eq_nil_iff.1 ht.symm
    exact hm
  · exact fun h => .cons [] trivial h

/-- `**` takes nothing, everything, or whole directories. -/
theorem matches_directories_iff (rest : Glob) (cs : List Char) :
    Matches (.directories :: rest) cs ↔
      Matches rest cs ∨ Matches rest [] ∨
        ∃ before after, cs = before ++ separator :: after ∧ Matches rest after := by
  constructor
  · rintro (_ | @⟨_, _, taken, left, hc, hm⟩)
    obtain rfl | hl | rfl := hc
    · exact .inl hm
    · obtain ⟨before, rfl⟩ := List.getLast?_eq_some_iff.1 hl
      exact .inr (.inr ⟨before, left, by simp, hm⟩)
    · exact .inr (.inl hm)
  · rintro (h | h | ⟨before, after, rfl, h⟩)
    · exact .cons [] (.inl rfl) h
    · simpa using @Matches.cons .directories rest cs [] (.inr (.inr rfl)) h
    · simpa using @Matches.cons .directories rest (before ++ [separator]) after
        (.inr (.inl (by simp))) h

theorem covers_single_iff {part : GlobPart} (hp : IsSingle part) (taken left : List Char) :
    part.Covers taken left ↔ ∃ c, taken = [c] ∧ GlobPart.takes c part = true := by
  cases part with
  | run => exact absurd rfl hp.1
  | directories => exact absurd rfl hp.2
  | _ => exact Iff.rfl

theorem matches_single_iff {part : GlobPart} (hp : IsSingle part) (rest : Glob) (cs : List Char) :
    Matches (part :: rest) cs ↔
      ∃ c left, cs = c :: left ∧ GlobPart.takes c part = true ∧ Matches rest left := by
  constructor
  · rintro (_ | @⟨_, _, taken, left, hc, hm⟩)
    obtain ⟨c, rfl, ht⟩ := (covers_single_iff hp taken left).1 hc
    exact ⟨c, left, rfl, ht, hm⟩
  · rintro ⟨c, left, rfl, ht, hm⟩
    exact .cons [c] ((covers_single_iff hp [c] left).2 ⟨c, rfl, ht⟩) hm

/-! ## The search -/

/-- The parts may all take nothing. -/
def IsOpen (parts : Glob) : Prop := ∀ p ∈ parts, p = .run ∨ p = .directories

/-- A rest of a pattern reads the text to its end, one character at a time. -/
def Follows : Glob → List Char → Prop
  | parts, [] => IsOpen parts
  | parts, c :: cs => ∃ next ∈ afterChar c parts, Follows next cs

/-- One of the rests behind the leading parts that may take nothing reads the text. -/
def Reads (parts : Glob) (cs : List Char) : Prop := ∃ next ∈ openings parts, Follows next cs

theorem acceptsFrom_iff (states : List Glob) (cs : List Char) :
    acceptsFrom states cs = true ↔ ∃ parts ∈ states, Follows parts cs := by
  induction cs generalizing states with
  | nil => simp [acceptsFrom, Follows, IsOpen]
  | cons c cs ih =>
    rw [acceptsFrom, ih]
    simp only [List.mem_eraseDups, List.mem_flatMap, Follows]
    constructor
    · rintro ⟨next, ⟨parts, hp, hn⟩, hf⟩
      exact ⟨parts, hp, next, hn, hf⟩
    · rintro ⟨parts, hp, next, hn, hf⟩
      exact ⟨next, ⟨parts, hp, hn⟩, hf⟩

theorem openings_single {part : GlobPart} (hp : IsSingle part) (rest : Glob) :
    openings (part :: rest) = [part :: rest] := by
  cases part with
  | run => exact absurd rfl hp.1
  | directories => exact absurd rfl hp.2
  | _ => rfl

theorem afterChar_single {part : GlobPart} (hp : IsSingle part) (rest : Glob) (c : Char) :
    afterChar c (part :: rest) = if GlobPart.takes c part then openings rest else [] := by
  cases part with
  | run => exact absurd rfl hp.1
  | directories => exact absurd rfl hp.2
  | _ => rfl

theorem reads_single_cons_iff {part : GlobPart} (hp : IsSingle part) (rest : Glob) (c : Char)
    (cs : List Char) :
    Reads (part :: rest) (c :: cs) ↔ GlobPart.takes c part = true ∧ Reads rest cs := by
  by_cases ht : GlobPart.takes c part = true <;>
    simp [Reads, openings_single hp, Follows, afterChar_single hp, ht]

theorem reads_run_iff (rest : Glob) (cs : List Char) :
    Reads (.run :: rest) cs ↔ Follows (.run :: rest) cs ∨ Reads rest cs := by
  simp [Reads, openings]

theorem reads_directories_iff (rest : Glob) (cs : List Char) :
    Reads (.directories :: rest) cs ↔ Follows (.directories :: rest) cs ∨ Reads rest cs := by
  simp [Reads, openings]

/-- At the end of the text it makes no difference which rest is looked at. -/
theorem reads_nil_iff (parts : Glob) : Reads parts [] ↔ IsOpen parts := by
  induction parts with
  | nil => simp [Reads, openings, Follows]
  | cons part rest ih =>
    obtain hp | rfl | rfl := isSingle_or part
    · simp [Reads, openings_single hp, Follows]
    · rw [reads_run_iff, ih]
      simp [Follows, IsOpen]
    · rw [reads_directories_iff, ih]
      simp [Follows, IsOpen]

theorem follows_run_cons_iff (rest : Glob) (c : Char) (cs : List Char) :
    Follows (.run :: rest) (c :: cs) ↔ Reads (.run :: rest) cs := Iff.rfl

theorem follows_directories_cons_iff (rest : Glob) (c : Char) (cs : List Char) :
    Follows (.directories :: rest) (c :: cs) ↔
      Follows (.directories :: rest) cs ∨ c = separator ∧ Reads rest cs := by
  by_cases hc : c = separator <;> simp [Follows, afterChar, Reads, hc]

/-- Within directories the search goes on to the end of the text or behind a separator. -/
theorem follows_directories_iff (rest : Glob) (cs : List Char) :
    Follows (.directories :: rest) cs ↔
      IsOpen rest ∨ ∃ before after, cs = before ++ separator :: after ∧ Reads rest after := by
  induction cs with
  | nil => simp [Follows, IsOpen]
  | cons c cs ih =>
    rw [follows_directories_cons_iff, ih]
    constructor
    · rintro ((h | ⟨before, after, rfl, h⟩) | ⟨rfl, h⟩)
      · exact .inl h
      · exact .inr ⟨c :: before, after, rfl, h⟩
      · exact .inr ⟨[], cs, rfl, h⟩
    · rintro (h | ⟨before, after, he, h⟩)
      · exact .inl (.inl h)
      · cases before with
        | nil =>
          obtain ⟨rfl, rfl⟩ := List.cons.inj he
          exact .inr ⟨rfl, h⟩
        | cons d before =>
          obtain ⟨-, rfl⟩ := List.cons.inj he
          exact .inl (.inr ⟨before, after, rfl, h⟩)

theorem reads_iff_matches (parts : Glob) (cs : List Char) : Reads parts cs ↔ Matches parts cs := by
  -- Over the parts, since a leading run or `**` is read against every rest of the text.
  induction parts generalizing cs with
  | nil =>
    rw [matches_nil_iff]
    cases cs <;> simp [Reads, openings, Follows, afterChar, IsOpen]
  | cons part rest ih =>
    obtain hp | rfl | rfl := isSingle_or part
    · rw [matches_single_iff hp]
      cases cs with
      | nil =>
        rw [reads_nil_iff]
        simp [IsOpen, hp.1, hp.2]
      | cons c cs =>
        rw [reads_single_cons_iff hp, ih]
        constructor
        · rintro ⟨ht, hm⟩
          exact ⟨c, cs, rfl, ht, hm⟩
        · rintro ⟨d, left, he, ht, hm⟩
          obtain ⟨rfl, rfl⟩ := List.cons.inj he
          exact ⟨ht, hm⟩
    · induction cs with
      | nil =>
        rw [matches_run_nil_iff, ← ih, reads_nil_iff, reads_nil_iff]
        simp [IsOpen]
      | cons c cs ihcs =>
        rw [reads_run_iff, follows_run_cons_iff, ihcs, ih, matches_run_cons_iff, or_comm]
    · rw [reads_directories_iff, follows_directories_iff, matches_directories_iff, ← reads_nil_iff]
      simp only [ih]
      rw [or_comm]

/-- **The search finds exactly the texts that match.** -/
theorem accepts_iff_matches (pattern : Glob) (s : String) :
    pattern.accepts s = true ↔ pattern.Matches s.toList := by
  rw [accepts, acceptsFrom_iff]
  exact reads_iff_matches pattern s.toList

end Glob
end CertAuthority
