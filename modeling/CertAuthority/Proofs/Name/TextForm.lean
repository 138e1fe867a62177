import CertAuthority.Proofs.Name.Values
import CertAuthority.Proofs.Text.Basic
import Mathlib.Data.List.Flatten

/-!
# Names as text

A name is written with its commas escaped, and read with a backslash taking the next character
literally. Backslashes of a value are written as they are, so a name that has any is not read back.

* `DistinguishedName.splitUnescaped_intercalate` : pieces without backslashes are found again;
* `DistinguishedName.parse_display` : what is read of a name that has none;
* `DistinguishedName.count_le_of_parse` : a comma in what is read took one backslash in the text, and
  a backslash two, while `DistinguishedName.count_display` says how many there are;
* `DistinguishedName.parse_display_eq_iff` : the names that are read back.
-/

namespace CertAuthority

namespace DistinguishedName

variable {cs v p : List Char} {c : Char} {ps pieces : List (List Char)} {dn : DistinguishedName}
  {pairs : List (NameAttribute × String)} {s : String}

/-! ## Pieces -/

theorem splitUnescaped_ne_nil (cs : List Char) : splitUnescaped cs ≠ [] := by
  fun_cases splitUnescaped cs <;> simp_all

theorem splitUnescaped_escaped (h : splitUnescaped cs = p :: ps) :
    splitUnescaped ('\\' :: c :: cs) = (c :: p) :: ps := by
  rw [splitUnescaped, h]

theorem splitUnescaped_cons (hc : c ≠ '\\') (hc' : c ≠ ',') (h : splitUnescaped cs = p :: ps) :
    splitUnescaped (c :: cs) = (c :: p) :: ps := by
  rw [splitUnescaped, h] <;> simp_all

/-- An escaped value becomes the beginning of a piece. -/
theorem splitUnescaped_escapeValue_append (hv : '\\' ∉ v) (h : splitUnescaped cs = p :: ps) :
    splitUnescaped (escapeValue v ++ cs) = (v ++ p) :: ps := by
  induction v with
  | nil => exact h
  | cons c v ih =>
    rw [List.mem_cons, not_or] at hv
    have hrest := ih hv.2
    by_cases hc : c = ','
    · subst hc
      exact splitUnescaped_escaped hrest
    · have hescape : escapeValue (c :: v) = c :: escapeValue v := by simp [escapeValue, hc]
      rw [hescape]
      exact splitUnescaped_cons (Ne.symm hv.1) hc hrest

/-- Pieces without backslashes are found again in the text that they were joined to. -/
theorem splitUnescaped_intercalate (hne : pieces ≠ []) (h : ∀ p ∈ pieces, '\\' ∉ p) :
    splitUnescaped ([','].intercalate (pieces.map escapeValue)) = pieces := by
  induction pieces with
  | nil => exact absurd rfl hne
  | cons p pieces ih =>
    rw [List.forall_mem_cons] at h
    cases pieces with
    | nil =>
      have hend := splitUnescaped_escapeValue_append h.1 (show splitUnescaped [] = [[]] from rfl)
      rw [List.append_nil, List.append_nil] at hend
      rw [List.map_cons, List.map_nil, List.intercalate_singleton, hend]
    | cons q pieces =>
      rw [List.map_cons, List.map_cons, List.intercalate_cons_cons, ← List.map_cons,
        List.append_assoc]
      have hrest : splitUnescaped ([','] ++ [','].intercalate ((q :: pieces).map escapeValue)) =
          [] :: q :: pieces := by
        rw [List.singleton_append, splitUnescaped, ih (List.cons_ne_nil _ _) h.2]
      rw [splitUnescaped_escapeValue_append h.1 hrest, List.append_nil]

/-! ## Attributes -/

theorem isUpper_of_mem_shortName (a : NameAttribute) :
    ∀ c ∈ a.shortName.toList, 'A' ≤ c ∧ c ≤ 'Z' := by
  have hall : a.shortName.toList.all (fun c => 'A' ≤ c ∧ c ≤ 'Z') = true := by
    cases a <;> decide
  exact fun c hc => of_decide_eq_true (List.all_eq_true.1 hall c hc)

theorem ofShortName?_shortName (a : NameAttribute) :
    NameAttribute.ofShortName? a.shortName = some a := by
  cases a <;> decide

/-- A pair as it stands in a piece. -/
def pairChars (p : NameAttribute × String) : List Char :=
  p.1.shortName.toList ++ '=' :: p.2.toList

theorem escapeValue_of_notMem (h : ',' ∉ cs) : escapeValue cs = cs := by
  induction cs with
  | nil => rfl
  | cons c cs ih =>
    rw [List.mem_cons, not_or] at h
    rw [escapeValue, List.flatMap_cons, if_neg (Ne.symm h.1), ← escapeValue, ih h.2]
    rfl

theorem toList_displayPair (p : NameAttribute × String) :
    (displayPair p).toList = escapeValue (pairChars p) := by
  have hname : escapeValue p.1.shortName.toList = p.1.shortName.toList :=
    escapeValue_of_notMem fun h => absurd (isUpper_of_mem_shortName p.1 _ h) (by decide)
  rw [pairChars, escapeValue, List.flatMap_append, ← escapeValue, hname, List.flatMap_cons,
    ← escapeValue]
  simp [displayPair]

theorem toList_display (dn : DistinguishedName) :
    dn.display.toList = [','].intercalate ((dn.entries.map pairChars).map escapeValue) := by
  rw [display, String.toList_intercalate, List.map_map, List.map_map]
  exact congrArg _ (List.map_congr_left fun p _ => toList_displayPair p)

theorem parsePair_pairChars (p : NameAttribute × String) :
    parsePair (String.ofList (pairChars p)) = .ok (p.1, Text.trim p.2) := by
  have hname : '=' ∉ p.1.shortName.toList :=
    fun h => absurd (isUpper_of_mem_shortName p.1 _ h) (by decide)
  have hsplit : Text.splitOnce? '=' (String.ofList (pairChars p)) =
      some (p.1.shortName, p.2) := by
    rw [Text.splitOnce?, String.toList_ofList, pairChars, Text.splitOnceChars?_append hname]
    simp only [Option.map_some, String.ofList_toList]
  rw [parsePair, hsplit]
  simp only [ofShortName?_shortName]

/-- A piece with an attribute is not blank. -/
theorem trimChars_pairChars_ne_nil (p : NameAttribute × String) :
    Text.trimChars (pairChars p) ≠ [] := by
  have hfirst : ∃ c cs, p.1.shortName.toList = c :: cs ∧ Text.isBlank c = false := by
    cases p.1 <;> exact ⟨_, _, rfl, by decide⟩
  obtain ⟨c, cs, hname, hc⟩ := hfirst
  rw [pairChars, hname, List.cons_append, Text.trimChars_cons hc]
  exact List.cons_ne_nil _ _

/-! ## Reading -/

theorem parse_eq_ok_iff :
    parse s = .ok dn ↔ ∃ pairs, (((splitUnescaped s.toList).filter fun p =>
      !(Text.trimChars p).isEmpty).map String.ofList).mapM parsePair = .ok pairs ∧
        ofPairs pairs = dn :=
  Outcome.map_eq_ok_iff

theorem mapM_parsePair_pairChars (pairs : List (NameAttribute × String)) :
    ((pairs.map pairChars).map String.ofList).mapM parsePair =
      .ok (pairs.map fun p => (p.1, Text.trim p.2)) := by
  induction pairs with
  | nil => rfl
  | cons p pairs ih =>
    rw [List.map_cons, List.map_cons, List.mapM_cons, parsePair_pairChars, ih]
    rfl

/-- A name without backslashes is read back, but for blanks around its values and for attributes that
stand twice. -/
theorem parse_display (h : ∀ p ∈ dn.entries, '\\' ∉ p.2.toList) :
    parse dn.display = .ok (ofPairs (dn.entries.map fun p => (p.1, Text.trim p.2))) := by
  rw [parse_eq_ok_iff]
  refine ⟨_, ?_, rfl⟩
  have hblank : (dn.entries.map pairChars).filter (fun p => !(Text.trimChars p).isEmpty) =
      dn.entries.map pairChars := by
    rw [List.filter_eq_self, List.forall_mem_map]
    exact fun p _ => by simpa using trimChars_pairChars_ne_nil p
  have hplain : ∀ cs ∈ dn.entries.map pairChars, '\\' ∉ cs := by
    rw [List.forall_mem_map]
    intro p hp hmem
    rcases List.mem_append.1 hmem with hname | hvalue
    · exact absurd (isUpper_of_mem_shortName p.1 _ hname) (by decide)
    · rcases List.mem_cons.1 hvalue with heq | hvalue
      · cases heq
      · exact h p hp hvalue
  rw [toList_display, ← mapM_parsePair_pairChars]
  by_cases hentries : dn.entries = []
  · rw [hentries]
    rfl
  · rw [splitUnescaped_intercalate (by simpa using hentries) hplain, hblank]

/-! ## Backslashes -/

/-- All that stands in values. -/
def valueChars (pairs : List (NameAttribute × String)) : List Char :=
  pairs.flatMap (·.2.toList)

/-- A backslash is used up for each comma in a piece, and two for each backslash. -/
theorem count_splitUnescaped_le (cs : List Char) :
    (splitUnescaped cs).flatten.count ',' + 2 * (splitUnescaped cs).flatten.count '\\' ≤
      cs.count '\\' := by
  fun_induction splitUnescaped cs with
  | case1 => exact Nat.le_refl 0
  | case2 => exact Nat.zero_le 1
  | case3 c cs h => exact absurd h (splitUnescaped_ne_nil cs)
  | case4 c cs p ps h ih =>
    rw [h] at ih
    have hliteral : (if c == ',' then 1 else 0) + 2 * (if c == '\\' then 1 else 0) ≤
        1 + (if c == '\\' then 1 else 0) := by
      by_cases hc : c = ','
      · rw [hc]
        decide
      · rw [if_neg (by simpa using hc)]
        split <;> omega
    simp only [List.flatten_cons, List.cons_append, List.count_cons, beq_self_eq_true, if_true]
      at ih ⊢
    omega
  | case5 cs ih => simpa using ih
  | case6 c cs h h' h'' hnil => exact absurd hnil (splitUnescaped_ne_nil cs)
  | case7 c cs hc hc' hsplit p ps h ih =>
    rw [h] at ih
    have hne : c ≠ '\\' := by
      rintro rfl
      cases cs with
      | nil => exact hc rfl rfl
      | cons d ds => exact hc' d ds rfl rfl
    rw [List.flatten_cons, List.cons_append, List.count_cons_of_ne hsplit, List.count_cons_of_ne hne,
      List.count_cons_of_ne hne]
    exact ih

theorem sublist_of_parsePair {rdn : String} {a : NameAttribute} {value : String}
    (h : parsePair rdn = .ok (a, value)) : value.toList.Sublist rdn.toList := by
  unfold parsePair at h
  split at h
  · cases h
  · rename_i attr written hsplit
    split at h
    · cases h
    · obtain ⟨rfl, rfl⟩ := Prod.mk.inj (Except.ok.inj h)
      obtain ⟨⟨before, after⟩, hparts, heq⟩ := Option.map_eq_some_iff.1 hsplit
      obtain ⟨rfl, rfl⟩ := Prod.mk.inj heq
      rw [Text.trim, String.toList_ofList, String.toList_ofList, Text.of_splitOnceChars? hparts]
      exact (Text.trimChars_sublist after).trans
        ((List.sublist_cons_self '=' after).trans (List.sublist_append_right _ _))

/-- The values that are read stand in their pieces. -/
theorem valueChars_sublist_of_mapM {rdns : List String} (h : rdns.mapM parsePair = .ok pairs) :
    (valueChars pairs).Sublist (rdns.flatMap String.toList) := by
  induction rdns generalizing pairs with
  | nil =>
    obtain rfl := Except.ok.inj h
    exact .slnil
  | cons rdn rdns ih =>
    simp only [List.mapM_cons, Outcome.bind_eq_ok_iff] at h
    obtain ⟨p, hp, rest, hrest, h⟩ := h
    obtain rfl := Except.ok.inj h
    exact (sublist_of_parsePair hp).append (ih hrest)

theorem count_valueChars_put_le (a : NameAttribute) (value : String)
    (out : List (NameAttribute × String)) (c : Char) :
    (valueChars (put a value out)).count c ≤
      value.toList.count c + (valueChars out).count c := by
  induction out with
  | nil => simp [put, valueChars]
  | cons p out ih =>
    rw [put]
    split
    · simp only [valueChars, List.flatMap_cons, List.count_append]
      omega
    · simp only [valueChars, List.flatMap_cons, List.count_append] at ih ⊢
      omega

/-- Values that are replaced are lost. -/
theorem count_valueChars_ofPairs_le (pairs : List (NameAttribute × String)) (c : Char) :
    (valueChars (ofPairs pairs).entries).count c ≤ (valueChars pairs).count c := by
  have hfold (pairs out : List (NameAttribute × String)) :
      (valueChars (pairs.foldl (fun out p => put p.1 p.2 out) out)).count c ≤
        (valueChars out).count c + (valueChars pairs).count c := by
    induction pairs generalizing out with
    | nil => exact Nat.le_add_right _ _
    | cons p pairs ih =>
      have hput := count_valueChars_put_le p.1 p.2 out c
      have hrest := ih (put p.1 p.2 out)
      simp only [valueChars, List.foldl_cons, List.flatMap_cons, List.count_append] at hput hrest ⊢
      omega
  rw [ofPairs, entries_pushAll]
  exact Nat.le_trans (hfold pairs []) (Nat.le_of_eq (Nat.zero_add _))

/-- What is read from a text took its backslashes. -/
theorem count_le_of_parse (h : parse s = .ok dn) :
    (valueChars dn.entries).count ',' + 2 * (valueChars dn.entries).count '\\' ≤
      s.toList.count '\\' := by
  obtain ⟨pairs, hpairs, rfl⟩ := parse_eq_ok_iff.1 h
  have hpieces : (valueChars pairs).Sublist (splitUnescaped s.toList).flatten := by
    have hread := valueChars_sublist_of_mapM hpairs
    rw [List.flatMap_map] at hread
    simp only [String.toList_ofList, List.flatMap_id'] at hread
    exact hread.trans List.filter_sublist.flatten
  have htext := count_splitUnescaped_le s.toList
  have hcomma := (count_valueChars_ofPairs_le pairs ',').trans (hpieces.count_le ',')
  have hbackslash := (count_valueChars_ofPairs_le pairs '\\').trans (hpieces.count_le '\\')
  omega

theorem count_escapeValue (cs : List Char) :
    (escapeValue cs).count '\\' = cs.count ',' + cs.count '\\' := by
  induction cs with
  | nil => rfl
  | cons c cs ih =>
    rw [escapeValue, List.flatMap_cons, ← escapeValue, List.count_append, ih]
    by_cases hc : c = ','
    · subst hc
      simp
      omega
    · simp [hc, List.count_cons]
      omega

/-- Names of attributes have neither commas nor backslashes. -/
theorem count_pairChars (p : NameAttribute × String) (hc : c ≠ '=') (hupper : ¬('A' ≤ c ∧ c ≤ 'Z')) :
    (pairChars p).count c = p.2.toList.count c := by
  have hname : p.1.shortName.toList.count c = 0 :=
    List.count_eq_zero.2 fun h => hupper (isUpper_of_mem_shortName p.1 c h)
  rw [pairChars, List.count_append, hname, List.count_cons_of_ne hc.symm, Nat.zero_add]

theorem count_intercalate {sep : Char} (h : sep ≠ c) (pieces : List (List Char)) :
    ([sep].intercalate pieces).count c = pieces.flatten.count c := by
  induction pieces with
  | nil => rfl
  | cons p pieces ih =>
    cases pieces with
    | nil => rw [List.intercalate_singleton, List.flatten_singleton]
    | cons q pieces =>
      rw [List.intercalate_cons_cons, List.append_assoc, List.singleton_append, List.count_append,
        List.count_cons_of_ne h, ih, ← List.count_append]
      rfl

/-- Each backslash is written as it is, and one before each comma. -/
theorem count_display (dn : DistinguishedName) :
    dn.display.toList.count '\\' =
      (valueChars dn.entries).count ',' + (valueChars dn.entries).count '\\' := by
  rw [toList_display, count_intercalate (by decide)]
  induction dn.entries with
  | nil => rfl
  | cons p entries ih =>
    rw [List.map_cons, List.map_cons, List.flatten_cons, List.count_append, ih, count_escapeValue,
      count_pairChars p (by decide) (by decide), count_pairChars p (by decide) (by decide)]
    simp only [valueChars, List.flatMap_cons, List.count_append]
    omega

/-- A name that is read back has no backslashes. -/
theorem notMem_of_parse_display (h : parse dn.display = .ok dn) :
    ∀ p ∈ dn.entries, '\\' ∉ p.2.toList := by
  have hread := count_le_of_parse h
  rw [count_display] at hread
  have hnone : (valueChars dn.entries).count '\\' = 0 := by omega
  intro p hp hmem
  exact List.count_eq_zero.1 hnone (List.mem_flatMap.2 ⟨p, hp, hmem⟩)

/-! ## Names that are read back -/

/-- **A name is read back from its text, with its attributes in their order, exactly if no attribute
stands twice and no value has blanks at its ends or a backslash.** -/
theorem parse_display_eq_iff (dn : DistinguishedName) :
    parse dn.display = .ok dn ↔
      dn.IsUnique ∧ ∀ p ∈ dn.entries, Text.trim p.2 = p.2 ∧ '\\' ∉ p.2.toList := by
  constructor
  · intro h
    have hplain := notMem_of_parse_display h
    have hread := Except.ok.inj ((parse_display hplain).symm.trans h)
    refine ⟨hread ▸ isUnique_ofPairs _, fun p hp => ⟨?_, hplain p hp⟩⟩
    rw [← hread] at hp
    obtain ⟨q, -, rfl⟩ := List.mem_map.1 (mem_of_mem_ofPairs hp)
    exact Text.trim_trim q.2
  · rintro ⟨hunique, hvalues⟩
    have htrimmed : (dn.entries.map fun p => (p.1, Text.trim p.2)) = dn.entries := by
      refine (List.map_congr_left fun p hp => ?_).trans (List.map_id _)
      rw [(hvalues p hp).1]
      rfl
    rw [parse_display fun p hp => (hvalues p hp).2, htrimmed, ofPairs_entries hunique]

/-- A common name with a backslash before a comma. -/
def slashedName : DistinguishedName := ⟨[(.cn, "x\\,O=y")]⟩

/-- Its comma is taken for the end of the value, and what follows for another attribute. -/
theorem slashedName_misread :
    slashedName.IsUnique ∧ (∀ p ∈ slashedName.entries, Text.trim p.2 = p.2) ∧
      slashedName.display = "CN=x\\\\,O=y" ∧
      parse slashedName.display = .ok ⟨[(.cn, "x\\"), (.o, "y")]⟩ ∧
      parse slashedName.display ≠ .ok slashedName := by
  refine ⟨isUnique_ofPairs [(.cn, "x\\,O=y")], by decide, by decide, by decide, by decide⟩

end DistinguishedName
end CertAuthority
