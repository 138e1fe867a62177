import CertAuthority.Net.Address
import CertAuthority.Proofs.Text.Basic

/-!
# Printed addresses

Every address is read back from its text, so two addresses have one text only if they are the same.

* `Address.IsValid` : four bytes, or eight groups of sixteen bits;
* `Address.group?_toDigits`, `Address.octet?_toDigits` : the parts of a text;
* `Address.splitGap?_joined` : a gap is found where it was left, and `Address.eq_of_longestRun` :
  it was left for zeros;
* `Address.parse?_print` : all of it;
* `Address.toBytes_of_ofBytes?` : the bytes of an address are those it was made of, and
  `Address.length_toBytes_of_parse?` : four or sixteen of them.
-/

namespace CertAuthority.Address

/-- Four bytes, or eight groups of sixteen bits. -/
def IsValid : Address → Prop
  | .v4 b => b.length = 4
  | .v6 gs => gs.length = 8 ∧ ∀ g ∈ gs, g < 65536

/-! ## Hex groups -/

theorem hexValue?_digitChar : ∀ n < 16, hexValue? (Nat.digitChar n) = some n := by decide

/-- The digits of a number are worth it, read from the front. -/
theorem exists_toDigits (n : Nat) : ∃ ds : List Nat, Nat.toDigits 16 n = ds.map Nat.digitChar ∧
    (∀ d ∈ ds, d < 16) ∧ ds.foldl (fun n d => n * 16 + d) 0 = n := by
  induction n using Nat.strongRecOn with
  | ind n ih =>
    by_cases hn : n < 16
    · exact ⟨[n], Nat.toDigits_of_lt_base hn, List.forall_mem_singleton.2 hn, Nat.zero_add n⟩
    · obtain ⟨ds, hds, hlt, hvalue⟩ := ih (n / 16) (by omega)
      have hmod : n % 16 < 16 := Nat.mod_lt n (by decide)
      refine ⟨ds ++ [n % 16], ?_, ?_, ?_⟩
      · have happend := Nat.toDigits_append_toDigits (b := 16) (by decide)
          (show 0 < n / 16 by omega) hmod
        rw [Nat.div_add_mod, Nat.toDigits_of_lt_base hmod, hds] at happend
        rw [← happend, List.map_append, List.map_singleton]
      · exact List.forall_mem_append.2 ⟨hlt, List.forall_mem_singleton.2 hmod⟩
      · rw [List.foldl_append, hvalue, List.foldl_cons, List.foldl_nil]
        omega

theorem mapM_hexValue?_map {ds : List Nat} (h : ∀ d ∈ ds, d < 16) :
    (ds.map Nat.digitChar).mapM hexValue? = some ds := by
  induction ds with
  | nil => rfl
  | cons d ds ih =>
    rw [List.forall_mem_cons] at h
    rw [List.map_cons, List.mapM_cons, hexValue?_digitChar d h.1, ih h.2]
    rfl

theorem group?_toDigits {n : Nat} (hn : n < 65536) : group? (Nat.toDigits 16 n) = some n := by
  obtain ⟨ds, hds, hlt, hvalue⟩ := exists_toDigits n
  have hlength : (Nat.toDigits 16 n).length ≤ 4 :=
    (Nat.length_toDigits_le_iff (by decide) (by decide)).2 hn
  have hne : (Nat.toDigits 16 n).isEmpty ≠ true :=
    fun h => Nat.toDigits_ne_nil (List.isEmpty_iff.1 h)
  rw [group?, if_neg (not_or.2 ⟨hne, by omega⟩), hds, mapM_hexValue?_map hlt]
  exact congrArg some hvalue

/-- What is no hex digit is not in the text of a group. -/
theorem not_mem_toDigits {c : Char} (hc : hexValue? c = none) (n : Nat) :
    c ∉ Nat.toDigits 16 n := by
  obtain ⟨ds, hds, hlt, -⟩ := exists_toDigits n
  rw [hds, List.mem_map]
  rintro ⟨d, hd, rfl⟩
  rw [hexValue?_digitChar d (hlt d hd)] at hc
  cases hc

/-! ## Dotted decimal -/

theorem octet?_toDigits : ∀ n < 256, octet? (Nat.toDigits 10 n) = some n := by decide +kernel

theorem dot_not_mem_toDigits : ∀ n < 256, '.' ∉ Nat.toDigits 10 n := by decide +kernel

theorem toList_printDotted (b : Bytes) :
    (printDotted b).toList = ['.'].intercalate (b.map fun x => Nat.toDigits 10 x.toNat) := by
  rw [printDotted, String.toList_intercalate, List.map_map]
  simp only [Function.comp_def, Nat.toString_eq_repr, Nat.toList_repr]
  rfl

theorem mapM_octet?_map (b : Bytes) :
    (b.map fun x => Nat.toDigits 10 x.toNat).mapM octet? = some (b.map (·.toNat)) := by
  induction b with
  | nil => rfl
  | cons x b ih =>
    rw [List.map_cons, List.mapM_cons, octet?_toDigits _ x.toNat_lt, ih]
    rfl

theorem dotted?_printDotted {b : Bytes} (hb : b.length = 4) :
    dotted? (printDotted b).toList = some (b.map (·.toNat)) := by
  have hsplit : Text.splitChars '.' (printDotted b).toList =
      b.map fun x => Nat.toDigits 10 x.toNat := by
    rw [toList_printDotted]
    refine Text.splitChars_intercalate ?_ ?_
    · intro hnil
      rw [List.map_eq_nil_iff.1 hnil] at hb
      cases hb
    · rintro p hp
      obtain ⟨x, -, rfl⟩ := List.mem_map.1 hp
      exact dot_not_mem_toDigits _ x.toNat_lt
  rw [dotted?, hsplit, mapM_octet?_map]
  exact if_pos (by rw [List.length_map, hb])

/-- No colon is read as dotted decimal. -/
theorem dotted?_eq_none {cs : List Char} (h : ':' ∈ cs) : dotted? cs = none := by
  obtain ⟨p, hp, hmem⟩ := @Text.exists_mem_splitChars '.' _ _ h (by decide)
  have hpiece : octet? p = none := by
    refine if_pos (.inr (.inr ?_))
    rw [Bool.not_eq_true', List.all_eq_false]
    exact ⟨':', hmem, by decide⟩
  rw [dotted?, Text.mapM_eq_none hp hpiece]
  rfl

/-! ## Groups and gaps -/

theorem groups?_map {gs : List Nat} (h : ∀ g ∈ gs, g < 65536) :
    groups? (gs.map (Nat.toDigits 16)) = some gs := by
  induction gs with
  | nil => rfl
  | cons g gs ih =>
    rw [List.forall_mem_cons] at h
    cases gs with
    | nil => simp only [List.map_cons, List.map_nil, groups?, group?_toDigits h.1]
    | cons g' gs =>
      have hrest := ih h.2
      rw [List.map_cons] at hrest
      rw [List.map_cons, List.map_cons, groups?, group?_toDigits h.1, hrest]
      · rfl
      · exact nofun

theorem plainGroups?_map {gs : List Nat} (h : ∀ g ∈ gs, g < 65536) :
    plainGroups? (gs.map (Nat.toDigits 16)) = some gs := by
  unfold plainGroups?
  induction gs with
  | nil => rfl
  | cons g gs ih =>
    rw [List.forall_mem_cons] at h
    rw [List.map_cons, List.mapM_cons, group?_toDigits h.1, ih h.2]
    rfl

/-- Groups with colons between them. -/
def joined (gs : List Nat) : List Char := [':'].intercalate (gs.map (Nat.toDigits 16))

theorem colon_not_mem_map {gs : List Nat} : ∀ p ∈ gs.map (Nat.toDigits 16), ':' ∉ p := by
  intro p hp
  obtain ⟨g, -, rfl⟩ := List.mem_map.1 hp
  exact not_mem_toDigits (by decide) g

theorem joined_singleton (g : Nat) : joined [g] = Nat.toDigits 16 g :=
  List.intercalate_singleton

theorem joined_cons_cons (g g' : Nat) (gs : List Nat) :
    joined (g :: g' :: gs) = Nat.toDigits 16 g ++ ':' :: joined (g' :: gs) := by
  rw [joined, List.map_cons, List.map_cons, List.intercalate_cons_cons, List.append_assoc]
  rfl

/-- No text of groups begins with a colon. -/
theorem exists_joined_cons (g : Nat) (gs : List Nat) :
    ∃ c cs, joined (g :: gs) = c :: cs ∧ c ≠ ':' := by
  obtain ⟨c, cs, hdigits⟩ := List.exists_cons_of_ne_nil (Nat.toDigits_ne_nil (n := g) (b := 16))
  have hc : c ≠ ':' := by
    rintro rfl
    exact not_mem_toDigits (by decide) g (hdigits ▸ List.mem_cons_self)
  cases gs with
  | nil => exact ⟨c, cs, by rw [joined_singleton, hdigits], hc⟩
  | cons g' gs => exact ⟨c, _, by rw [joined_cons_cons, hdigits]; rfl, hc⟩

theorem splitChars_joined (g : Nat) (gs : List Nat) :
    Text.splitChars ':' (joined (g :: gs)) = (g :: gs).map (Nat.toDigits 16) :=
  Text.splitChars_intercalate (List.cons_ne_nil _ _) colon_not_mem_map

theorem pieces_joined (gs : List Nat) : pieces (joined gs) = gs.map (Nat.toDigits 16) := by
  cases gs with
  | nil => rfl
  | cons g gs =>
    obtain ⟨c, cs, hcons, -⟩ := exists_joined_cons g gs
    rw [pieces, if_neg (by rw [hcons]; exact nofun), splitChars_joined]

theorem splitGap?_append {p : List Char} (hp : ':' ∉ p) (rest : List Char) :
    splitGap? (p ++ rest) = (splitGap? rest).map fun (a, b) => (p ++ a, b) := by
  induction p with
  | nil => cases h : splitGap? rest <;> simp [h]
  | cons c p ih =>
    rw [List.mem_cons, not_or] at hp
    rw [List.cons_append, splitGap?, ih hp.2, Option.map_map]
    · rfl
    · rintro _ rfl _
      exact hp.1 rfl

/-- A single colon is no gap. -/
theorem splitGap?_colon {c : Char} (hc : c ≠ ':') (rest : List Char) :
    splitGap? (':' :: c :: rest) =
      (splitGap? (c :: rest)).map fun (a, b) => (':' :: a, b) := by
  rw [splitGap?]
  rintro _ - heq
  exact hc (List.cons.inj heq).1

/-- A gap is found where it was left. -/
theorem splitGap?_joined (gs : List Nat) (rest : List Char) :
    splitGap? (joined gs ++ rest) = (splitGap? rest).map fun (a, b) => (joined gs ++ a, b) := by
  induction gs with
  | nil => cases h : splitGap? rest <;> simp [joined, h]
  | cons g gs ih =>
    have hdigits : ':' ∉ Nat.toDigits 16 g := not_mem_toDigits (by decide) g
    cases gs with
    | nil => rw [joined_singleton, splitGap?_append hdigits]
    | cons g' gs =>
      obtain ⟨c, cs, hcons, hc⟩ := exists_joined_cons g' gs
      rw [hcons] at ih
      rw [joined_cons_cons, List.append_assoc, List.cons_append, splitGap?_append hdigits, hcons,
        List.cons_append, splitGap?_colon hc, ← List.cons_append, ih, Option.map_map,
        Option.map_map]
      congr 1
      funext ⟨a, b⟩
      simp

/-! ## Runs of zeros -/

theorem eq_of_le_zeroRun {n : Nat} {gs : List Nat} (h : n ≤ zeroRun gs) :
    gs = List.replicate n 0 ++ gs.drop n := by
  induction n generalizing gs with
  | zero => rfl
  | succ n ih =>
    cases gs with
    | nil => cases h
    | cons g gs =>
      by_cases hg : g = 0
      · subst hg
        have hle : n ≤ zeroRun gs := Nat.le_of_succ_le_succ h
        rw [List.replicate_succ, List.cons_append, List.drop_succ_cons, ← ih hle]
      · have hzero : zeroRun (g :: gs) = 0 := by
          simp [zeroRun, hg]
        rw [hzero] at h
        cases h

/-- There are zeros as far as the run goes. -/
theorem le_zeroRun_longestRun (gs : List Nat) :
    (longestRun gs).2 ≤ zeroRun (gs.drop (longestRun gs).1) := by
  unfold longestRun
  generalize List.range gs.length = starts
  have hrun : ∀ found : Nat × Nat, found.2 ≤ zeroRun (gs.drop found.1) →
      let run := starts.foldl (fun run i =>
        let here := zeroRun (gs.drop i)
        if run.2 < here then (i, here) else run) found
      run.2 ≤ zeroRun (gs.drop run.1) := by
    induction starts with
    | nil => exact fun found h => h
    | cons i starts ih =>
      intro found h
      refine ih _ ?_
      dsimp only
      split
      · exact Nat.le_refl _
      · exact h
  exact hrun (0, 0) (Nat.zero_le _)

/-- The groups before the run, the run, and the groups after it. -/
theorem eq_of_longestRun {gs : List Nat} {start len : Nat} (h : longestRun gs = (start, len)) :
    gs = gs.take start ++ List.replicate len 0 ++ gs.drop (start + len) := by
  have hle := le_zeroRun_longestRun gs
  rw [h] at hle
  have hdrop := eq_of_le_zeroRun hle
  rw [List.drop_drop] at hdrop
  rw [List.append_assoc, ← hdrop, List.take_append_drop]

/-! ## Printing and reading -/

theorem toList_join (gs : List Nat) :
    (":".intercalate (gs.map hexText)).toList = joined gs := by
  rw [String.toList_intercalate, List.map_map, joined]
  simp only [Function.comp_def, hexText, String.toList_ofList]
  rfl

theorem parseV6?_joined {gs : List Nat} (hlength : gs.length = 8) (hgs : ∀ g ∈ gs, g < 65536) :
    parseV6? (joined gs) = some gs := by
  have hgap : splitGap? (joined gs) = none := by
    rw [← List.append_nil (joined gs), splitGap?_joined]
    rfl
  have hsplit : Text.splitChars ':' (joined gs) = gs.map (Nat.toDigits 16) := by
    cases gs with
    | nil => cases hlength
    | cons g gs => exact splitChars_joined g gs
  simp only [parseV6?, hgap, hsplit, groups?_map hgs, Option.bind_eq_bind, Option.bind_some,
    if_pos hlength]

/-- Groups that are left out are zeros. -/
theorem parseV6?_gap {front back : List Nat} {len : Nat} (hlen : 1 < len)
    (hlength : front.length + len + back.length = 8)
    (hfront : ∀ g ∈ front, g < 65536) (hback : ∀ g ∈ back, g < 65536) :
    parseV6? (joined front ++ ':' :: ':' :: joined back) =
      some (front ++ List.replicate len 0 ++ back) := by
  have hgap : splitGap? (joined front ++ ':' :: ':' :: joined back) =
      some (joined front, joined back) := by
    simp [splitGap?_joined, splitGap?]
  have hle : front.length + back.length ≤ 7 := by omega
  have hzeros : 8 - front.length - back.length = len := by omega
  simp only [parseV6?, hgap, pieces_joined, plainGroups?_map hfront, groups?_map hback,
    Option.bind_eq_bind, Option.bind_some, if_pos hle, hzeros]

/-- The bytes of groups. -/
def groupBytes (gs : List Nat) : Bytes :=
  gs.flatMap fun g => [UInt8.ofNat (g / 256), UInt8.ofNat (g % 256)]

theorem colon_not_mem_printDotted {b : Bytes} (hb : b.length = 4) :
    ':' ∉ (printDotted b).toList := by
  intro hmem
  have hread := dotted?_printDotted hb
  rw [dotted?_eq_none hmem] at hread
  cases hread

theorem dot_mem_printDotted {b : Bytes} (hb : b.length = 4) : '.' ∈ (printDotted b).toList := by
  match b, hb with
  | w :: x :: b, _ =>
    rw [toList_printDotted, List.map_cons, List.map_cons, List.intercalate_cons_cons]
    exact List.mem_append_left _ (List.mem_append_right _ List.mem_cons_self)

/-- The text of four bytes is no group. -/
theorem group?_printDotted {b : Bytes} (hb : b.length = 4) :
    group? (printDotted b).toList = none := by
  unfold group?
  split
  · rfl
  · rw [Text.mapM_eq_none (dot_mem_printDotted hb) (by decide)]
    rfl

/-- The last two groups may be written as four bytes. -/
theorem parseV6?_embedded {g h : Nat} (hg : g < 65536) (hh : h < 65536) :
    parseV6? ("::ffff:".toList ++ (printDotted (groupBytes [g, h])).toList) =
      some [0, 0, 0, 0, 0, 0xffff, g, h] := by
  have hfour : (groupBytes [g, h]).length = 4 := rfl
  have hsplit : pieces ("ffff".toList ++ ':' :: (printDotted (groupBytes [g, h])).toList) =
      ["ffff".toList, (printDotted (groupBytes [g, h])).toList] := by
    rw [pieces, if_neg (by exact nofun), Text.splitChars_append_cons (by decide),
      Text.splitChars_of_not_mem (colon_not_mem_printDotted hfour)]
  have hdotted : dotted? (printDotted (groupBytes [g, h])).toList =
      some [g / 256, g % 256, h / 256, h % 256] := by
    rw [dotted?_printDotted hfour]
    simp only [groupBytes, List.flatMap_cons, List.flatMap_nil, List.cons_append, List.nil_append,
      List.map_cons, List.map_nil, UInt8.toNat_ofNat', Nat.mod_mod,
      Nat.mod_eq_of_lt (show g / 256 < 2 ^ 8 by omega),
      Nat.mod_eq_of_lt (show h / 256 < 2 ^ 8 by omega)]
  have hback : groups? ["ffff".toList, (printDotted (groupBytes [g, h])).toList] =
      some [0xffff, g, h] := by
    have hffff : group? "ffff".toList = some 0xffff := by decide
    have hplain : group? (printDotted (groupBytes [g, h])).toList = none :=
      group?_printDotted hfour
    have hlast : groups? [(printDotted (groupBytes [g, h])).toList] = some [g, h] := by
      simp only [groups?, hplain, hdotted, Nat.div_add_mod']
    rw [groups?, hffff, hlast]
    · rfl
    · exact nofun
  have hgap : splitGap? ("::ffff:".toList ++ (printDotted (groupBytes [g, h])).toList) =
      some ([], "ffff".toList ++ ':' :: (printDotted (groupBytes [g, h])).toList) := rfl
  simp only [parseV6?, hgap, hsplit, hback]
  rfl

theorem parseV6?_printV6 {gs : List Nat} (hlength : gs.length = 8) (hgs : ∀ g ∈ gs, g < 65536) :
    parseV6? (printV6 gs).toList = some gs := by
  unfold printV6
  split
  · rename_i hembedded
    match gs, hlength with
    | [a, b, c, d, e, f, g, h], _ =>
      obtain ⟨hzeros, hmark⟩ := hembedded
      cases hzeros
      cases hmark
      rw [String.toList_append]
      exact parseV6?_embedded (hgs g (by simp)) (hgs h (by simp))
  · cases hrun : longestRun gs with
    | mk start len =>
      dsimp only
      split
      · rename_i hlen
        have hsplit := eq_of_longestRun hrun
        have htotal := congrArg List.length hsplit
        simp only [List.length_append, List.length_replicate, hlength] at htotal
        rw [String.toList_append, String.toList_append, toList_join, toList_join, List.append_assoc]
        exact (parseV6?_gap hlen htotal.symm (fun g hg => hgs g (List.mem_of_mem_take hg))
          fun g hg => hgs g (List.mem_of_mem_drop hg)).trans (congrArg some hsplit.symm)
      · rw [toList_join, parseV6?_joined hlength hgs]

theorem colon_mem_printV6 {gs : List Nat} (hlength : gs.length = 8) :
    ':' ∈ (printV6 gs).toList := by
  unfold printV6
  split
  · rw [String.toList_append]
    exact List.mem_append_left _ (by decide)
  · dsimp only
    split
    · rw [String.toList_append, String.toList_append]
      exact List.mem_append_left _ (List.mem_append_right _ (by decide))
    · rw [toList_join]
      match gs, hlength with
      | g :: g' :: gs, _ =>
        rw [joined_cons_cons]
        exact List.mem_append_right _ List.mem_cons_self

/-- Something stands between the parts of an address. -/
theorem exists_mem_print {a : Address} (ha : a.IsValid) :
    ∃ c ∈ a.print.toList, c = '.' ∨ c = ':' := by
  cases a with
  | v4 b => exact ⟨'.', dot_mem_printDotted ha, .inl rfl⟩
  | v6 gs => exact ⟨':', colon_mem_printV6 ha.1, .inr rfl⟩

/-- An address is read back from its text. -/
theorem parse?_print {a : Address} (ha : a.IsValid) : parse? a.print = some a := by
  cases a with
  | v4 b =>
    rw [print, parse?, dotted?_printDotted ha]
    simp only [List.map_map, Function.comp_def, UInt8.ofNat_toNat, List.map_id']
  | v6 gs =>
    obtain ⟨hlength, hgs⟩ := ha
    rw [print, parse?, dotted?_eq_none (colon_mem_printV6 hlength), parseV6?_printV6 hlength hgs]
    rfl

/-! ## Bytes -/

theorem length_pairGroups (b : Bytes) : (pairGroups b).length = b.length / 2 := by
  fun_induction pairGroups b with
  | case1 x y rest ih =>
    simp only [List.length_cons, ih]
    omega
  | case2 b hb =>
    match b with
    | [] => rfl
    | [_] => simp
    | x :: y :: rest => exact absurd rfl (hb x y rest)

theorem lt_of_mem_pairGroups (b : Bytes) : ∀ g ∈ pairGroups b, g < 65536 := by
  fun_induction pairGroups b with
  | case1 x y rest ih =>
    have hx := x.toNat_lt
    have hy := y.toNat_lt
    exact List.forall_mem_cons.2 ⟨by omega, ih⟩
  | case2 => exact nofun

theorem groupBytes_pairGroups {b : Bytes} (h : b.length % 2 = 0) :
    groupBytes (pairGroups b) = b := by
  fun_induction pairGroups b with
  | case1 x y rest ih =>
    have hx := x.toNat_lt
    have hy := y.toNat_lt
    have hrest : rest.length % 2 = 0 := by
      simp only [List.length_cons] at h
      omega
    have hhigh : (x.toNat * 256 + y.toNat) / 256 = x.toNat := by omega
    have hlow : (x.toNat * 256 + y.toNat) % 256 = y.toNat := by omega
    have hpairs := ih hrest
    rw [groupBytes] at hpairs ⊢
    rw [List.flatMap_cons, hpairs, hhigh, hlow, UInt8.ofNat_toNat, UInt8.ofNat_toNat]
    rfl
  | case2 b hb =>
    match b with
    | [] => rfl
    | [_] => cases h
    | x :: y :: rest => exact absurd rfl (hb x y rest)

theorem isValid_of_ofBytes? {b : Bytes} {a : Address} (h : ofBytes? b = some a) : a.IsValid := by
  unfold ofBytes? at h
  split at h
  · rename_i hfour
    exact Option.some.inj h ▸ hfour
  · split at h
    · rename_i hsixteen
      refine Option.some.inj h ▸ ⟨?_, lt_of_mem_pairGroups b⟩
      rw [length_pairGroups, hsixteen]
    · cases h

/-- The bytes of an address are those it was made of. -/
theorem toBytes_of_ofBytes? {b : Bytes} {a : Address} (h : ofBytes? b = some a) :
    a.toBytes = b := by
  unfold ofBytes? at h
  split at h
  · exact Option.some.inj h ▸ rfl
  · split at h
    · rename_i hsixteen
      exact Option.some.inj h ▸ groupBytes_pairGroups (by rw [hsixteen])
    · cases h

theorem isSome_ofBytes?_iff {b : Bytes} :
    (ofBytes? b).isSome = true ↔ b.length = 4 ∨ b.length = 16 := by
  unfold ofBytes?
  split
  · rename_i hfour
    exact iff_of_true rfl (.inl hfour)
  · rename_i hfour
    rw [or_iff_right hfour]
    split
    · rename_i hsixteen
      exact iff_of_true rfl hsixteen
    · rename_i hsixteen
      exact iff_of_false nofun hsixteen

theorem length_of_parseV6? {cs : List Char} {gs : List Nat} (h : parseV6? cs = some gs) :
    gs.length = 8 := by
  unfold parseV6? at h
  split at h
  · obtain ⟨found, -, h⟩ := Option.bind_eq_some_iff.1 h
    split at h
    · rename_i hlength
      exact Option.some.inj h ▸ hlength
    · cases h
  · obtain ⟨front, -, h⟩ := Option.bind_eq_some_iff.1 h
    obtain ⟨back, -, h⟩ := Option.bind_eq_some_iff.1 h
    split at h
    · rw [← Option.some.inj h]
      simp only [List.length_append, List.length_replicate]
      omega
    · cases h

/-- What is read has four bytes or sixteen. -/
theorem length_toBytes_of_parse? {s : String} {a : Address} (h : parse? s = some a) :
    a.toBytes.length = 4 ∨ a.toBytes.length = 16 := by
  unfold parse? at h
  split at h
  · rename_i octets hoctets
    obtain ⟨found, -, hfound⟩ := Option.bind_eq_some_iff.1 hoctets
    split at hfound
    · rename_i hlength
      rw [← Option.some.inj h, ← Option.some.inj hfound]
      exact .inl ((List.length_map _).trans hlength)
    · cases hfound
  · obtain ⟨gs, hgs, rfl⟩ := Option.map_eq_some_iff.1 h
    have hlength := length_of_parseV6? hgs
    refine .inr ?_
    simp only [toBytes, List.length_flatMap, List.length_cons, List.length_nil, List.map_const',
      hlength]
    rfl

end CertAuthority.Address
