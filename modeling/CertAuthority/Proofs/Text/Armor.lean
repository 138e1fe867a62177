import CertAuthority.Proofs.Bytes.Base64
import CertAuthority.Proofs.Bytes.Numbers
import CertAuthority.Proofs.OpenSsh.Keys
import CertAuthority.Text.Armor

/-!
# Reading armored blocks back

A block is found by its marks, which begin with a dash. Neither a label nor base64 text has one, so
each mark is found where it was written.

* `Bytes.splitAtInfix?_append` : a mark is found behind text without its first byte;
* `Armor.textLines_pieces` : lines that were put together are taken apart again;
* `Armor.frame?_encode` : the frame of a written block, and what follows the block;
* `Armor.first?_encode`, `Armor.all?_encodeAll` : one block, and blocks one after another;
* `StrictArmor.decode?_encode` : the content of a strict block is read back, if there is any. Its
  lines are joined again (`StrictArmor.joined?_intercalate`), since all but the last are full.
-/

namespace CertAuthority

/-! ## Marks -/

namespace Bytes

variable {x : UInt8} {mark before rest : Bytes}

theorem dropPrefix?_append (mark rest : Bytes) : dropPrefix? mark (mark ++ rest) = some rest := by
  induction mark with
  | nil => rfl
  | cons x xs ih => simpa [dropPrefix?] using ih

theorem splitAtInfix?_append (hmark : mark.head? = some x) (h : x ∉ before) (rest : Bytes) :
    splitAtInfix? mark (before ++ (mark ++ rest)) = some (before, rest) := by
  obtain ⟨xs, rfl⟩ := List.head?_eq_some_iff.1 hmark
  induction before with
  | nil =>
    have hfound : dropPrefix? (x :: xs) (x :: (xs ++ rest)) = some rest :=
      dropPrefix?_append (x :: xs) rest
    simp only [List.nil_append, List.cons_append, splitAtInfix?, hfound]
  | cons y before ih =>
    rw [List.mem_cons, not_or] at h
    simp only [List.cons_append, splitAtInfix?, dropPrefix?, if_neg h.1] at ih ⊢
    rw [ih h.2]
    rfl

theorem splitAtInfix?_eq_none (h : x ∉ before) : splitAtInfix? (x :: mark) before = none := by
  induction before with
  | nil => rfl
  | cons y before ih =>
    rw [List.mem_cons, not_or] at h
    simp only [splitAtInfix?, dropPrefix?, if_neg h.1, ih h.2, Option.map_none]

/-- Bytes below 128 are a text of as many characters. -/
theorem text?_of_ascii {b : Bytes} (h : ∀ x ∈ b, x.toNat < 128) :
    text? b = some (String.ofList (b.map fun x => Char.ofNat x.toNat)) := by
  rw [← text?_ofText, ofText_map_ofNat h]

end Bytes

/-! ## Lines -/

namespace Armor

/-- Lines that were put together are taken apart again, if no carriage return is among them. -/
theorem textLines_pieces {pieces : List (List Char)} (h : ∀ p ∈ pieces, '\n' ∉ p ∧ '\r' ∉ p) :
    textLines (String.ofList (pieces.flatMap (· ++ ['\n']))) = pieces.map String.ofList := by
  have hkept (p : List Char) (hp : '\r' ∉ p) : (String.ofList p).endsWith "\r" = false := by
    rw [String.endsWith_eq_endsWith_toSlice, String.Slice.endsWith_string_eq_false_iff]
    intro hsuffix
    exact hp (by simpa using hsuffix.subset)
  have hsplit : Text.splitOnChar '\n' (String.ofList (pieces.flatMap (· ++ ['\n']))) =
      pieces.map String.ofList ++ [""] := by
    rw [Text.splitOnChar, String.toList_ofList, Text.splitChars_flatMap fun p hp => (h p hp).1,
      List.map_append]
    rfl
  rw [textLines, hsplit]
  simp only [List.getLast?_concat, if_true, List.dropLast_concat, List.map_map]
  refine List.map_congr_left fun p hp => ?_
  simp only [Function.comp_apply, hkept p (h p hp).2]
  rfl

/-! ## Written blocks -/

/-- A text without dashes, such as every label in use. -/
def IsLabel (label : String) : Prop := label ≠ "" ∧ (45 : UInt8) ∉ Bytes.ofText label

variable {label : String} {content : Bytes}

/-- The bytes between the marks of a block. -/
def body (content : Bytes) : Bytes := lines 64 (Base64.encodeBytes content)

theorem mem_encodeBytes_of_mem_chunks {n : Nat} (hn : n ≠ 0) {piece : Bytes}
    (h : piece ∈ Bytes.chunks n (Base64.encodeBytes content)) :
    ∀ x ∈ piece, x ∈ Base64.encodeBytes content := by
  intro x hx
  rw [← Bytes.flatten_chunks hn (Base64.encodeBytes content)]
  exact List.mem_flatten_of_mem h hx

/-- Signs of the body are symbols, padding and line feeds. -/
theorem forall_mem_body {P : UInt8 → Prop} (hsymbol : ∀ n < 64, P (Base64.symbol n))
    (hpad : P Base64.pad) (hfeed : P 10) (content : Bytes) : ∀ x ∈ body content, P x := by
  intro x hx
  obtain ⟨piece, hpiece, hx⟩ := List.mem_flatMap.1 hx
  rcases List.mem_append.1 hx with hx | hx
  · exact Base64.forall_mem_encodeBytes hsymbol hpad content x
      (mem_encodeBytes_of_mem_chunks (by decide) hpiece x hx)
  · rw [List.mem_singleton.1 hx]
    exact hfeed

/-- There is no blank line in a body, so none of it is taken for a header. -/
theorem splitAtInfix?_pieces {pieces : List Bytes} (h : ∀ p ∈ pieces, p ≠ [] ∧ (10 : UInt8) ∉ p) :
    Bytes.splitAtInfix? [10, 10] (pieces.flatMap (· ++ [10])) = none := by
  have hone {p rest : Bytes} (hp : (10 : UInt8) ∉ p) (hhead : rest.head? ≠ some 10)
      (hrest : Bytes.splitAtInfix? [10, 10] rest = none) :
      Bytes.splitAtInfix? [10, 10] (p ++ 10 :: rest) = none := by
    induction p with
    | nil =>
      cases rest with
      | nil => rfl
      | cons y rest =>
        have hy : ¬ 10 = y := fun hy => hhead (by rw [hy]; rfl)
        rw [List.nil_append, Bytes.splitAtInfix?, hrest]
        simp [Bytes.dropPrefix?, hy]
    | cons x p ih =>
      rw [List.mem_cons, not_or] at hp
      rw [List.cons_append, Bytes.splitAtInfix?, ih hp.2]
      simp [Bytes.dropPrefix?, hp.1]
  induction pieces with
  | nil => rfl
  | cons p pieces ih =>
    rw [List.forall_mem_cons] at h
    rw [List.flatMap_cons, List.append_assoc, List.singleton_append]
    refine hone h.1.2 ?_ (ih h.2)
    cases pieces with
    | nil => exact nofun
    | cons q pieces =>
      obtain ⟨hne, hq⟩ := h.2 q List.mem_cons_self
      cases q with
      | nil => exact absurd rfl hne
      | cons x q =>
        intro hx
        exact hq (Option.some.inj hx ▸ List.mem_cons_self)

theorem splitHeaders_body (content : Bytes) : splitHeaders (body content) = ([], body content) := by
  have hblank : Bytes.splitAtInfix? [10, 10] (body content) = none := by
    refine splitAtInfix?_pieces fun piece hpiece =>
      ⟨Bytes.ne_nil_of_mem_chunks hpiece, fun hmem => ?_⟩
    exact Base64.forall_mem_encodeBytes (P := (· ≠ 10)) (by decide) (by decide) content 10
      (mem_encodeBytes_of_mem_chunks (by decide) hpiece 10 hmem) rfl
  have hreturn : (13 : UInt8) ∉ body content := fun hmem =>
    forall_mem_body (P := (· ≠ 13)) (by decide) (by decide) (by decide) content 13 hmem rfl
  rw [splitHeaders, hblank, Bytes.splitAtInfix?_eq_none hreturn]
  rfl

/-- A body with what follows it begins with a sign. -/
theorem dropWhile_body (content tail : Bytes) :
    (body content ++ (endMark ++ tail)).dropWhile isBreak = body content ++ (endMark ++ tail) := by
  cases hsigns : Base64.encodeBytes content with
  | nil =>
    have hempty : body content = [] := by rw [body, lines, hsigns, Bytes.chunks]; rfl
    have hend : endMark = 45 :: [45, 45, 45, 45, 69, 78, 68, 32] := by decide +kernel
    rw [hempty, hend]
    rfl
  | cons x signs =>
    have hx : isBreak x = false :=
      Base64.forall_mem_encodeBytes (P := (isBreak · = false)) (by decide) (by decide) content x
        (hsigns ▸ List.mem_cons_self)
    have hfirst : Bytes.chunks 64 (x :: signs) =
        (x :: signs.take 63) :: Bytes.chunks 64 (signs.drop 63) := by
      rw [Bytes.chunks, dif_neg (by simp)]
      rfl
    have hbody : ∃ more, body content = x :: more := by
      rw [body, lines, hsigns, hfirst]
      exact ⟨_, rfl⟩
    obtain ⟨more, hmore⟩ := hbody
    rw [hmore, List.cons_append, List.dropWhile_cons_of_neg (by simp [hx])]

/-- The frame of a written block, and what follows the block. -/
theorem frame?_encode (h : IsLabel label) (content rest : Bytes) :
    frame? (encode label content ++ rest) =
      some (⟨Bytes.ofText label, [], body content, Bytes.ofText label⟩,
        rest.dropWhile isBreak) := by
  have hbody : (45 : UInt8) ∉ body content := fun hmem =>
    forall_mem_body (P := (· ≠ 45)) (by decide) (by decide) (by decide) content 45 hmem rfl
  have hparts : encode label content ++ rest = [] ++ (beginMark ++ (Bytes.ofText label ++
      (dashes ++ 10 :: (body content ++ (endMark ++ (Bytes.ofText label ++
        (dashes ++ 10 :: rest))))))) := by
    simp [encode, body]
  have hfeed (b : Bytes) : (10 :: b).dropWhile isBreak = b.dropWhile isBreak := rfl
  rw [frame?, hparts, Bytes.splitAtInfix?_append (x := 45) (by decide +kernel) List.not_mem_nil]
  simp only [Option.bind_eq_bind, Option.bind_some, hfeed, dropWhile_body, splitHeaders_body,
    Bytes.splitAtInfix?_append (by decide +kernel : dashes.head? = some 45) h.2,
    Bytes.splitAtInfix?_append (by decide +kernel : endMark.head? = some 45) hbody]
  rfl

/-! ## Contents -/

theorem intercalate_empty (pieces : List (List Char)) :
    "".intercalate (pieces.map String.ofList) = String.ofList pieces.flatten := by
  induction pieces with
  | nil => rfl
  | cons p pieces ih =>
    cases pieces with
    | nil => simp [String.intercalate_singleton]
    | cons q pieces =>
      rw [List.map_cons, List.map_cons, String.intercalate_cons_cons, ← List.map_cons, ih]
      simp [String.ofList_append]

/-- A body is read back as the bytes it was written from. -/
theorem decodeText?_body (content : Bytes) :
    ∃ text, Bytes.text? (body content) = some text ∧
      Base64.decodeText? ("".intercalate ((textLines text).map trimEnd)) = some content := by
  let sign (x : UInt8) : Char := Char.ofNat x.toNat
  let pieces := (Bytes.chunks 64 (Base64.encodeBytes content)).map (·.map sign)
  have hpieces {P : Char → Prop} (hsymbol : ∀ n < 64, P (sign (Base64.symbol n)))
      (hpad : P (sign Base64.pad)) : ∀ p ∈ pieces, p ≠ [] ∧ ∀ c ∈ p, P c := by
    intro p hp
    obtain ⟨piece, hpiece, rfl⟩ := List.mem_map.1 hp
    refine ⟨by simpa using Bytes.ne_nil_of_mem_chunks hpiece, fun c hc => ?_⟩
    obtain ⟨x, hx, rfl⟩ := List.mem_map.1 hc
    exact Base64.forall_mem_encodeBytes (P := fun x => P (sign x)) hsymbol hpad content x
      (mem_encodeBytes_of_mem_chunks (by decide) hpiece x hx)
  have hbody : (body content).map sign = pieces.flatMap (· ++ ['\n']) := by
    simp only [body, lines, pieces, List.map_flatMap, List.flatMap_map, List.map_append]
    rfl
  have hlines : textLines (String.ofList (pieces.flatMap (· ++ ['\n']))) =
      pieces.map String.ofList := by
    refine textLines_pieces fun p hp => ⟨fun hfeed => ?_, fun hreturn => ?_⟩
    · exact (hpieces (P := (· ≠ '\n')) (by decide) (by decide) p hp).2 _ hfeed rfl
    · exact (hpieces (P := (· ≠ '\r')) (by decide) (by decide) p hp).2 _ hreturn rfl
  have htrim : (pieces.map String.ofList).map trimEnd = pieces.map String.ofList := by
    rw [List.map_map]
    refine List.map_congr_left fun p hp => ?_
    obtain ⟨hne, hblank⟩ :=
      hpieces (P := (Text.isBlank · = false)) (by decide) (by decide) p hp
    have hkept : Text.trimEndChars ([] ++ p ++ []) = [] ++ p :=
      Text.trimEndChars_append hne hblank (by simp) []
    rw [List.append_nil, List.nil_append] at hkept
    rw [Function.comp_apply, trimEnd, String.toList_ofList, hkept]
  have hsigns : pieces.flatten = (Base64.encodeBytes content).map sign := by
    rw [← List.map_flatten, Bytes.flatten_chunks (by decide)]
  refine ⟨_, Bytes.text?_of_ascii ?_, ?_⟩
  · exact forall_mem_body (by decide) (by decide) (by decide) content
  · rw [hbody, hlines, htrim, intercalate_empty, hsigns]
    exact Base64.decodeText?_encode content

/-- What is found of a written block. -/
def frameOf (b : ArmoredBlock) : Frame :=
  ⟨Bytes.ofText b.label, [], body b.content, Bytes.ofText b.label⟩

theorem decode?_frameOf {b : ArmoredBlock} (h : IsLabel b.label) :
    (frameOf b).decode? = some b := by
  obtain ⟨text, htext, hcontent⟩ := decodeText?_body b.content
  have hheaders : Bytes.text? [] = some "" := by decide
  have hnone : textLines "" = [] := @textLines_pieces [] (by simp)
  simp only [frameOf, Frame.decode?, Option.bind_eq_bind, Bytes.text?_ofText, htext, hheaders,
    hnone, hcontent, Option.bind_some]
  exact if_pos ⟨h.1, trivial, rfl⟩

/-! ## Texts -/

/-- The first block of a text that begins with one. -/
theorem first?_encode (h : IsLabel label) (content rest : Bytes) :
    first? (encode label content ++ rest) = some ⟨label, content⟩ := by
  rw [first?, frame?_encode h]
  exact decode?_frameOf (b := ⟨label, content⟩) h

def encodeAll (blocks : List ArmoredBlock) : Bytes :=
  blocks.flatMap fun b => encode b.label b.content

theorem dropWhile_encodeAll (blocks : List ArmoredBlock) :
    (encodeAll blocks).dropWhile isBreak = encodeAll blocks := by
  cases blocks with
  | nil => rfl
  | cons b blocks =>
    have hbegin : beginMark = 45 :: [45, 45, 45, 45, 66, 69, 71, 73, 78, 32] := by decide +kernel
    simp only [encodeAll, List.flatMap_cons, encode, hbegin, List.cons_append]
    rfl

theorem length_le_encodeAll (blocks : List ArmoredBlock) :
    blocks.length ≤ (encodeAll blocks).length := by
  induction blocks with
  | nil => exact Nat.zero_le _
  | cons b blocks ih =>
    have hone : 1 ≤ (encode b.label b.content).length := by simp [encode]; omega
    simp only [encodeAll, List.flatMap_cons, List.length_append, List.length_cons] at ih ⊢
    omega

theorem frames_encodeAll {blocks : List ArmoredBlock} (h : ∀ b ∈ blocks, IsLabel b.label)
    {fuel : Nat} (hfuel : blocks.length ≤ fuel) :
    frames fuel (encodeAll blocks) = blocks.map frameOf := by
  induction blocks generalizing fuel with
  | nil =>
    cases fuel with
    | zero => rfl
    | succ fuel =>
      have hmark : beginMark ≠ [] := by with_unfolding_all decide
      simp [frames, frame?, encodeAll, Bytes.splitAtInfix?, hmark]
  | cons b blocks ih =>
    rw [List.forall_mem_cons] at h
    cases fuel with
    | zero => cases hfuel
    | succ fuel =>
      have hframe := frame?_encode h.1 b.content (encodeAll blocks)
      rw [dropWhile_encodeAll] at hframe
      rw [encodeAll, List.flatMap_cons, ← encodeAll, frames, hframe]
      simp only [ih h.2 (Nat.le_of_succ_le_succ hfuel)]
      rfl

/-- Blocks that were written one after another. -/
theorem all?_encodeAll {blocks : List ArmoredBlock} (h : ∀ b ∈ blocks, IsLabel b.label) :
    all? (encodeAll blocks) = some blocks := by
  rw [all?, frames_encodeAll h (length_le_encodeAll blocks), List.mapM_map]
  induction blocks with
  | nil => rfl
  | cons b blocks ih =>
    rw [List.forall_mem_cons] at h
    simp only [List.mapM_cons, Function.comp_apply, decode?_frameOf h.1, ih h.2]
    rfl

end Armor
end CertAuthority

/-! ## Strict armor -/

namespace CertAuthority.StrictArmor

open Armor (beginMark endMark dashes)

/-! ## Marks at the end -/

theorem dropSuffix?_append (front tail : Bytes) : dropSuffix? tail (front ++ tail) = some front := by
  rw [dropSuffix?, List.reverse_append, Bytes.dropPrefix?_append, Option.map_some,
    List.reverse_reverse]

/-- A line feed at the end, after something else than a carriage return. -/
theorem dropLastBreak?_append {front : Bytes} {x : UInt8} (hx : x ≠ 13) :
    dropLastBreak? (front ++ [x] ++ [10]) = some (front ++ [x]) := by
  have hreverse : (front ++ [x] ++ [10]).reverse = 10 :: x :: front.reverse := by simp
  unfold dropLastBreak?
  rw [hreverse]
  split
  · rename_i h
    exact absurd (List.cons_eq_cons.1 (List.cons_eq_cons.1 h).2).1 hx
  · rename_i h
    rw [← (List.cons_eq_cons.1 h).2]
    simp
  · rename_i h
    exact absurd (List.cons_eq_cons.1 h).1 (by decide)
  · rename_i h _
    exact (h _ rfl).elim

/-! ## Lines -/

variable {width : Nat} {text b : Bytes}

theorem lines_eq_append (hwidth : width ≠ 0) (h : text ≠ []) :
    Armor.lines width text = text.take width ++ 10 :: Armor.lines width (text.drop width) := by
  have hmore : ¬ (text.isEmpty = true ∨ width = 0) := by simp [h, hwidth]
  rw [Armor.lines, Bytes.chunks, dif_neg hmore, List.flatMap_cons, List.append_assoc]
  rfl

/-- Lines end in a line feed, after a sign of the text. -/
theorem exists_lines (hwidth : width ≠ 0) (h : text ≠ []) :
    ∃ front x, x ∈ text ∧ Armor.lines width text = front ++ [x] ++ [10] := by
  obtain hempty | ⟨pieces, last, hpieces⟩ := List.eq_nil_or_concat (Bytes.chunks width text)
  · have hflat := Bytes.flatten_chunks hwidth text
    rw [hempty] at hflat
    exact absurd hflat.symm h
  rw [List.concat_eq_append] at hpieces
  have hlast : last ∈ Bytes.chunks width text := by simp [hpieces]
  obtain hnil | ⟨front, x, rfl⟩ := List.eq_nil_or_concat last
  · exact absurd hnil (Bytes.ne_nil_of_mem_chunks hlast)
  refine ⟨pieces.flatMap (· ++ [10]) ++ front, x, ?_, ?_⟩
  · rw [← Bytes.flatten_chunks hwidth text]
    exact List.mem_flatten_of_mem hlast (by simp)
  · simp [Armor.lines, hpieces]

/-- Lines that were cut from a text are joined to it. -/
theorem joined?_lines {fuel : Nat} (hwidth : width ≠ 0) (h : text ≠ [])
    (hb : Armor.lines width text = b ++ [10]) (hfuel : b.length ≤ fuel) :
    joined? width fuel b = some text := by
  induction fuel generalizing text b with
  | zero =>
    obtain rfl := List.length_eq_zero_iff.1 (Nat.le_zero.1 hfuel)
    obtain ⟨front, x, -, hlines⟩ := exists_lines hwidth h
    rw [hb, List.nil_append] at hlines
    simpa using congrArg List.length hlines
  | succ fuel ih =>
    rw [lines_eq_append hwidth h] at hb
    by_cases hmore : text.drop width = []
    · have hshort : text.length ≤ width := List.drop_eq_nil_iff.1 hmore
      have hnone : Armor.lines width [] = [] := by
        rw [Armor.lines, Bytes.chunks_nil]
        rfl
      rw [hmore, hnone, List.take_of_length_le hshort] at hb
      obtain rfl := List.append_cancel_right hb
      rw [joined?, if_pos hshort]
    · obtain ⟨front, x, -, hrest⟩ := exists_lines hwidth hmore
      have htake : (text.take width).length = width := by
        have hlong := mt List.drop_eq_nil_iff.2 hmore
        rw [List.length_take]
        omega
      have hsplit : b = text.take width ++ 10 :: (front ++ [x]) := by
        rw [hrest, ← List.cons_append, ← List.append_assoc] at hb
        exact (List.append_cancel_right hb).symm
      have hlength := congrArg List.length hsplit
      simp only [List.length_append, List.length_cons, htake] at hlength
      have hjoined : joined? width fuel (front ++ [x]) = some (text.drop width) :=
        ih hmore hrest (by simp only [List.length_append, List.length_cons]; omega)
      rw [joined?, if_neg (by omega), hsplit, List.drop_left' htake, List.take_left' htake]
      simp only [dropBreak?, Option.bind_eq_bind, Option.bind_some, hjoined]
      rw [Option.pure_def, List.take_append_drop]

/-! ## Blocks -/

theorem length_le_encode (hwidth : width ≠ 0) (label : String) (content : Bytes) :
    content.length ≤ (encode label width content).length := by
  have hpieces (pieces : List Bytes) :
      pieces.flatten.length ≤ (pieces.flatMap (· ++ [10])).length := by
    induction pieces with
    | nil => exact Nat.le_refl _
    | cons p pieces ih =>
      simp only [List.flatten_cons, List.flatMap_cons, List.length_append] at ih ⊢
      omega
  have hlines := hpieces (Bytes.chunks width (Base64.encodeBytes content))
  rw [Bytes.flatten_chunks hwidth, Base64.length_encodeBytes] at hlines
  simp only [encode, Armor.lines, List.length_append]
  omega

/-- **The content of a block is read back.** -/
theorem decode?_encode {label : String} {content : Bytes} (hwidth : width ≠ 0)
    (h : content ≠ []) : decode? label width (encode label width content) = some content := by
  have hsigns : Base64.encodeBytes content ≠ [] := by
    have hpos := List.length_pos_iff.2 h
    rw [← List.length_pos_iff, Base64.length_encodeBytes]
    omega
  obtain ⟨front, x, hx, hlines⟩ := exists_lines hwidth hsigns
  have hreturn : x ≠ 13 :=
    Base64.forall_mem_encodeBytes (P := (· ≠ 13)) (by decide) (by decide) content x hx
  have hdashes : dashes = [45, 45, 45, 45] ++ [45] := by decide +kernel
  obtain ⟨closing, hclosing⟩ : ∃ closing, closing = Armor.lines width (Base64.encodeBytes content) ++
      (endMark ++ Bytes.ofText label) ++ dashes := ⟨_, rfl⟩
  have hparts : encode label width content =
      (beginMark ++ Bytes.ofText label ++ dashes) ++ 10 :: (closing ++ [10]) := by
    simp [encode, hclosing]
  have hopened : opened? (encode label width content) = some (encode label width content) := by
    have hprefix : (Bytes.dropPrefix? beginMark (encode label width content)).isSome := by
      rw [hparts, List.append_assoc, List.append_assoc, Bytes.dropPrefix?_append]
      rfl
    rw [opened?, if_pos hprefix]
  have hlast : dropLastBreak? (closing ++ [10]) = some closing := by
    rw [hclosing, hdashes, ← List.append_assoc]
    exact dropLastBreak?_append (by decide)
  have hjoined : joined? width (front ++ [x]).length (front ++ [x]) =
      some (Base64.encodeBytes content) := joined?_lines hwidth hsigns hlines (Nat.le_refl _)
  rw [decode?, hopened]
  simp only [Option.bind_eq_bind, Option.bind_some]
  rw [hparts, Bytes.dropPrefix?_append]
  simp only [Option.bind_some, dropBreak?, hlast, Option.getD_some]
  simp only [hclosing, dropSuffix?_append, Option.bind_some, hlines, dropLastBreak?_append hreturn,
    hjoined, if_neg hsigns]
  exact Base64.decode?_encodeBytes content

end CertAuthority.StrictArmor
