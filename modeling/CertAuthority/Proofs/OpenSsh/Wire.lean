import CertAuthority.OpenSsh.Wire
import CertAuthority.Proofs.Bytes.Base64
import CertAuthority.Proofs.Bytes.Numbers

/-!
# Reading what was written in the wire format

* `Wire.Reads` : a parser takes exactly these bytes off the front, whatever follows, and answers
  with the value. It is closed under the ways in which parsers are put together;
* `Wire.many_flatMap` : values in a row are read to the end;
* `Wire.of_takeStrings` : strings that were read are as many as asked for, and short.
-/

namespace CertAuthority.Wire

variable {α β : Type} {p : Parser α} {f : α → Parser β} {a : α} {c : β}
  {b b' : Bytes}

/-! ## Running a parser -/

theorem bind_apply (p : Parser α) (f : α → Parser β) (b : Bytes) :
    (p >>= f) b = (p b).bind fun x => f x.1 x.2 := rfl

theorem bind_eq_some_iff :
    (p >>= f) b = some (c, b') ↔ ∃ a mid, p b = some (a, mid) ∧ f a mid = some (c, b') := by
  simp only [bind_apply, Option.bind_eq_some_iff, Prod.exists]

theorem ofOption_eq_some_iff {x : Option α} :
    ofOption x b = some (a, b') ↔ x = some a ∧ b = b' := by
  cases x with
  | none => exact ⟨nofun, nofun⟩
  | some y =>
    exact Option.some_inj.trans ((Prod.mk.injEq ..).to_iff.trans (by rw [Option.some_inj]))

theorem parseAll?_eq_some_iff : parseAll? p b = some a ↔ p b = some (a, []) := by
  unfold parseAll?
  cases h : p b with
  | none => simp
  | some x =>
    obtain ⟨y, rest⟩ := x
    cases rest <;> simp

/-! ## Reading what was written -/

/-- The parser takes these bytes off the front, and answers with the value. -/
def Reads (p : Parser α) (b : Bytes) (a : α) : Prop := ∀ rest, p (b ++ rest) = some (a, rest)

namespace Reads

theorem parseAll? (h : Reads p b a) : Wire.parseAll? p b = some a := by
  rw [parseAll?_eq_some_iff]
  simpa using h []

theorem pure (a : α) : Reads (Pure.pure a) [] a := fun _ => rfl

theorem ofOption {x : Option α} (h : x = some a) : Reads (Wire.ofOption x) [] a := by
  rw [h]
  exact pure a

theorem bind (hp : Reads p b a) (hf : Reads (f a) b' c) : Reads (p >>= f) (b ++ b') c := by
  intro rest
  rw [bind_apply, List.append_assoc, hp, Option.bind_some, hf]

/-- Neither part is longer than both. -/
theorem bind_short {limit : Nat} (h : (b ++ b').length < limit)
    (hp : b.length < limit → Reads p b a) (hf : b'.length < limit → Reads (f a) b' c) :
    Reads (p >>= f) (b ++ b') c := by
  rw [List.length_append] at h
  exact (hp (by omega)).bind (hf (by omega))

/-- A last step that takes nothing. -/
theorem bind_pure (hp : Reads p b a) (hf : f a = Pure.pure c) : Reads (p >>= f) b c := by
  have hlast : Reads (f a) [] c := hf ▸ pure c
  simpa using hp.bind hlast

theorem bind_ofOption {g : α → Option β} (hp : Reads p b a) (hg : g a = some c) :
    Reads (p >>= fun x => Wire.ofOption (g x)) b c :=
  hp.bind_pure (by rw [hg]; rfl)

/-- A first step that takes nothing. -/
theorem ofOption_bind {x : Option α} (hx : x = some a) (hf : Reads (f a) b c) :
    Reads (Wire.ofOption x >>= f) b c :=
  (ofOption hx).bind hf

theorem map (g : α → β) (hp : Reads p b a) : Reads (g <$> p) b (g a) := by
  rw [map_eq_pure_bind]
  exact hp.bind_pure rfl

theorem take {n : Nat} (h : b.length = n) : Reads (Wire.take n) b b := by
  intro rest
  have hlength : ¬ (b ++ rest).length < n := by
    rw [List.length_append]
    omega
  rw [Wire.take, if_neg hlength, List.take_left' h, List.drop_left' h]

theorem word32 {n : Nat} (h : n < bitLimit 32) : Reads takeWord32 (Wire.word32 n) n := by
  have hread := (take (Bytes.length_ofNatWidth 4 n)).map Bytes.toNat
  rwa [Bytes.toNat_ofNatWidth, Nat.mod_eq_of_lt h] at hread

theorem word64 {n : Nat} (h : n < bitLimit 64) : Reads takeWord64 (Wire.word64 n) n := by
  have hread := (take (Bytes.length_ofNatWidth 8 n)).map Bytes.toNat
  rwa [Bytes.toNat_ofNatWidth, Nat.mod_eq_of_lt h] at hread

theorem string (h : b.length < bitLimit 32) : Reads takeString (Wire.string b) b :=
  (word32 h).bind (take rfl)

theorem text {s : String} (h : (Bytes.ofText s).length < bitLimit 32) :
    Reads takeText (Wire.text s) s :=
  (string h).bind_ofOption (Bytes.text?_ofText s)

theorem strings {bs : List Bytes} (h : ∀ b ∈ bs, b.length < bitLimit 32) :
    Reads (takeStrings bs.length) (bs.flatMap Wire.string) bs := by
  induction bs with
  | nil => exact pure []
  | cons b bs ih =>
    rw [List.flatMap_cons]
    refine (string (h b List.mem_cons_self)).bind ?_
    exact (ih fun b' hb' => h b' (List.mem_cons_of_mem b hb')).bind_pure rfl

theorem inside (hl : b.length < bitLimit 32) (h : Wire.parseAll? p b = some a) :
    Reads (Wire.inside p) (Wire.string b) a :=
  (string hl).bind_ofOption h

end Reads

/-! ## What is written -/

theorem length_string (b : Bytes) : (string b).length = 4 + b.length := by
  rw [string, List.length_append, word32, Bytes.length_ofNatWidth]

theorem lt_of_string {limit : Nat} (h : (string b).length < limit) : b.length < limit := by
  rw [length_string] at h
  omega

theorem string_ne_nil (b : Bytes) : string b ≠ [] := by
  rw [← List.length_pos_iff, length_string]
  omega

theorem text_ne_nil (s : String) : text s ≠ [] := string_ne_nil _

theorem length_le_flatMap {enc : α → Bytes} {xs : List α} {x : α} (h : x ∈ xs) :
    (enc x).length ≤ (xs.flatMap enc).length := by
  rw [List.flatMap_def]
  exact (List.sublist_flatten_of_mem (List.mem_map_of_mem h)).length_le

theorem manyFuel_flatMap {enc : α → Bytes} {xs : List α} {fuel : Nat}
    (hfuel : (xs.flatMap enc).length ≤ fuel)
    (h : ∀ x ∈ xs, Reads p (enc x) x ∧ enc x ≠ []) :
    manyFuel p fuel (xs.flatMap enc) = some (xs, []) := by
  induction xs generalizing fuel with
  | nil => cases fuel <;> rfl
  | cons x xs ih =>
    obtain ⟨hread, hne⟩ := h x List.mem_cons_self
    have hpos := List.length_pos_iff.2 hne
    rw [List.flatMap_cons, List.length_append] at hfuel
    cases fuel with
    | zero => omega
    | succ fuel =>
      have hmore : (enc x ++ xs.flatMap enc).isEmpty = false := by
        simp [hne]
      have htail : manyFuel p fuel (xs.flatMap enc) = some (xs, []) :=
        ih (by omega) fun y hy => h y (List.mem_cons_of_mem x hy)
      rw [List.flatMap_cons, manyFuel, bind_apply]
      simp only [atEnd, Option.bind_some, hmore, Bool.false_eq_true, if_false]
      rw [bind_apply, hread, Option.bind_some, bind_apply, htail]
      rfl

/-- Values that were written in a row are read to the end. -/
theorem many_flatMap {enc : α → Bytes} {xs : List α}
    (h : ∀ x ∈ xs, Reads p (enc x) x ∧ enc x ≠ []) :
    parseAll? (many p) (xs.flatMap enc) = some xs :=
  parseAll?_eq_some_iff.2 (manyFuel_flatMap (Nat.le_refl _) h)

/-! ## What was read -/

theorem of_take {n : Nat} {x : Bytes} (h : take n b = some (x, b')) : x.length = n := by
  unfold take at h
  split at h
  · cases h
  · obtain ⟨rfl, -⟩ := Prod.mk.inj (Option.some.inj h)
    rw [List.length_take]
    omega

theorem lt_of_takeWord32 {n : Nat} (h : takeWord32 b = some (n, b')) : n < bitLimit 32 := by
  rw [takeWord32, map_eq_pure_bind, bind_eq_some_iff] at h
  obtain ⟨word, _, hfour, hn⟩ := h
  obtain ⟨rfl, -⟩ := Prod.mk.inj (Option.some.inj hn)
  have hlt := Bytes.toNat_lt word
  rwa [of_take hfour] at hlt

theorem of_takeString {x : Bytes} (h : takeString b = some (x, b')) : x.length < bitLimit 32 := by
  obtain ⟨n, mid, hword, htake⟩ := bind_eq_some_iff.1 h
  rw [of_take htake]
  exact lt_of_takeWord32 hword

theorem of_takeText {s : String} (h : takeText b = some (s, b')) :
    (Bytes.ofText s).length < bitLimit 32 := by
  obtain ⟨x, _, hx, htext⟩ := bind_eq_some_iff.1 h
  rw [Bytes.ofText_of_text? (ofOption_eq_some_iff.1 htext).1]
  exact of_takeString hx

theorem of_inside (h : inside p b = some (a, b')) : ∃ content, parseAll? p content = some a := by
  obtain ⟨content, _, -, hcontent⟩ := bind_eq_some_iff.1 h
  exact ⟨content, (ofOption_eq_some_iff.1 hcontent).1⟩

theorem of_takeStrings {n : Nat} {bs : List Bytes} (h : takeStrings n b = some (bs, b')) :
    bs.length = n ∧ ∀ x ∈ bs, x.length < bitLimit 32 := by
  induction n generalizing b b' bs with
  | zero =>
    obtain ⟨rfl, -⟩ := Prod.mk.inj (Option.some.inj h)
    exact ⟨rfl, by simp⟩
  | succ n ih =>
    obtain ⟨x, _, hx, h⟩ := bind_eq_some_iff.1 h
    obtain ⟨rest, _, hrest, h⟩ := bind_eq_some_iff.1 h
    obtain ⟨rfl, -⟩ := Prod.mk.inj (Option.some.inj h)
    obtain ⟨hlength, hshort⟩ := ih hrest
    exact ⟨by rw [List.length_cons, hlength], List.forall_mem_cons.2 ⟨of_takeString hx, hshort⟩⟩

end CertAuthority.Wire
