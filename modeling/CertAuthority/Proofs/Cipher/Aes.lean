import CertAuthority.Cipher.Aes
import CertAuthority.Proofs.Bytes.Numbers

/-!
# AES is undone by its inverse

Every step of a round is undone by the one that stands for it in the other direction, whatever the
round keys are.

* `look_backward` : substitution, since no two bytes have the same value;
* `unmixColumns_mixColumns` : columns. Products are linear, so that the two maps need to be compared
  on single bytes only;
* `decryptBlock_encryptBlock` : all rounds, by induction over the keys between first and last;
* `length_of_mem_roundKeys` : the key schedule yields keys as long as a block.
-/

namespace CertAuthority.Aes

/-! ## All bytes -/

theorem mem_allBytes (a : UInt8) : a ∈ allBytes :=
  List.mem_map.2 ⟨a.toNat, List.mem_range.2 a.toNat_lt, UInt8.ofNat_toNat⟩

/-- What holds of the bytes in order holds of each. -/
theorem forall_of_allBytes {p : UInt8 → Prop} [DecidablePred p]
    (h : (allBytes.all fun a => decide (p a)) = true) (a : UInt8) : p a :=
  of_decide_eq_true (List.all_eq_true.1 h a (mem_allBytes a))

theorem look_table (f : UInt8 → UInt8) (a : UInt8) : look (table f) a = f a := by
  have ha := a.toNat_lt
  simp [look, table, allBytes, ha]

/-! ## Products -/

theorem xor_and_distrib (a b c : UInt8) : (a ^^^ b) &&& c = (a &&& c) ^^^ (b &&& c) := by
  apply UInt8.toBitVec_inj.1
  ext i hi
  simp [Bool.and_xor_distrib_right]

/-- Products are linear in their second factor. -/
theorem times_xor (width : Nat) (a b c : UInt8) :
    times width a (b ^^^ c) = times width a b ^^^ times width a c := by
  induction width generalizing a b c with
  | zero => exact UInt8.xor_zero.symm
  | succ width ih =>
    have hbit (x : UInt8) : x &&& 1 = 0 ∨ x &&& 1 = 1 := by
      have hmod : (x &&& 1).toNat = x.toNat % 2 := Nat.and_one_is_mod _
      rw [← UInt8.toNat_inj, ← UInt8.toNat_inj, hmod]
      exact Nat.mod_two_eq_zero_or_one _
    have hhigh : (b ^^^ c) >>> 1 = (b >>> 1) ^^^ (c >>> 1) := UInt8.shiftRight_xor
    have hzero : ¬ (0 : UInt8) = 1 := by decide
    simp only [times, xor_and_distrib, hhigh, ih]
    generalize times width (timesX a) (b >>> 1) = x
    generalize times width (timesX a) (c >>> 1) = y
    rcases hbit b with hb | hb <;> rcases hbit c with hc | hc <;>
      simp only [hb, hc, UInt8.xor_self, UInt8.xor_zero, UInt8.zero_xor, hzero, if_true, if_false]
    · ac_rfl
    · ac_rfl
    · show x ^^^ y = (a ^^^ x) ^^^ (a ^^^ y)
      calc x ^^^ y = (a ^^^ a) ^^^ (x ^^^ y) := by rw [UInt8.xor_self, UInt8.zero_xor]
        _ = (a ^^^ x) ^^^ (a ^^^ y) := by ac_rfl

/-- The same product on numbers. The recursor and the operations are used by name: the kernel unfolds
neither a compiled recursion nor instances where the cases of all bytes are evaluated below. -/
def timesNat (width : Nat) : Nat → Nat → Nat :=
  Nat.rec (fun _ _ => 0) (fun _ rest a b =>
    Nat.xor (Nat.mul (Nat.mod b 2) a)
      (rest (Nat.xor (Nat.mod (Nat.mul 2 a) 256) (Nat.mul (Nat.div a 128) 0x1b)) (Nat.div b 2)))
    width

theorem timesNat_succ (width a b : Nat) :
    timesNat (width + 1) a b =
      (b % 2 * a) ^^^ timesNat width ((2 * a % 256) ^^^ (a / 128 * 0x1b)) (b / 2) := rfl

theorem toNat_timesX (a : UInt8) :
    (timesX a).toNat = (2 * a.toNat % 256) ^^^ (a.toNat / 128 * 0x1b) :=
  forall_of_allBytes (p := fun a => (timesX a).toNat =
    (2 * a.toNat % 256) ^^^ (a.toNat / 128 * 0x1b)) (by decide +kernel) a

theorem toNat_times (width : Nat) (a b : UInt8) :
    (times width a b).toNat = timesNat width a.toNat b.toNat := by
  induction width generalizing a b with
  | zero => rfl
  | succ width ih =>
    have hbit : (b &&& 1).toNat = b.toNat % 2 := by
      rw [UInt8.toNat_and]
      exact Nat.and_one_is_mod _
    have hhalf : (b >>> 1).toNat = b.toNat / 2 := by
      rw [UInt8.toNat_shiftRight]
      exact Nat.shiftRight_eq_div_pow _ 1
    simp only [times, timesNat_succ, ← UInt8.toNat_inj, hbit, UInt8.toNat_one]
    split
    · rename_i h
      rw [UInt8.toNat_xor, ih, toNat_timesX, hhalf, h, Nat.one_mul]
    · rename_i h
      rw [ih, toNat_timesX, hhalf, Nat.mod_two_ne_one.1 h, Nat.zero_mul, Nat.zero_xor]

theorem times_eq (width : Nat) (a b : UInt8) :
    times width a b = UInt8.ofNat (timesNat width a.toNat b.toNat) := by
  rw [← toNat_times, UInt8.ofNat_toNat]

/-! ## Substitution -/

def inverseNat (a : Nat) : Nat :=
  let square (x : Nat) := timesNat 8 x x
  let step (x : Nat) := timesNat 8 (square x) a
  square (step (step (step (step (step (step a))))))

theorem toNat_inverse (a : UInt8) : (inverse a).toNat = inverseNat a.toNat := by
  simp only [inverse, inverseNat, toNat_times]

theorem inverse_inverse (a : UInt8) : inverse (inverse a) = a := by
  have hnat : ∀ n < 256, inverseNat (inverseNat n) = n := by decide +kernel
  apply UInt8.toNat_inj.1
  rw [toNat_inverse, toNat_inverse, hnat _ a.toNat_lt]

theorem substitute_injective {a b : UInt8} (h : substitute a = substitute b) : a = b := by
  have haffine (x : UInt8) :
      let y := x ^^^ rotl x 1 ^^^ rotl x 2 ^^^ rotl x 3 ^^^ rotl x 4 ^^^ 0x63
      rotl y 1 ^^^ rotl y 3 ^^^ rotl y 6 ^^^ 0x05 = x :=
    forall_of_allBytes (p := fun x =>
      let y := x ^^^ rotl x 1 ^^^ rotl x 2 ^^^ rotl x 3 ^^^ rotl x 4 ^^^ 0x63
      rotl y 1 ^^^ rotl y 3 ^^^ rotl y 6 ^^^ 0x05 = x) (by decide +kernel) x
  have hinverse : inverse a = inverse b := by
    rw [← haffine (inverse a), ← haffine (inverse b)]
    exact congrArg (fun y => rotl y 1 ^^^ rotl y 3 ^^^ rotl y 6 ^^^ 0x05) h
  rw [← inverse_inverse a, hinverse, inverse_inverse]

/-- An entry of the table stays where it was put, since no other byte has that value. -/
theorem look_foldl_set (bytes : List UInt8) (t : Array UInt8) (ht : t.size = 256) (a : UInt8)
    (h : a ∈ bytes ∨ look t (substitute a) = a) :
    look (bytes.foldl (fun t b => t.set! (substitute b).toNat b) t) (substitute a) = a := by
  induction bytes generalizing t with
  | nil =>
    rcases h with h | h
    · cases h
    · exact h
  | cons b bytes ih =>
    refine ih _ (by simpa using ht) ?_
    by_cases hab : a = b
    · right
      subst hab
      have hsize : (substitute a).toNat < t.size := by
        rw [ht]
        exact UInt8.toNat_lt _
      simp [look, hsize]
    · rcases h with h | h
      · exact .inl ((List.mem_cons.1 h).resolve_left hab)
      · right
        have hne : (substitute b).toNat ≠ (substitute a).toNat := by
          intro heq
          exact hab (substitute_injective (UInt8.toNat_inj.1 heq)).symm
        simpa [look, Array.getElem?_setIfInBounds_ne hne] using h

theorem look_backward (a : UInt8) : look backward (look forward a) = a := by
  rw [forward, look_table]
  exact look_foldl_set allBytes _ (by simp) a (.inl (mem_allBytes a))

/-! ## Columns -/

/-- The coefficients of the two maps on a column are inverse to each other. -/
theorem coefficients (a : UInt8) :
    times 8 14 (times 8 2 a) ^^^ times 8 11 a ^^^ times 8 13 a ^^^ times 8 9 (times 8 3 a) = a ∧
    times 8 14 (times 8 3 a) ^^^ times 8 11 (times 8 2 a) ^^^ times 8 13 a ^^^ times 8 9 a = 0 ∧
    times 8 14 a ^^^ times 8 11 (times 8 3 a) ^^^ times 8 13 (times 8 2 a) ^^^ times 8 9 a = 0 ∧
    times 8 14 a ^^^ times 8 11 a ^^^ times 8 13 (times 8 3 a) ^^^ times 8 9 (times 8 2 a) = 0 := by
  simp only [times_eq]
  revert a
  exact forall_of_allBytes (by decide +kernel)

/-- One byte of a column, from the four that it was mixed into. -/
theorem unmix_mix (a b c d : UInt8) :
    times 8 14 (times 8 2 a ^^^ times 8 3 b ^^^ c ^^^ d) ^^^
      times 8 11 (a ^^^ times 8 2 b ^^^ times 8 3 c ^^^ d) ^^^
      times 8 13 (a ^^^ b ^^^ times 8 2 c ^^^ times 8 3 d) ^^^
      times 8 9 (times 8 3 a ^^^ b ^^^ c ^^^ times 8 2 d) = a := by
  obtain ⟨ha, -, -, -⟩ := coefficients a
  obtain ⟨-, hb, -, -⟩ := coefficients b
  obtain ⟨-, -, hc, -⟩ := coefficients c
  obtain ⟨-, -, -, hd⟩ := coefficients d
  simp only [times_xor]
  calc _ =
      (times 8 14 (times 8 2 a) ^^^ times 8 11 a ^^^ times 8 13 a ^^^ times 8 9 (times 8 3 a)) ^^^
      (times 8 14 (times 8 3 b) ^^^ times 8 11 (times 8 2 b) ^^^ times 8 13 b ^^^ times 8 9 b) ^^^
      (times 8 14 c ^^^ times 8 11 (times 8 3 c) ^^^ times 8 13 (times 8 2 c) ^^^ times 8 9 c) ^^^
      (times 8 14 d ^^^ times 8 11 d ^^^ times 8 13 (times 8 3 d) ^^^ times 8 9 (times 8 2 d)) := by
        ac_rfl
    _ = a := by rw [ha, hb, hc, hd, UInt8.xor_zero, UInt8.xor_zero, UInt8.xor_zero]

/-- Columns are whole, so nothing is left over. -/
theorem eq_nil_of_not_column {s : Bytes} (h : 4 ∣ s.length)
    (hs : ∀ a b c d rest, s = a :: b :: c :: d :: rest → False) : s = [] := by
  match s, h, hs with
  | [], _, _ => rfl
  | [_], h, _ => exact absurd h (by simp)
  | [_, _], h, _ => exact absurd h (by simp)
  | [_, _, _], h, _ => exact absurd h (by simp)
  | a :: b :: c :: d :: rest, _, hs => exact (hs a b c d rest rfl).elim

theorem length_mixColumns {s : Bytes} (h : 4 ∣ s.length) : (mixColumns s).length = s.length := by
  fun_induction mixColumns s with
  | case1 a b c d rest ih =>
    have hrest : 4 ∣ rest.length := (Nat.dvd_add_left (Nat.dvd_refl 4)).1 h
    simp only [List.length_cons, ih hrest]
  | case2 s hs =>
    rw [eq_nil_of_not_column h hs]

theorem unmixColumns_mixColumns {s : Bytes} (h : 4 ∣ s.length) :
    unmixColumns (mixColumns s) = s := by
  fun_induction mixColumns s with
  | case1 a b c d rest ih =>
    have hrest : 4 ∣ rest.length := (Nat.dvd_add_left (Nat.dvd_refl 4)).1 h
    simp only [by2, by3, by9, by11, by13, by14, look_table, unmixColumns, ih hrest]
    -- every row of the maps is the first one, turned
    refine List.cons_eq_cons.2 ⟨unmix_mix a b c d, List.cons_eq_cons.2 ⟨.trans ?_ (unmix_mix b c d a),
      List.cons_eq_cons.2 ⟨.trans ?_ (unmix_mix c d a b),
        List.cons_eq_cons.2 ⟨.trans ?_ (unmix_mix d a b c), rfl⟩⟩⟩⟩
    all_goals ac_rfl
  | case2 s hs =>
    rw [eq_nil_of_not_column h hs]
    rfl

/-! ## Rounds -/

/-- Substitution and rows of one round. -/
def scatter (s : Bytes) : Bytes := shiftRows (s.map (look forward))

theorem length_scatter (s : Bytes) : (scatter s).length = s.length := by
  have hmap : (s.map (look forward)).length = s.length := List.length_map _
  unfold scatter shiftRows
  split
  · rename_i h
    rw [← hmap, h]
    rfl
  · exact hmap

theorem unscatter_scatter (s : Bytes) : (unshiftRows (scatter s)).map (look backward) = s := by
  have hrows : unshiftRows (scatter s) = s.map (look forward) := by
    unfold scatter shiftRows
    split
    · rename_i h
      exact h.symm
    · rename_i h
      unfold unshiftRows
      split
      · rename_i h'
        exact absurd h' (h _ _ _ _ _ _ _ _ _ _ _ _ _ _ _ _)
      · rfl
  rw [hrows]
  simp [Function.comp_def, look_backward]

/-- A round but the last. -/
def round (s k : Bytes) : Bytes := Bytes.xor (mixColumns (scatter s)) k

variable {ks : List Bytes} {k last s : Bytes}

theorem length_round (hs : s.length = 16) (hk : k.length = 16) : (round s k).length = 16 := by
  have hmixed : (mixColumns (scatter s)).length = 16 := by
    rw [length_mixColumns (by rw [length_scatter, hs]; decide), length_scatter, hs]
  rw [round, Bytes.length_xor, hmixed, hk]
  rfl

theorem length_foldl_round (hs : s.length = 16) (hks : ∀ k ∈ ks, k.length = 16) :
    (ks.foldl round s).length = 16 := by
  induction ks generalizing s with
  | nil => exact hs
  | cons k ks ih =>
    obtain ⟨hk, hks⟩ := List.forall_mem_cons.1 hks
    exact ih (length_round hs hk) hks

theorem rounds_append (ks : List Bytes) (last s : Bytes) :
    rounds (ks ++ [last]) s = Bytes.xor (scatter (ks.foldl round s)) last := by
  induction ks generalizing s with
  | nil => rfl
  | cons k ks ih =>
    rw [List.cons_append, rounds, List.foldl_cons, ← ih]
    · rfl
    · exact List.append_ne_nil_of_right_ne_nil ks (List.cons_ne_nil _ _)

theorem length_encryptBlock {keys : List Bytes} {block : Bytes} (hkeys : ∀ k ∈ keys, k.length = 16)
    (hblock : block.length = 16) : (encryptBlock keys block).length = 16 := by
  cases keys with
  | nil => exact hblock
  | cons first rest =>
    obtain ⟨hfirst, hrest⟩ := List.forall_mem_cons.1 hkeys
    have hstart : (Bytes.xor block first).length = 16 := by
      rw [Bytes.length_xor]
      omega
    obtain rfl | ⟨ks, last, rfl⟩ := List.eq_nil_or_concat rest
    · exact hstart
    have hks : ∀ k ∈ ks, k.length = 16 := fun k hk => hrest k (by simp [hk])
    have hlast : last.length = 16 := hrest last (by simp)
    rw [encryptBlock, List.concat_eq_append, rounds_append, Bytes.length_xor, length_scatter,
      length_foldl_round hstart hks]
    omega

/-- The last round backwards finds what went into the one before it. -/
theorem unrounds_round (hs : s.length = 16) (hk : k.length = 16) (hks : ks ≠ []) :
    unrounds (k :: ks) (scatter (round s k)) = unrounds ks (scatter s) := by
  have hwhole : 4 ∣ (scatter s).length := by
    rw [length_scatter, hs]
    decide
  have hcancel : Bytes.xor (round s k) k = mixColumns (scatter s) := by
    refine Bytes.xor_xor_self ?_
    rw [length_mixColumns hwhole, length_scatter]
    omega
  rw [unrounds, unscatter_scatter, hcancel, unmixColumns_mixColumns hwhole]
  exact hks

theorem unrounds_foldl {tail : List Bytes} (hs : s.length = 16) (hks : ∀ k ∈ ks, k.length = 16)
    (htail : tail ≠ []) :
    unrounds (ks.reverse ++ tail) (scatter (ks.foldl round s)) = unrounds tail (scatter s) := by
  induction ks generalizing s tail with
  | nil => rfl
  | cons k ks ih =>
    obtain ⟨hk, hks⟩ := List.forall_mem_cons.1 hks
    calc unrounds ((k :: ks).reverse ++ tail) (scatter ((k :: ks).foldl round s))
        = unrounds (ks.reverse ++ k :: tail) (scatter (ks.foldl round (round s k))) := by
          rw [List.reverse_cons, List.append_assoc, List.singleton_append, List.foldl_cons]
      _ = unrounds (k :: tail) (scatter (round s k)) :=
          ih (length_round hs hk) hks (List.cons_ne_nil _ _)
      _ = unrounds tail (scatter s) := unrounds_round hs hk htail

/-- **What was encrypted is decrypted.** -/
theorem decryptBlock_encryptBlock {keys : List Bytes} {block : Bytes}
    (hkeys : ∀ k ∈ keys, k.length = 16) (hblock : block.length = 16) :
    decryptBlock keys (encryptBlock keys block) = block := by
  cases keys with
  | nil => rfl
  | cons first rest =>
    obtain ⟨hfirst, hrest⟩ := List.forall_mem_cons.1 hkeys
    have hstart : (Bytes.xor block first).length = 16 := by
      rw [Bytes.length_xor, hblock, hfirst]
      rfl
    have hend : Bytes.xor (Bytes.xor block first) first = block :=
      Bytes.xor_xor_self (by omega)
    obtain rfl | ⟨ks, last, rfl⟩ := List.eq_nil_or_concat rest
    · exact hend
    have hks : ∀ k ∈ ks, k.length = 16 := fun k hk => hrest k (by simp [hk])
    have hlast : last.length = 16 := hrest last (by simp)
    have hcancel : Bytes.xor (Bytes.xor (scatter (ks.foldl round (Bytes.xor block first))) last) last =
        scatter (ks.foldl round (Bytes.xor block first)) := by
      refine Bytes.xor_xor_self ?_
      rw [length_scatter, length_foldl_round hstart hks]
      omega
    have hreverse : (first :: ks.concat last).reverse = last :: (ks.reverse ++ [first]) := by simp
    rw [decryptBlock, hreverse, encryptBlock, List.concat_eq_append, rounds_append]
    dsimp only
    rw [hcancel, unrounds_foldl hstart hks (List.cons_ne_nil _ _), unrounds, unscatter_scatter, hend]

/-! ## Round keys -/

/-- The key schedule adds words of four bytes. -/
theorem length_expandWords {period : Nat} (hperiod : 0 < period) (fuel i : Nat) (rcon : UInt8)
    {words : List Bytes} (hmany : period ≤ words.length) (hwords : ∀ w ∈ words, w.length = 4) :
    (expandWords period fuel i rcon words).length = fuel + words.length ∧
      ∀ w ∈ expandWords period fuel i rcon words, w.length = 4 := by
  induction fuel generalizing i rcon words with
  | zero => exact ⟨(Nat.zero_add _).symm, hwords⟩
  | succ fuel ih =>
    have hlast : (words.headD []).length = 4 := by
      cases words with
      | nil => exact absurd hmany (by simp; omega)
      | cons w words => exact hwords w List.mem_cons_self
    have hbefore : (words.getD (period - 1) []).length = 4 := by
      have hlt : period - 1 < words.length := by omega
      rw [List.getD_eq_getElem?_getD, List.getElem?_eq_getElem hlt]
      exact hwords _ (List.getElem_mem hlt)
    have hnext {mixed : Bytes} (hmixed : mixed.length = 4) (rcon' : UInt8) :
        let words' := Bytes.xor mixed (words.getD (period - 1) []) :: words
        (expandWords period fuel (i + 1) rcon' words').length = fuel + 1 + words.length ∧
          ∀ w ∈ expandWords period fuel (i + 1) rcon' words', w.length = 4 := by
      intro words'
      have hword : (Bytes.xor mixed (words.getD (period - 1) [])).length = 4 := by
        rw [Bytes.length_xor, hmixed, hbefore]
        rfl
      obtain ⟨hlength, hall⟩ := @ih (i + 1) rcon' words' (Nat.le_succ_of_le hmany)
        (List.forall_mem_cons.2 ⟨hword, hwords⟩)
      refine ⟨?_, hall⟩
      rw [hlength, List.length_cons]
      omega
    unfold expandWords
    split
    · dsimp only
      split
      · exact hnext rfl _
      · exact hnext hlast _
    · split
      · exact hnext ((List.length_map _).trans hlast) _
      · exact hnext hlast _

/-- The keys of all rounds are as long as a block, for a key of so many words. -/
theorem length_of_mem_roundKeys {period : Nat} (hperiod : 0 < period) {key : Bytes}
    (hkey : key.length = 4 * period) : ∀ k ∈ roundKeys key, k.length = 16 := by
  have hstart : ∀ w ∈ Bytes.chunks 4 key, w.length = 4 :=
    Bytes.length_of_mem_chunks ⟨period, hkey⟩
  have hmany : (Bytes.chunks 4 key).length = period := by
    have hflat := Bytes.length_flatten hstart
    rw [Bytes.flatten_chunks (by decide), hkey] at hflat
    omega
  have hcount : key.length / 4 = period := by omega
  have hreversed : period ≤ (Bytes.chunks 4 key).reverse.length := by
    rw [List.length_reverse]
    omega
  obtain ⟨hlength, hwords⟩ := length_expandWords hperiod (4 * (period + 7) - period) period 1
    hreversed fun w hw => hstart w (List.mem_reverse.1 hw)
  rw [List.length_reverse, hmany] at hlength
  refine Bytes.length_of_mem_chunks ⟨period + 7, ?_⟩
  rw [hcount, Bytes.length_flatten fun w hw => hwords w (List.mem_reverse.1 hw), List.length_reverse,
    hlength]
  omega

end CertAuthority.Aes
