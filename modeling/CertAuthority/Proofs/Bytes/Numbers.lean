import CertAuthority.Bytes.Basic
import Mathlib.Data.List.Induction

/-!
# Byte strings in blocks and as numbers

* `Bytes.xor_xor_self` : combining twice with the same string;
* `Bytes.flatten_chunks`, `Bytes.chunks_flatten` : a string is its pieces put together, and blocks
  put together are taken apart again;
* `Bytes.length_of_mem_chunks` : the pieces of a string of whole blocks;
* `Bytes.toNat_ofNat`, `Bytes.length_ofNat_le_iff` : a number and its shortest octets, which
  `Bytes.ofNat_toNat` finds in any others;
* `Bytes.toNat_ofNatWidth` : a number in a fixed width, which cuts it;
* `Bytes.toNat_lt`, `Bytes.mul_bitLimit_le_toNat` : octets hold no larger number than fits them, and
  no smaller one than their first makes it.
-/

namespace CertAuthority.Bytes

/-! ## Exclusive or -/

variable {a b c : Bytes} {n : Nat}

theorem length_xor (a b : Bytes) : (xor a b).length = min a.length b.length :=
  List.length_zipWith

/-- Combining twice with a string that is long enough changes nothing. -/
theorem xor_xor_self (h : a.length ≤ b.length) : xor (xor a b) b = a := by
  induction a generalizing b with
  | nil => rfl
  | cons x a ih =>
    cases b with
    | nil => cases h
    | cons y b =>
      have htail : xor (xor a b) b = a := ih (Nat.le_of_succ_le_succ h)
      show (x ^^^ y ^^^ y) :: xor (xor a b) b = x :: a
      rw [htail, UInt8.xor_assoc, UInt8.xor_self, UInt8.xor_zero]

/-! ## Blocks -/

theorem chunks_nil (n : Nat) : chunks n [] = [] := by
  rw [chunks]
  exact dif_pos (.inl rfl)

theorem flatten_chunks (hn : n ≠ 0) (b : Bytes) : (chunks n b).flatten = b := by
  fun_induction chunks n b with
  | case1 b h =>
    have hb : b = [] := by simpa [hn] using h
    rw [hb]
    rfl
  | case2 b h ih => rw [List.flatten_cons, ih, List.take_append_drop]

theorem ne_nil_of_mem_chunks {piece : Bytes} (h : piece ∈ chunks n b) : piece ≠ [] := by
  fun_induction chunks n b with
  | case1 b hb => cases h
  | case2 b hb ih =>
    rcases List.mem_cons.1 h with rfl | h
    · simpa [not_or, and_comm] using hb
    · exact ih h

/-- A string that begins with a block. -/
theorem chunks_append (hn : n ≠ 0) (ha : a.length = n) (b : Bytes) :
    chunks n (a ++ b) = a :: chunks n b := by
  have hmore : ¬ ((a ++ b).isEmpty = true ∨ n = 0) := by
    rintro (hempty | hzero)
    · obtain ⟨rfl, -⟩ := List.append_eq_nil_iff.1 (List.isEmpty_iff.1 hempty)
      exact hn ha.symm
    · exact hn hzero
  rw [chunks, dif_neg hmore, List.take_left' ha, List.drop_left' ha]

/-- Blocks put together are taken apart again. -/
theorem chunks_flatten (hn : n ≠ 0) {blocks : List Bytes} (h : ∀ b ∈ blocks, b.length = n) :
    chunks n blocks.flatten = blocks := by
  induction blocks with
  | nil => exact chunks_nil n
  | cons block blocks ih =>
    obtain ⟨hblock, hblocks⟩ := List.forall_mem_cons.1 h
    rw [List.flatten_cons, chunks_append hn hblock, ih hblocks]

theorem length_flatten {blocks : List Bytes} (h : ∀ b ∈ blocks, b.length = n) :
    blocks.flatten.length = n * blocks.length := by
  induction blocks with
  | nil => rfl
  | cons block blocks ih =>
    obtain ⟨hblock, hblocks⟩ := List.forall_mem_cons.1 h
    rw [List.flatten_cons, List.length_append, hblock, ih hblocks, List.length_cons, Nat.mul_succ,
      Nat.add_comm]

/-- A string of whole blocks has no shorter piece. -/
theorem length_of_mem_chunks (hb : n ∣ b.length) : ∀ block ∈ chunks n b, block.length = n := by
  fun_induction chunks n b with
  | case1 b h => exact fun _ h => nomatch h
  | case2 b h ih =>
    have hpos : 0 < b.length := List.length_pos_iff.2 fun hnil => h (.inl (by rw [hnil]; rfl))
    have hle : n ≤ b.length := Nat.le_of_dvd hpos hb
    refine List.forall_mem_cons.2 ⟨by rw [List.length_take, Nat.min_eq_left hle], ih ?_⟩
    rw [List.length_drop]
    exact Nat.dvd_sub hb (Nat.dvd_refl n)

end CertAuthority.Bytes

/-! ## Numbers -/

namespace CertAuthority

namespace Bytes

theorem bitLimit_octet (k : Nat) : bitLimit (8 * (k + 1)) = bitLimit (8 * k) * 256 := by
  simp [bitLimit, Nat.mul_add, Nat.pow_add]

theorem toNat_append_singleton (b : Bytes) (x : UInt8) :
    toNat (b ++ [x]) = toNat b * 256 + x.toNat := by
  simp [toNat]

theorem ofNatAux_eq_append (n : Nat) (acc : Bytes) : ofNatAux n acc = ofNat n ++ acc := by
  induction n using Nat.strongRecOn generalizing acc with
  | ind n ih =>
    rw [ofNat, ofNatAux]
    split
    · rename_i hn
      simp [ofNatAux, hn]
    · rename_i hn
      have hlt : n / 256 < n := Nat.div_lt_self (by omega) (by decide)
      rw [ih _ hlt]
      conv => rhs; rw [ofNatAux, if_neg hn, ih _ hlt]
      simp

theorem ofNat_zero : ofNat 0 = [] := by
  rw [ofNat, ofNatAux, if_pos rfl]

/-- The last octet is the remainder. -/
theorem ofNat_eq_append {n : Nat} (hn : n ≠ 0) :
    ofNat n = ofNat (n / 256) ++ [UInt8.ofNat (n % 256)] := by
  rw [ofNat, ofNatAux, if_neg hn, ofNatAux_eq_append]

theorem toNat_ofNat (n : Nat) : toNat (ofNat n) = n := by
  induction n using Nat.strongRecOn with
  | ind n ih =>
    by_cases hn : n = 0
    · simp [hn, ofNat_zero, toNat]
    · rw [ofNat_eq_append hn, toNat_append_singleton, ih _ (Nat.div_lt_self (by omega) (by decide))]
      have hx : (UInt8.ofNat (n % 256)).toNat = n % 256 := by simp
      omega

theorem length_ofNat_le_iff (n k : Nat) : (ofNat n).length ≤ k ↔ n < bitLimit (8 * k) := by
  induction k generalizing n with
  | zero =>
    by_cases hn : n = 0
    · simp [hn, ofNat_zero, bitLimit]
    · simp [ofNat_eq_append hn, bitLimit, hn]
  | succ k ih =>
    by_cases hn : n = 0
    · simp [hn, ofNat_zero, bitLimit_pos]
    · rw [ofNat_eq_append hn, bitLimit_octet]
      simp [ih, Nat.div_lt_iff_lt_mul]

/-- There is no leading zero. -/
theorem head?_ofNat_ne_zero (n : Nat) : (ofNat n).head? ≠ some 0 := by
  induction n using Nat.strongRecOn with
  | ind n ih =>
    by_cases hn : n = 0
    · simp [hn, ofNat_zero]
    · rw [ofNat_eq_append hn, List.head?_append]
      by_cases hq : n / 256 = 0
      · have hx : UInt8.ofNat (n % 256) ≠ 0 := by
          intro h
          have h0 : n % 256 = 0 := by simpa using congrArg UInt8.toNat h
          omega
        simpa [hq, ofNat_zero] using hx
      · have hi := ih (n / 256) (Nat.div_lt_self (by omega) (by decide))
        have hne : ofNat (n / 256) ≠ [] := by simp [ofNat_eq_append hq]
        rwa [List.head?_eq_some_head hne] at hi ⊢

theorem ofNat_eq_nil_iff {n : Nat} : ofNat n = [] ↔ n = 0 := by
  constructor
  · intro h
    rw [← toNat_ofNat n, h]
    rfl
  · rintro rfl
    exact ofNat_zero

/-- The shortest octets of a number that octets stand for leave out the zeros in front. -/
theorem ofNat_toNat (b : Bytes) : ofNat (toNat b) = b.dropWhile (· == 0) := by
  induction b using List.reverseRecOn with
  | nil => exact ofNat_zero
  | append_singleton b x ih =>
    have hx := x.toNat_lt
    rw [toNat_append_singleton, List.dropWhile_append, ← ih]
    split
    · rename_i hempty
      rw [ofNat_eq_nil_iff.1 (List.isEmpty_iff.1 hempty), Nat.zero_mul, Nat.zero_add]
      by_cases hx0 : x = 0
      · rw [hx0]
        exact ofNat_zero
      · have hne : x.toNat ≠ 0 := fun h => hx0 (UInt8.toNat_inj.1 h)
        have hdiv : x.toNat / 256 = 0 := by omega
        have hmod : x.toNat % 256 = x.toNat := by omega
        rw [ofNat_eq_append hne, hdiv, hmod, ofNat_zero, UInt8.ofNat_toNat,
          List.dropWhile_cons_of_neg (by simpa using hx0)]
        rfl
    · rename_i hmore
      have hne : toNat b ≠ 0 := fun h => hmore (List.isEmpty_iff.2 (ofNat_eq_nil_iff.2 h))
      have hdiv : (toNat b * 256 + x.toNat) / 256 = toNat b := by omega
      have hmod : (toNat b * 256 + x.toNat) % 256 = x.toNat := by omega
      rw [ofNat_eq_append (by omega), hdiv, hmod, UInt8.ofNat_toNat]

theorem toNat_append (a b : Bytes) :
    toNat (a ++ b) = toNat a * bitLimit (8 * b.length) + toNat b := by
  induction b using List.reverseRecOn with
  | nil => simp [toNat, bitLimit]
  | append_singleton b x ih =>
    rw [← List.append_assoc, toNat_append_singleton, ih, toNat_append_singleton,
      List.length_append, List.length_singleton, bitLimit_octet, ← Nat.mul_assoc]
    omega

/-! ## Numbers of a fixed width -/

theorem length_ofNatWidth (width n : Nat) : (ofNatWidth width n).length = width := by
  induction width generalizing n with
  | zero => rfl
  | succ width ih => rw [ofNatWidth, List.length_append, ih, List.length_singleton]

/-- Octets beyond the width are cut off. -/
theorem toNat_ofNatWidth (width n : Nat) :
    toNat (ofNatWidth width n) = n % bitLimit (8 * width) := by
  induction width generalizing n with
  | zero => simp [ofNatWidth, toNat, bitLimit, Nat.mod_one]
  | succ width ih =>
    have hlow : (UInt8.ofNat (n % 256)).toNat = n % 256 := by simp
    rw [ofNatWidth, toNat_append_singleton, ih, hlow, bitLimit_octet,
      Nat.mul_comm (bitLimit _) 256, Nat.mod_mul, Nat.mul_comm, Nat.add_comm]

/-- A number is as large as its first octet makes it. -/
theorem mul_bitLimit_le_toNat (x : UInt8) (b : Bytes) :
    x.toNat * bitLimit (8 * b.length) ≤ toNat (x :: b) := by
  have hfold (b : Bytes) : ∀ n, n * bitLimit (8 * b.length) ≤
      b.foldl (fun n x => n * 256 + x.toNat) n := by
    induction b with
    | nil => exact fun n => Nat.le_of_eq (Nat.mul_one n)
    | cons y rest ih =>
      intro n
      calc n * bitLimit (8 * (rest.length + 1))
          = n * 256 * bitLimit (8 * rest.length) := by
            rw [bitLimit_octet, Nat.mul_comm (bitLimit _), Nat.mul_assoc]
        _ ≤ (n * 256 + y.toNat) * bitLimit (8 * rest.length) :=
            Nat.mul_le_mul_right _ (Nat.le_add_right _ _)
        _ ≤ _ := ih _
  simpa [toNat] using hfold b x.toNat

theorem toNat_lt (b : Bytes) : toNat b < bitLimit (8 * b.length) := by
  have hfold (b : Bytes) : ∀ n k, n < bitLimit (8 * k) →
      b.foldl (fun n x => n * 256 + x.toNat) n < bitLimit (8 * (k + b.length)) := by
    induction b with
    | nil => exact fun _ _ h => h
    | cons x rest ih =>
      intro n k h
      have hx := x.toNat_lt
      have hnext : n * 256 + x.toNat < bitLimit (8 * (k + 1)) := by
        rw [bitLimit_octet]
        omega
      have hrest := ih _ (k + 1) hnext
      rwa [Nat.add_assoc, Nat.add_comm 1] at hrest
  have hall := hfold b 0 0 (bitLimit_pos 0)
  rwa [Nat.zero_add] at hall

end Bytes

end CertAuthority
