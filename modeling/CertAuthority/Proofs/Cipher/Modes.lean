import CertAuthority.Cipher.Mode
import CertAuthority.Proofs.Bytes.Numbers

/-!
# Modes of operation are undone

What was encrypted in a mode is decrypted in it, for every block cipher that has an inverse on whole
blocks.

* `unpad?_pad` : padding is found again;
* `decryptChained?_encryptChained` : chaining mode with padding;
* `counterMode_counterMode` : counter mode, which needs no inverse.
-/

namespace CertAuthority.Cipher

/-! ## Padding -/

theorem unpad?_pad {size : Nat} (hsize : 0 < size) (hbyte : size < 256) (text : Bytes) :
    unpad? size (pad size text) = some text := by
  obtain ⟨n, hn, hpos, hle⟩ : ∃ n, size - text.length % size = n ∧ 0 < n ∧ n ≤ size := by
    have hlt := Nat.mod_lt text.length hsize
    exact ⟨_, rfl, by omega, by omega⟩
  have hvalue : (UInt8.ofNat n).toNat = n := by
    rw [UInt8.toNat_ofNat']
    omega
  have hlast : (pad size text).getLast? = some (UInt8.ofNat n) := by
    rw [pad, hn, List.getLast?_append, List.getLast?_replicate, if_neg (by omega)]
    rfl
  have hlength : (pad size text).length - n = text.length := by
    rw [pad, hn, List.length_append, List.length_replicate]
    omega
  rw [unpad?, hlast]
  simp only [Option.bind_eq_bind, Option.bind_some, hvalue, hlength]
  rw [pad, hn, List.drop_left, List.take_left, if_pos ⟨hpos, hle, rfl⟩]

theorem dvd_length_pad {size : Nat} (hsize : 0 < size) (text : Bytes) :
    size ∣ (pad size text).length := by
  have hlt := Nat.mod_lt text.length hsize
  have hdiv := Nat.div_add_mod text.length size
  refine ⟨text.length / size + 1, ?_⟩
  rw [pad, List.length_append, List.length_replicate, Nat.mul_add, Nat.mul_one]
  omega

theorem length_pad_le (size : Nat) (text : Bytes) :
    (pad size text).length ≤ text.length + size := by
  rw [pad, List.length_append, List.length_replicate]
  omega

theorem length_pad_pos {size : Nat} (hsize : 0 < size) (text : Bytes) :
    0 < (pad size text).length := by
  have hlt := Nat.mod_lt text.length hsize
  rw [pad, List.length_append, List.length_replicate]
  omega

/-! ## Chaining mode -/

/-- A cipher on blocks of `n` bytes with its inverse. -/
structure IsCipher (n : Nat) (encrypt decrypt : Bytes → Bytes) : Prop where
  length : ∀ block, block.length = n → (encrypt block).length = n
  inverse : ∀ block, block.length = n → decrypt (encrypt block) = block

variable {n : Nat} {encrypt decrypt : Bytes → Bytes} {iv : Bytes}

theorem chainDecrypt_chainEncrypt (h : IsCipher n encrypt decrypt) (hn : n ≠ 0)
    (hiv : iv.length = n) {blocks : List Bytes} (hblocks : ∀ b ∈ blocks, b.length = n) :
    chainDecrypt decrypt iv (Bytes.chunks n (chainEncrypt encrypt iv blocks)) = blocks.flatten := by
  induction blocks generalizing iv with
  | nil =>
    rw [chainEncrypt, Bytes.chunks_nil]
    rfl
  | cons block blocks ih =>
    obtain ⟨hblock, hblocks⟩ := List.forall_mem_cons.1 hblocks
    have hmixed : (Bytes.xor block iv).length = n := by
      rw [Bytes.length_xor]
      omega
    have hout := h.length _ hmixed
    rw [chainEncrypt, Bytes.chunks_append hn hout, chainDecrypt, ih hout hblocks, h.inverse _ hmixed,
      Bytes.xor_xor_self (by omega), List.flatten_cons]

theorem length_chainEncrypt (h : IsCipher n encrypt decrypt) (hiv : iv.length = n)
    {blocks : List Bytes} (hblocks : ∀ b ∈ blocks, b.length = n) :
    (chainEncrypt encrypt iv blocks).length = blocks.flatten.length := by
  induction blocks generalizing iv with
  | nil => rfl
  | cons block blocks ih =>
    obtain ⟨hblock, hblocks⟩ := List.forall_mem_cons.1 hblocks
    have hmixed : (Bytes.xor block iv).length = n := by
      rw [Bytes.length_xor]
      omega
    have hout := h.length _ hmixed
    rw [chainEncrypt, List.length_append, List.flatten_cons, List.length_append, ih hout hblocks,
      hout, hblock]

theorem length_encryptChained (h : IsCipher n encrypt decrypt) (hn : 0 < n) (hiv : iv.length = n)
    (text : Bytes) : (encryptChained encrypt iv text).length = (pad n text).length := by
  have hblocks := Bytes.length_of_mem_chunks (dvd_length_pad hn text)
  rw [encryptChained, hiv, length_chainEncrypt h hiv hblocks,
    Bytes.flatten_chunks (Nat.ne_of_gt hn)]

/-- **A text that was encrypted in chaining mode is decrypted.** -/
theorem decryptChained?_encryptChained (h : IsCipher n encrypt decrypt) (hn : 0 < n)
    (hbyte : n < 256) (hiv : iv.length = n) (text : Bytes) :
    decryptChained? decrypt iv (encryptChained encrypt iv text) = some text := by
  have hzero : n ≠ 0 := Nat.ne_of_gt hn
  have hblocks := Bytes.length_of_mem_chunks (dvd_length_pad hn text)
  have hlength := length_encryptChained h hn hiv text
  have hwhole : ¬ (iv.isEmpty = true ∨ (encryptChained encrypt iv text).isEmpty = true ∨
      (encryptChained encrypt iv text).length % iv.length ≠ 0) := by
    have hpos := length_pad_pos hn text
    have hmod := Nat.mod_eq_zero_of_dvd (dvd_length_pad hn text)
    rw [List.isEmpty_iff_length_eq_zero, List.isEmpty_iff_length_eq_zero, hlength, hiv]
    omega
  rw [decryptChained?, if_neg hwhole, encryptChained, hiv,
    chainDecrypt_chainEncrypt h hzero hiv hblocks, Bytes.flatten_chunks hzero, unpad?_pad hn hbyte]

/-! ## Counter mode -/

/-- A piece of a text, which is a whole block unless nothing follows. -/
theorem chunks_piece_append {piece rest : Bytes} (hn : n ≠ 0) (hpiece : piece ≠ [])
    (hlength : piece.length = n ∨ piece.length ≤ n ∧ rest = []) :
    Bytes.chunks n (piece ++ rest) = piece :: Bytes.chunks n rest := by
  rcases hlength with hwhole | ⟨hshort, rfl⟩
  · exact Bytes.chunks_append hn hwhole rest
  · have hmore : ¬ ((piece ++ []).isEmpty = true ∨ n = 0) := by simp [hpiece, hn]
    rw [Bytes.chunks, dif_neg hmore, List.append_nil, List.take_of_length_le hshort,
      List.drop_of_length_le hshort]

theorem length_counterMode (hn : 0 < iv.length)
    (hencrypt : ∀ block, block.length = iv.length → (encrypt block).length = iv.length)
    (text : Bytes) : (counterMode encrypt iv text).length = text.length := by
  have hzero : iv.length ≠ 0 := Nat.ne_of_gt hn
  unfold counterMode
  generalize Bytes.toNat iv = counter
  generalize iv.length = n at *
  fun_induction Bytes.chunks n text generalizing counter with
  | case1 text h =>
    obtain rfl : text = [] := by simpa [hzero] using h
    rfl
  | case2 text h ih =>
    have hkey : (encrypt (Bytes.ofNatWidth n counter)).length = n :=
      hencrypt _ (Bytes.length_ofNatWidth n counter)
    rw [counterBlocks, List.length_append, ih, Bytes.length_xor, hkey, List.length_take,
      List.length_drop]
    omega

/-- **Counter mode undoes itself.** -/
theorem counterMode_counterMode (hn : 0 < iv.length)
    (hencrypt : ∀ block, block.length = iv.length → (encrypt block).length = iv.length)
    (text : Bytes) : counterMode encrypt iv (counterMode encrypt iv text) = text := by
  have hzero : iv.length ≠ 0 := Nat.ne_of_gt hn
  unfold counterMode
  generalize Bytes.toNat iv = counter
  generalize iv.length = n at *
  fun_induction Bytes.chunks n text generalizing counter with
  | case1 text h =>
    obtain rfl : text = [] := by simpa [hzero] using h
    rw [counterBlocks, Bytes.chunks_nil]
    rfl
  | case2 text h ih =>
    obtain ⟨hmore, -⟩ := not_or.1 h
    have hpos : 0 < text.length := List.length_pos_iff.2 (by simpa using hmore)
    have hkey : (encrypt (Bytes.ofNatWidth n counter)).length = n :=
      hencrypt _ (Bytes.length_ofNatWidth n counter)
    have hpiece : (Bytes.xor (text.take n) (encrypt (Bytes.ofNatWidth n counter))).length =
        min n text.length := by
      rw [Bytes.length_xor, hkey, List.length_take]
      omega
    have hlast : text.length < n → counterBlocks encrypt n (counter + 1)
        (Bytes.chunks n (text.drop n)) = [] := by
      intro hshort
      rw [List.drop_of_length_le (Nat.le_of_lt hshort), Bytes.chunks_nil]
      rfl
    rw [counterBlocks, chunks_piece_append hzero (List.length_pos_iff.1 (by omega))
      ((Nat.lt_or_ge text.length n).symm.imp (by omega) fun hshort => ⟨by omega, hlast hshort⟩),
      counterBlocks, ih, Bytes.xor_xor_self (by rw [hkey]; exact List.length_take_le n text),
      List.take_append_drop]

end CertAuthority.Cipher
