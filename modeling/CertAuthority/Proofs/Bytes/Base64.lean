import CertAuthority.Bytes.Base64

/-!
# Reading what was written in base64

* `Bytes.ofText_append`, `Bytes.ofText_ofList` : the bytes of a text, piece by piece;
* `Base64.decodeText?_encode` : every byte string is read back from its text;
* `Base64.forall_mem_encode` : the text is made of symbols and padding, none of them blank;
* `Base64.length_encodeBytes` : its length.
-/

namespace CertAuthority

/-! ## Bytes of a text -/

namespace Bytes

theorem ofText_eq (s : String) : ofText s = s.toByteArray.data.toList := by
  simp [ofText, ByteArray.toList, toList_loop]

/-- The bytes that a text was read from. -/
theorem ofText_of_text? {b : Bytes} {s : String} (h : text? b = some s) : ofText s = b := by
  unfold text? String.fromUTF8? at h
  split at h
  · obtain rfl := Option.some.inj h
    rw [ofText_eq]
    rfl
  · cases h

theorem ofText_append (s t : String) : ofText (s ++ t) = ofText s ++ ofText t := by
  simp only [ofText_eq, String.toByteArray_append, ByteArray.data_append, Array.toList_append]

theorem ofText_ofList (cs : List Char) :
    ofText (String.ofList cs) = cs.flatMap String.utf8EncodeChar := by
  rw [ofText_eq, String.toByteArray_ofList, List.utf8Encode, List.data_toByteArray]

theorem utf8EncodeChar_ofNat :
    ∀ n < 128, String.utf8EncodeChar (Char.ofNat n) = [UInt8.ofNat n] := by
  decide

/-- A byte below 128 is the whole of a character. -/
theorem ofText_map_ofNat {b : Bytes} (h : ∀ x ∈ b, x.toNat < 128) :
    ofText (String.ofList (b.map fun x => Char.ofNat x.toNat)) = b := by
  rw [ofText_ofList]
  induction b with
  | nil => rfl
  | cons x rest ih =>
    have hx : String.utf8EncodeChar (Char.ofNat x.toNat) = [x] := by
      rw [utf8EncodeChar_ofNat _ (h x List.mem_cons_self), UInt8.ofNat_toNat]
    rw [List.map_cons, List.flatMap_cons, hx, ih fun y hy => h y (List.mem_cons_of_mem x hy)]
    rfl

end Bytes

namespace Base64

/-! ## Symbols -/

theorem symbolValue?_symbol : ∀ n < 64, symbolValue? (symbol n) = some n := by decide

theorem symbol_ne_pad : ∀ n < 64, symbol n ≠ pad := by decide

/-! ## Reading -/

section

variable {i j k l : Nat} (hi : i < 64) (hj : j < 64)
include hi hj

theorem decode?_two (h : j % 16 = 0) :
    decode? [symbol i, symbol j, pad, pad] = some [UInt8.ofNat (i * 4 + j / 16)] := by
  simp [decode?, symbolValue?_symbol, hi, hj, h]

theorem decode?_three (hk : k < 64) (h : k % 4 = 0) :
    decode? [symbol i, symbol j, symbol k, pad] =
      some [UInt8.ofNat (i * 4 + j / 16), UInt8.ofNat (j % 16 * 16 + k / 4)] := by
  simp [decode?, symbolValue?_symbol, symbol_ne_pad, hi, hj, hk, h]

theorem decode?_four (hk : k < 64) (hl : l < 64) {rest tail : Bytes}
    (h : decode? rest = some tail) :
    decode? (symbol i :: symbol j :: symbol k :: symbol l :: rest) =
      some (UInt8.ofNat (i * 4 + j / 16) :: UInt8.ofNat (j % 16 * 16 + k / 4) ::
        UInt8.ofNat (k % 4 * 64 + l) :: tail) := by
  simp [decode?, symbolValue?_symbol, symbol_ne_pad, hi, hj, hk, hl, h]

end

/-- The bits of a byte that two symbols hold. -/
theorem ofNat_eq_of_toNat {n : Nat} {a : UInt8} (h : n = a.toNat) : UInt8.ofNat n = a := by
  rw [h, UInt8.ofNat_toNat]

theorem decode?_encodeBytes (b : Bytes) : decode? (encodeBytes b) = some b := by
  fun_induction encodeBytes b with
  | case1 => rfl
  | case2 a =>
    have ha := a.toNat_lt
    rw [decode?_two (by omega) (by omega) (by omega)]
    rw [ofNat_eq_of_toNat (a := a) (by omega)]
  | case3 a b =>
    have ha := a.toNat_lt
    have hb := b.toNat_lt
    rw [decode?_three (by omega) (by omega) (by omega) (by omega)]
    rw [ofNat_eq_of_toNat (a := a) (by omega), ofNat_eq_of_toNat (a := b) (by omega)]
  | case4 a b c rest ih =>
    have ha := a.toNat_lt
    have hb := b.toNat_lt
    have hc := c.toNat_lt
    rw [decode?_four (by omega) (by omega) (by omega) (by omega) ih]
    rw [ofNat_eq_of_toNat (a := a) (by omega), ofNat_eq_of_toNat (a := b) (by omega),
      ofNat_eq_of_toNat (a := c) (by omega)]

/-! ## Texts -/

/-- A property of all symbols and of the padding is one of all written bytes. -/
theorem forall_mem_encodeBytes {P : UInt8 → Prop} (hsymbol : ∀ n < 64, P (symbol n)) (hpad : P pad)
    (b : Bytes) : ∀ x ∈ encodeBytes b, P x := by
  fun_induction encodeBytes b with
  | case1 => simp
  | case2 a =>
    have ha := a.toNat_lt
    simp only [List.forall_mem_cons, List.not_mem_nil, false_implies, implies_true, and_true]
    exact ⟨hsymbol _ (by omega), hsymbol _ (by omega), hpad, hpad⟩
  | case3 a b =>
    have ha := a.toNat_lt
    have hb := b.toNat_lt
    simp only [List.forall_mem_cons, List.not_mem_nil, false_implies, implies_true, and_true]
    exact ⟨hsymbol _ (by omega), hsymbol _ (by omega), hsymbol _ (by omega), hpad⟩
  | case4 a b c rest ih =>
    have ha := a.toNat_lt
    have hb := b.toNat_lt
    have hc := c.toNat_lt
    simp only [List.forall_mem_cons]
    exact ⟨hsymbol _ (by omega), hsymbol _ (by omega), hsymbol _ (by omega), hsymbol _ (by omega),
      ih⟩

theorem ofText_encode (b : Bytes) : Bytes.ofText (encode b) = encodeBytes b :=
  Bytes.ofText_map_ofNat (forall_mem_encodeBytes (by decide) (by decide) b)

/-- What was written is read back. -/
theorem decodeText?_encode (b : Bytes) : decodeText? (encode b) = some b := by
  rw [decodeText?, ofText_encode, decode?_encodeBytes]

/-- The same for the characters of a text. -/
theorem forall_mem_encode {P : Char → Prop} (hsymbol : ∀ n < 64, P (Char.ofNat (symbol n).toNat))
    (hpad : P '=') (b : Bytes) : ∀ c ∈ (encode b).toList, P c := by
  rw [encode, String.toList_ofList]
  simp only [List.forall_mem_map]
  exact forall_mem_encodeBytes (P := fun x => P (Char.ofNat x.toNat)) hsymbol hpad b

/-- Four symbols stand for three bytes. -/
theorem length_encodeBytes (b : Bytes) : (encodeBytes b).length = 4 * ((b.length + 2) / 3) := by
  fun_induction encodeBytes b with
  | case1 | case2 | case3 => simp
  | case4 a b c rest ih =>
    simp only [List.length_cons, ih]
    omega

end Base64
end CertAuthority
