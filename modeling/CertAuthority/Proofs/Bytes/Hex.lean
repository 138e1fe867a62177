import CertAuthority.Proofs.Bytes.Base64
import CertAuthority.Proofs.Bytes.Numbers
import CertAuthority.Serial

/-!
# Reading what was written in hexadecimal

* `Hex.decode_encode` : every byte string is read back from its digits;
* `SerialNumber.parse_text` : every number from its text.
-/

namespace CertAuthority

namespace Hex

/-! ## Digits -/

theorem utf8EncodeChar_digit :
    ∀ n < 16, String.utf8EncodeChar (digit n) = [UInt8.ofNat (digit n).toNat] := by
  decide

theorem digitValue?_digit : ∀ n < 16, digitValue? (UInt8.ofNat (digit n).toNat) = some n := by
  decide

theorem digit_ne_colon : ∀ n < 16, digit n ≠ ':' := by decide

theorem exists_digit_of_mem_encode {b : Bytes} {c : Char} (h : c ∈ (encode b).toList) :
    ∃ n < 16, c = digit n := by
  rw [encode, String.toList_ofList, encodeChars] at h
  obtain ⟨x, -, hx⟩ := List.mem_flatMap.1 h
  have hlt := x.toNat_lt
  rcases List.mem_cons.1 hx with rfl | hx
  · exact ⟨_, by omega, rfl⟩
  · exact ⟨_, by omega, List.mem_singleton.1 hx⟩

/-- The digits of a byte as bytes of a text. -/
def digitBytes (x : UInt8) : Bytes :=
  [UInt8.ofNat (digit (x.toNat / 16)).toNat, UInt8.ofNat (digit (x.toNat % 16)).toNat]

theorem ofText_encode (b : Bytes) : Bytes.ofText (encode b) = b.flatMap digitBytes := by
  rw [encode, Bytes.ofText_ofList, encodeChars]
  induction b with
  | nil => rfl
  | cons x rest ih =>
    have hx := x.toNat_lt
    rw [List.flatMap_cons, List.flatMap_append, ih, List.flatMap_cons]
    simp only [List.flatMap_cons, List.flatMap_nil,
      utf8EncodeChar_digit _ (show x.toNat / 16 < 16 by omega),
      utf8EncodeChar_digit _ (show x.toNat % 16 < 16 by omega)]
    rfl

theorem length_flatMap_digitBytes (b : Bytes) : (b.flatMap digitBytes).length = 2 * b.length := by
  induction b with
  | nil => rfl
  | cons x rest ih =>
    rw [List.flatMap_cons, List.length_append, ih, List.length_cons]
    simp only [digitBytes, List.length_cons, List.length_nil]
    omega

/-! ## Reading -/

theorem decodeFrom_digits (b : Bytes) (i : Nat) : decodeFrom i (b.flatMap digitBytes) = .ok b := by
  induction b generalizing i with
  | nil => rfl
  | cons x rest ih =>
    have hx := x.toNat_lt
    have hvalue : x.toNat / 16 * 16 + x.toNat % 16 = x.toNat := by omega
    rw [List.flatMap_cons, digitBytes, List.cons_append, List.cons_append, List.nil_append,
      decodeFrom, digitValue?_digit _ (by omega), digitValue?_digit _ (by omega)]
    simp only [ih, hvalue, UInt8.ofNat_toNat]
    rfl

theorem decode_encode (b : Bytes) : decode (Bytes.ofText (encode b)) = .ok b := by
  have heven : (b.flatMap digitBytes).length % 2 ≠ 1 := by
    rw [length_flatMap_digitBytes]
    omega
  rw [ofText_encode, decode, if_neg heven, decodeFrom_digits]

/-- The text has no colons. -/
theorem filter_encode (b : Bytes) : (encode b).toList.filter (· != ':') = (encode b).toList := by
  rw [List.filter_eq_self]
  intro c hc
  obtain ⟨n, hn, rfl⟩ := exists_digit_of_mem_encode hc
  exact bne_iff_ne.2 (digit_ne_colon n hn)

end Hex

namespace SerialNumber

theorem ofBytes_toBytes (s : SerialNumber) : ofBytes s.toBytes = s := by
  obtain ⟨n⟩ := s
  unfold toBytes
  split
  · rename_i hzero
    exact congrArg mk hzero.symm
  · exact congrArg mk (Bytes.toNat_ofNat n)

theorem parse_text (s : SerialNumber) : parse s.text = .ok s := by
  have hdigits : digitsOf s.text = Bytes.ofText s.text := by
    have heven : ¬ (Bytes.ofText s.text).length % 2 = 1 := by
      rw [text, Hex.ofText_encode, Hex.length_flatMap_digitBytes]
      omega
    rw [digitsOf, text, Hex.filter_encode, String.ofList_toList]
    exact if_neg heven
  rw [parse, hdigits, text, Hex.decode_encode]
  exact congrArg Except.ok s.ofBytes_toBytes

end SerialNumber
end CertAuthority
