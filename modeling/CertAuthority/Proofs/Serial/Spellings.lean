import CertAuthority.Proofs.Bytes.Hex
import CertAuthority.Proofs.Text.Basic
import Mathlib.Logic.Relation

/-!
# One serial number in many spellings

Bytes, hex text and words of 64 bits all hold serial numbers, and the first two in many ways: with
zeros in front, with colons, in either letter case. What is compared is the number.

* `Hex.numberOf?` : the number that digits stand for, and `SerialNumber.parse_eq_ok_iff` : no other
  one is read;
* `SerialNumber.Respelled` : a colon, a zero or the case of a letter, and
  `SerialNumber.parse_respelled` : texts that come from each other by such steps are read alike;
* `SerialNumber.stripped` : bytes as a serial number keeps them, the same for the same number;
* `SerialNumber.lastWord` : the word in the last eight bytes, and `SerialNumber.toNat_lastWord` : it
  is the number up to 64 bits;
* `SerialNumber.told_by_number` : all of it together.
-/

namespace CertAuthority

/-! ## Numbers in hexadecimal -/

namespace Hex

variable {c : Char} {cs : List Char} {ds : Bytes} {i n : Nat}

/-- The value of a digit in either case is its place. -/
def digitOf? (c : Char) : Option Nat := "0123456789abcdef".toList.idxOf? (Text.lowerChar c)

/-- The number with one more digit. -/
def pushChar? (n : Nat) (c : Char) : Option Nat := (digitOf? c).map (16 * n + ·)

/-- The number that digits stand for. -/
def numberOf? (cs : List Char) : Option Nat := cs.foldlM pushChar? 0

/-- The number with one more digit, given as an ASCII code. -/
def pushByte? (n : Nat) (x : UInt8) : Option Nat := (digitValue? x).map (16 * n + ·)

theorem digitOf?_of_not_ascii (h : ¬ c.toNat < 128) : digitOf? c = none := by
  have hdigits : "0123456789abcdef".toList.all (fun d => d.toNat < 128) = true := by decide
  rw [digitOf?, Text.lowerChar_of_not_ascii h, List.idxOf?_eq_none_iff]
  exact fun hc => h (of_decide_eq_true (List.all_eq_true.1 hdigits c hc))

theorem digitValue?_of_not_ascii {x : UInt8} (h : ¬ x.toNat < 128) : digitValue? x = none := by
  simp only [digitValue?, UInt8.le_iff_toNat_le]
  rw [if_neg, if_neg, if_neg]
  all_goals
    simp only [UInt8.reduceToNat]
    omega

theorem utf8EncodeChar_of_not_ascii (h : ¬ c.toNat < 128) :
    ∃ x rest, String.utf8EncodeChar c = x :: rest ∧ ¬ x.toNat < 128 := by
  rw [String.utf8EncodeChar]
  split_ifs with h1
  · exact absurd (Nat.lt_succ_of_le h1) h
  all_goals
    refine ⟨_, _, rfl, ?_⟩
    rw [UInt8.toNat_ofNat']
    omega

/-- Reading the bytes of a character is reading the character. -/
theorem foldlM_utf8EncodeChar (n : Nat) (c : Char) :
    (String.utf8EncodeChar c).foldlM pushByte? n = pushChar? n c := by
  by_cases hc : c.toNat < 128
  · have hall : ∀ k < 128, digitValue? (UInt8.ofNat k) = digitOf? (Char.ofNat k) := by
      decide +kernel
    rw [← Char.ofNat_toNat c, Bytes.utf8EncodeChar_ofNat _ hc, List.foldlM_cons, pushByte?,
      hall _ hc]
    exact bind_pure _
  · obtain ⟨x, rest, hbytes, hx⟩ := utf8EncodeChar_of_not_ascii hc
    rw [hbytes, List.foldlM_cons, pushByte?, digitValue?_of_not_ascii hx, pushChar?,
      digitOf?_of_not_ascii hc]
    rfl

theorem foldlM_ofText (cs : List Char) (n : Nat) :
    (Bytes.ofText (String.ofList cs)).foldlM pushByte? n = cs.foldlM pushChar? n := by
  rw [Bytes.ofText_ofList]
  induction cs generalizing n with
  | nil => rfl
  | cons c cs ih =>
    rw [List.flatMap_cons, List.foldlM_append, foldlM_utf8EncodeChar, List.foldlM_cons]
    exact bind_congr ih

theorem digitValue?_lt {x : UInt8} {h : Nat} (hx : digitValue? x = some h) : h < 16 := by
  simp only [digitValue?, UInt8.le_iff_toNat_le, UInt8.reduceToNat] at hx
  split_ifs at hx
  all_goals
    rw [Option.some.injEq] at hx
    omega

theorem foldlM_cons_of_digit {x : UInt8} {h : Nat} (hx : digitValue? x = some h) (n : Nat) :
    (x :: ds).foldlM pushByte? n = ds.foldlM pushByte? (16 * n + h) := by
  rw [List.foldlM_cons, pushByte?, hx]
  rfl

/-- Digits in pairs are the number digit by digit; `n` is what stands before them. -/
theorem foldl_decodeFrom (heven : ds.length % 2 = 0) (n : Nat) :
    (decodeFrom i ds).toOption.map (fun b => b.foldl (fun n x => n * 256 + x.toNat) n) =
      ds.foldlM pushByte? n := by
  fun_induction decodeFrom i ds generalizing n with
  | case1 i => rfl
  | case2 i x => cases heven
  | case3 i hi lo rest hhi =>
    rw [List.foldlM_cons, pushByte?, hhi]
    rfl
  | case4 i hi lo rest hlo hhi =>
    obtain ⟨h, hhi⟩ := Option.ne_none_iff_exists'.1 hhi
    rw [foldlM_cons_of_digit hhi, List.foldlM_cons, pushByte?, hlo]
    rfl
  | case5 i hi lo rest h l hlo hhi ih =>
    have hrest : rest.length % 2 = 0 := by
      rw [List.length_cons, List.length_cons] at heven
      omega
    have hbyte : n * 256 + (UInt8.ofNat (h * 16 + l)).toNat = 16 * (16 * n + h) + l := by
      have hh := digitValue?_lt hhi
      have hl := digitValue?_lt hlo
      rw [UInt8.toNat_ofNat']
      omega
    have htail := ih hrest (n * 256 + (UInt8.ofNat (h * 16 + l)).toNat)
    rw [foldlM_cons_of_digit hhi, foldlM_cons_of_digit hlo, ← hbyte, ← htail]
    cases decodeFrom (i + 2) rest <;> rfl

theorem decode_eq_ok_iff (heven : ds.length % 2 = 0) :
    (∃ b, decode ds = .ok b ∧ b.toNat = n) ↔ ds.foldlM pushByte? 0 = some n := by
  rw [← foldl_decodeFrom heven 0 (i := 0), decode, if_neg (by omega)]
  cases decodeFrom 0 ds <;> simp [Bytes.toNat, Except.toOption]

end Hex

namespace SerialNumber

variable {s t : String} {n : SerialNumber}

/-! ## Texts -/

/-- The text as it is read: without its colons. -/
def cleaned (s : String) : List Char := s.toList.filter (· != ':')

/-- A text is read as the number that its digits stand for. -/
theorem parse_eq_ok_iff : parse s = .ok n ↔ Hex.numberOf? (cleaned s) = some n.value := by
  have hdigits : (digitsOf s).length % 2 = 0 ∧
      (digitsOf s).foldlM Hex.pushByte? 0 = Hex.numberOf? (cleaned s) := by
    rw [Hex.numberOf?, ← Hex.foldlM_ofText, digitsOf]
    split
    · rename_i hodd
      have hzero : Hex.digitValue? 48 = some 0 := rfl
      exact ⟨by rw [List.length_cons]; omega, Hex.foldlM_cons_of_digit hzero 0⟩
    · rename_i heven
      exact ⟨by omega, rfl⟩
  rw [← hdigits.2, ← Hex.decode_eq_ok_iff hdigits.1, parse]
  cases Hex.decode (digitsOf s) with
  | error e => simp
  | ok b =>
    constructor
    · rintro ⟨⟩
      exact ⟨b, rfl, rfl⟩
    · rintro ⟨_, ⟨⟩, hvalue⟩
      exact congrArg Except.ok (congrArg mk hvalue)

/-- One change to a text that is not one to the number. -/
inductive Respelled : String → String → Prop
  | colon (before after : String) : Respelled (before ++ after) (before ++ ":" ++ after)
  | zero (s : String) : Respelled s ("0" ++ s)
  | letter (before after : String) (c d : Char) (same : Text.lowerChar c = Text.lowerChar d) :
      Respelled (before ++ String.singleton c ++ after) (before ++ String.singleton d ++ after)

theorem cleaned_append (s t : String) : cleaned (s ++ t) = cleaned s ++ cleaned t := by
  rw [cleaned, String.toList_append, List.filter_append]
  rfl

theorem foldlM_cleaned_singleton {c d : Char} (h : Text.lowerChar c = Text.lowerChar d) (n : Nat) :
    (cleaned (String.singleton c)).foldlM Hex.pushChar? n =
      (cleaned (String.singleton d)).foldlM Hex.pushChar? n := by
  have hcleaned (c : Char) : cleaned (String.singleton c) = if c = ':' then [] else [c] := by
    simp [cleaned, List.filter_cons]
  have hcolon {c d : Char} (h : Text.lowerChar c = Text.lowerChar d) (hc : c = ':') : d = ':' :=
    Text.eq_of_lowerChar_eq (by decide) (h.symm.trans (congrArg Text.lowerChar hc))
  rw [hcleaned, hcleaned]
  split
  · rename_i hc
    rw [if_pos (hcolon h hc)]
  · rename_i hc
    have hdigit : Hex.pushChar? n c = Hex.pushChar? n d := by
      rw [Hex.pushChar?, Hex.pushChar?, Hex.digitOf?, h, Hex.digitOf?]
    rw [if_neg fun hd => hc (hcolon h.symm hd), List.foldlM_cons, List.foldlM_cons, hdigit]

theorem numberOf?_cleaned (h : Respelled s t) :
    Hex.numberOf? (cleaned s) = Hex.numberOf? (cleaned t) := by
  cases h with
  | colon before after =>
    rw [cleaned_append, cleaned_append, cleaned_append, show cleaned ":" = [] from rfl,
      List.append_nil]
  | zero s =>
    have hzero : Hex.pushChar? 0 '0' = some 0 := rfl
    rw [cleaned_append, show cleaned "0" = ['0'] from rfl, Hex.numberOf?, Hex.numberOf?,
      List.singleton_append, List.foldlM_cons, hzero, Option.bind_eq_bind, Option.bind_some]
  | letter before after c d same =>
    simp only [Hex.numberOf?, cleaned_append, List.foldlM_append, foldlM_cleaned_singleton same]

/-- However a text is respelled, it is read as the same number or not at all. -/
theorem parse_respelled (h : Relation.EqvGen Respelled s t) (n : SerialNumber) :
    parse s = .ok n ↔ parse t = .ok n := by
  induction h with
  | rel s t h => rw [parse_eq_ok_iff, parse_eq_ok_iff, numberOf?_cleaned h]
  | refl s => rfl
  | symm s t _ ih => exact ih.symm
  | trans s t u _ _ hst htu => exact hst.trans htu

/-! ## Bytes -/

variable {a b : Bytes}

/-- Bytes as a serial number keeps them: no zeros in front, but one byte at least. -/
def stripped (b : Bytes) : Bytes :=
  let kept := b.dropWhile (· == 0)
  if kept = [] then [0] else kept

theorem toBytes_ofBytes (b : Bytes) : (ofBytes b).toBytes = stripped b := by
  rw [stripped, ← Bytes.ofNat_toNat]
  exact ite_congr (propext Bytes.ofNat_eq_nil_iff.symm) (fun _ => rfl) fun _ => rfl

theorem ofBytes_eq_iff : ofBytes a = ofBytes b ↔ a.toNat = b.toNat :=
  ⟨congrArg value, congrArg mk⟩

theorem stripped_eq_iff : stripped a = stripped b ↔ a.toNat = b.toNat := by
  rw [← ofBytes_eq_iff, ← toBytes_ofBytes, ← toBytes_ofBytes]
  constructor
  · intro h
    rw [← ofBytes_toBytes (ofBytes a), h, ofBytes_toBytes]
  · exact congrArg toBytes

/-! ## Words of 64 bits -/

/-- Bytes shifted into a word one by one. -/
def wordOf (b : Bytes) : UInt64 := b.foldl (fun word x => word <<< 8 ||| x.toUInt64) 0

/-- The word in the last eight bytes. -/
def lastWord (b : Bytes) : UInt64 := wordOf (b.drop (b.length - 8))

theorem toNat_shift (word : UInt64) (x : UInt8) :
    (word <<< 8 ||| x.toUInt64).toNat = (word.toNat * 256 + x.toNat) % bitLimit 64 := by
  have hx := x.toNat_lt
  have hor : word.toNat * 256 % 2 ^ 64 ||| x.toNat = word.toNat * 256 % 2 ^ 64 + x.toNat := by
    have hhigh : word.toNat * 256 % 2 ^ 64 = 2 ^ 8 * (word.toNat % 2 ^ 56) := by omega
    rw [hhigh, Nat.two_pow_add_eq_or_of_lt hx]
  rw [UInt64.toNat_or, UInt64.toNat_shiftLeft, UInt8.toNat_toUInt64, Nat.shiftLeft_eq]
  show word.toNat * 256 % 2 ^ 64 ||| x.toNat = _
  rw [hor]
  show _ = (word.toNat * 256 + x.toNat) % 2 ^ 64
  omega

/-- What is shifted out of the word is what it cannot hold. -/
theorem toNat_wordOf (b : Bytes) : (wordOf b).toNat = b.toNat % bitLimit 64 := by
  induction b using List.reverseRecOn with
  | nil => rfl
  | append_singleton b x ih =>
    rw [wordOf, List.foldl_append, List.foldl_cons, List.foldl_nil, toNat_shift, ← wordOf, ih,
      Bytes.toNat_append_singleton, Nat.add_mod, Nat.mod_mul_mod, ← Nat.add_mod]

/-- The last eight bytes are all that counts up to 64 bits. -/
theorem toNat_lastWord (b : Bytes) : (lastWord b).toNat = b.toNat % bitLimit 64 := by
  rw [lastWord, toNat_wordOf]
  by_cases hlength : b.length ≤ 8
  · rw [Nat.sub_eq_zero_of_le hlength, List.drop_zero]
  · have hlast : (b.drop (b.length - 8)).length = 8 := by
      rw [List.length_drop]
      omega
    conv => rhs; rw [← List.take_append_drop (b.length - 8) b]
    rw [Bytes.toNat_append, hlast, Nat.mul_add_mod_self_right]

/-- **A serial number is its number, however it is written.** Bytes make the same serial number,
and are kept as the same bytes, if and only if they are the same number in base 256; the text of a
serial number is read back, and a text that is respelled is read alike; the word of a serial number
is its number up to 64 bits, and all of it if it was made from a word. -/
theorem told_by_number :
    (∀ a b : Bytes, ofBytes a = ofBytes b ↔ a.toNat = b.toNat) ∧
      (∀ a b : Bytes, stripped a = stripped b ↔ a.toNat = b.toNat) ∧
      (∀ b : Bytes, (ofBytes b).toBytes = stripped b ∧ parse (ofBytes b).text = .ok (ofBytes b) ∧
        (ofBytes b).low64 = b.toNat % bitLimit 64 ∧
        (lastWord (ofBytes b).toBytes).toNat = (ofBytes b).low64) ∧
      (∀ s t, Relation.EqvGen Respelled s t → ∀ n, parse s = .ok n ↔ parse t = .ok n) ∧
      ∀ n : UInt64, lastWord (ofBytes (Bytes.ofNatWidth 8 n.toNat)).toBytes = n := by
  have hword (s : SerialNumber) : (lastWord s.toBytes).toNat = s.low64 := by
    rw [toNat_lastWord, low64]
    exact congrArg (value · % bitLimit 64) (ofBytes_toBytes s)
  refine ⟨fun _ _ => ofBytes_eq_iff, fun _ _ => stripped_eq_iff, fun b => ?_,
    fun _ _ => parse_respelled, fun n => ?_⟩
  · exact ⟨toBytes_ofBytes b, parse_text _, rfl, hword _⟩
  · refine UInt64.toNat_inj.1 ?_
    rw [hword, low64, ofBytes, Bytes.toNat_ofNatWidth, Nat.mod_mod]
    exact Nat.mod_eq_of_lt n.toNat_lt

end SerialNumber
end CertAuthority
