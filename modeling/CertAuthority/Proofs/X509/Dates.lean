import CertAuthority.Proofs.Asn1.Reading
import CertAuthority.Proofs.Text.Basic
import CertAuthority.Proofs.Time.Calendar
import CertAuthority.X509.Date

/-!
# Dates written and read

A date is written as digits of fixed width, with two for a year from 1950 to 2049. So a whole second
that can be written at all is read back as itself, whatever follows it.

* `Date.digits?_padded` : a number of fixed width, off the front of a text;
* `Date.parts_spec` : the parts of a date make it up again;
* `Date.parser_encode?` : a date that was written is read.
-/

namespace CertAuthority

/-- A character takes four octets at most. -/
theorem Bytes.length_ofText_le (s : String) : (ofText s).length ≤ 4 * s.length := by
  have hlist (cs : List Char) : (String.ofList cs).utf8ByteSize ≤ 4 * cs.length := by
    induction cs with
    | nil => simp
    | cons c cs ih =>
      have hc := c.utf8Size_le_four
      rw [String.ofList_cons, String.utf8ByteSize_append, String.utf8ByteSize_singleton]
      simp only [List.length_cons]
      omega
  have hs := hlist s.toList
  rw [String.ofList_toList] at hs
  simpa [ofText, ByteArray.toList, toList_loop, String.length_toList] using hs

namespace X509.Date

open Der

/-! ## Digits -/

theorem digits?_padded {w n : Nat} (hw : 0 < w) (hn : n < Nat.pow 10 w) (rest : List Char) :
    digits? w ((Text.padded w n).toList ++ rest) = some (n, rest) := by
  have hl := Text.length_padded hw hn
  have hd : ((Text.padded w n).toList).all Text.isDigit = true :=
    List.all_eq_true.2 fun c hc => Text.isDigit_of_mem_padded hc
  rw [digits?, List.take_left' hl, List.drop_left' hl]
  simp only [hl, hd, Text.digitsValue_padded, and_self, if_true]

/-! ## Parts of a date -/

theorem afterYear?_clockText {year month day : Int} {rest : Nat} (hm : 1 ≤ month ∧ month ≤ 12)
    (hd : 1 ≤ day ∧ day ≤ daysInMonth year month) (hr : rest < 86400) :
    afterYear? year (clockText month day rest).toList =
      some (.ofSeconds (daysFromCivil year month day * 86400 + rest)) := by
  have hlength := daysInMonth_le year month
  have hz : offset? (skipFraction "Z".toList) = some 0 := rfl
  rw [clockText]
  simp only [String.toList_append, List.append_assoc]
  rw [afterYear?, digits?_padded (by decide) (show month.toNat < 100 by omega)]
  simp only [Option.bind_eq_bind, Option.bind_some, seconds?, hz,
    digits?_padded (w := 2) (by decide) (show day.toNat < 100 by omega),
    digits?_padded (w := 2) (by decide) (show rest / 3600 < 100 by omega),
    digits?_padded (w := 2) (by decide) (show rest / 60 % 60 < 100 by omega),
    digits?_padded (w := 2) (by decide) (show rest % 60 < 100 by omega),
    Int.toNat_of_nonneg (show 0 ≤ month by omega), Int.toNat_of_nonneg (show 0 ≤ day by omega)]
  rw [if_pos ⟨by omega, by omega, by omega, by omega, by omega, by omega, by omega⟩]
  congr 2
  omega

theorem length_clockText {month day : Int} {rest : Nat} (hm : 1 ≤ month ∧ month ≤ 12)
    (hd : 1 ≤ day ∧ day ≤ 31) (hr : rest < 86400) :
    (clockText month day rest).toList.length = 11 := by
  simp only [clockText, String.toList_append, List.length_append,
    Text.length_padded (w := 2) (by decide) (show month.toNat < 100 by omega),
    Text.length_padded (w := 2) (by decide) (show day.toNat < 100 by omega),
    Text.length_padded (w := 2) (by decide) (show rest / 3600 < 100 by omega),
    Text.length_padded (w := 2) (by decide) (show rest / 60 % 60 < 100 by omega),
    Text.length_padded (w := 2) (by decide) (show rest % 60 < 100 by omega)]
  rfl

/-- The parts of a whole second make it up again, and the text of the second has 11 digits. -/
theorem parts_spec {t : Instant} (hn : t.nanos = 0) :
    afterYear? (parts t).1 (parts t).2.toList = some t ∧ (parts t).2.toList.length = 11 := by
  rcases hc : civilFromDays (t.seconds.fdiv 86400) with ⟨year, month, day⟩
  obtain ⟨hm, hd, hdays⟩ := civilFromDays_spec hc
  have hlength := daysInMonth_le year month
  have hrest : 0 ≤ t.seconds.fmod 86400 ∧ t.seconds.fmod 86400 < 86400 :=
    ⟨Int.fmod_nonneg_of_pos _ (by decide), Int.fmod_lt_of_pos _ (by decide)⟩
  simp only [parts, hc]
  refine ⟨?_, length_clockText hm (by omega) (by omega)⟩
  rw [afterYear?_clockText hm hd (by omega), hdays, Int.toNat_of_nonneg hrest.1,
    Instant.ofSeconds, ← hn, Int.mul_comm, Int.mul_fdiv_add_fmod]

/-! ## Dates -/

theorem ofContent?_utc {t : Instant} (hn : t.nanos = 0)
    (hy : 1950 ≤ (parts t).1 ∧ (parts t).1 < 2050) :
    ofContent? tagUtcTime
      (Bytes.ofText (Text.padded 2 ((parts t).1 % 100).toNat ++ (parts t).2)) = some t := by
  have hyear : (if ((parts t).1 % 100).toNat < 50 then (2000 + ((parts t).1 % 100).toNat : Int)
      else 1900 + ((parts t).1 % 100).toNat) = (parts t).1 := by
    split <;> omega
  rw [ofContent?, Bytes.text?_ofText]
  simp only [Option.bind_eq_bind, Option.bind_some, if_true, String.toList_append, hyear,
    digits?_padded (w := 2) (by decide) (show ((parts t).1 % 100).toNat < 100 by omega)]
  exact (parts_spec hn).1

theorem ofContent?_generalized {t : Instant} (hn : t.nanos = 0)
    (hy : 0 ≤ (parts t).1 ∧ (parts t).1 ≤ 9999) :
    ofContent? tagGeneralizedTime (Bytes.ofText (Text.padded 4 (parts t).1.toNat ++ (parts t).2)) =
      some t := by
  have hne : tagGeneralizedTime ≠ tagUtcTime := by decide
  rw [ofContent?, Bytes.text?_ofText]
  simp only [Option.bind_eq_bind, Option.bind_some, if_neg hne, if_true, String.toList_append,
    digits?_padded (w := 4) (by decide) (show (parts t).1.toNat < 10000 by omega),
    Int.toNat_of_nonneg hy.1]
  exact (parts_spec hn).1

theorem length_content {t : Instant} (hn : t.nanos = 0) {width n : Nat}
    (hw : 0 < width ∧ width ≤ 4) (hk : n < Nat.pow 10 width) :
    (Bytes.ofText (Text.padded width n ++ (parts t).2)).length < bitLimit 64 := by
  have hb := Bytes.length_ofText_le (Text.padded width n ++ (parts t).2)
  rw [← String.length_toList, String.toList_append, List.length_append, Text.length_padded hw.1 hk,
    (parts_spec hn).2] at hb
  have hlimit : 4 * (4 + 11) < bitLimit 64 := by decide
  omega

/-- What a date is written as, always with four digits for the year. -/
theorem encodeLong?_eq_some {t : Instant} {b : Bytes} (hn : t.nanos = 0)
    (h : encodeLong? t = some b) :
    ∃ tag content, tag &&& 0x1f ≠ 0x1f ∧ content.length < bitLimit 64 ∧ b = element tag content ∧
      ofContent? tag content = some t := by
  simp only [encodeLong?] at h
  split at h
  · exact ⟨_, _, by decide, length_content hn (by decide) (show _ < 10000 by omega),
      (Option.some.inj h).symm, ofContent?_generalized hn ‹_›⟩
  · cases h

/-- What a date is written as. -/
theorem encode?_eq_some {t : Instant} {b : Bytes} (hn : t.nanos = 0) (h : encode? t = some b) :
    ∃ tag content, tag &&& 0x1f ≠ 0x1f ∧ content.length < bitLimit 64 ∧ b = element tag content ∧
      ofContent? tag content = some t := by
  simp only [encode?] at h
  split at h
  · exact ⟨_, _, by decide, length_content hn (by decide) (show _ < 100 by omega),
      (Option.some.inj h).symm, ofContent?_utc hn ‹_›⟩
  · exact encodeLong?_eq_some hn h

theorem parser_element {t : Instant} {tag : UInt8} {content : Bytes} (ht : tag &&& 0x1f ≠ 0x1f)
    (hl : content.length < bitLimit 64) (hc : ofContent? tag content = some t) (r : Rules)
    (rest : Bytes) : parser r (element tag content ++ rest) = some (t, rest) := by
  refine bind_eq_some_iff.2 ⟨_, _, anyElement_element ht hl, ?_⟩
  simp only [hc]
  rfl

/-- **A whole second that was written is read, and nothing of what follows it.** -/
theorem parser_encode? {t : Instant} {b : Bytes} (hn : t.nanos = 0) (h : encode? t = some b)
    (r : Rules) (rest : Bytes) : parser r (b ++ rest) = some (t, rest) := by
  obtain ⟨tag, content, ht, hl, rfl, hc⟩ := encode?_eq_some hn h
  exact parser_element ht hl hc r rest

theorem parse?_encodeLong? {t : Instant} {b : Bytes} (hn : t.nanos = 0)
    (h : encodeLong? t = some b) (r : Rules) : parser.parse? r b = some t := by
  obtain ⟨tag, content, ht, hl, rfl, hc⟩ := encodeLong?_eq_some hn h
  have hread := parser_element ht hl hc r []
  rw [List.append_nil] at hread
  exact congrArg (Option.map Prod.fst) hread

end X509.Date
end CertAuthority
