import CertAuthority.Asn1.Decode
import CertAuthority.Proofs.Bytes.Numbers

/-!
# Reading back what was written

An element that was written is read back as it is, with nothing of what follows it. So a parser that
takes one element off what a writer put there leaves exactly the rest.

* `Der.anyElement_element` : an element whose length fits eight octets is read back;
* `Der.anyElement_element_eq_none` : any other is refused;
* `Der.of_anyElement_element`, `Der.of_tagged_element`, `Der.of_inSequence_seqOf` : so what is read
  where an element was written is that element.
-/

namespace CertAuthority

namespace Der

/-! ## Running a parser -/

section

variable {α β : Type} {r : Rules} {b b' : Bytes}

theorem bind_eq_some_iff {p : Parser α} {f : α → Parser β} {x : β × Bytes} :
    (p >>= f) r b = some x ↔ ∃ a rest, p r b = some (a, rest) ∧ f a r rest = some x := by
  simp only [bind, ReaderT.bind, StateT.bind, Option.bind_eq_some_iff, Prod.exists]

theorem pure_eq_some_iff {a a' : α} :
    (pure a : Parser α) r b = some (a', b') ↔ a = a' ∧ b = b' := by
  exact Option.some_inj.trans (Prod.mk.injEq ..).to_iff

theorem map_eq_some_iff {p : Parser α} {f : α → β} {x : β} :
    (f <$> p) r b = some (x, b') ↔ ∃ a, p r b = some (a, b') ∧ f a = x := by
  simp only [Functor.map, StateT.map, Option.bind_eq_bind, Option.bind_eq_some_iff, Prod.exists,
    Option.pure_def, Option.some.injEq, Prod.mk.injEq]
  constructor
  · rintro ⟨a, _, ha, rfl, rfl⟩
    exact ⟨a, ha, rfl⟩
  · rintro ⟨a, ha, rfl⟩
    exact ⟨a, b', ha, rfl, rfl⟩

theorem parse?_map (p : Parser α) (f : α → β) :
    (f <$> p).parse? r b = (p.parse? r b).map f := by
  change ((p r b).bind fun x => some (f x.1, x.2)).map Prod.fst = ((p r b).map Prod.fst).map f
  cases p r b <;> rfl

theorem within_eq_some_iff {p : Parser α} {content : Bytes} {a : α} :
    within p content r b = some (a, b') ↔ (∃ left, p r content = some (a, left)) ∧ b = b' := by
  simp only [within, Parser.parse?, Parser.runOn, Option.map_eq_some_iff, Prod.exists,
    Prod.mk.injEq]
  constructor
  · rintro ⟨_, ⟨_, left, h, rfl⟩, rfl, rfl⟩
    exact ⟨⟨left, h⟩, rfl⟩
  · rintro ⟨⟨left, h⟩, rfl⟩
    exact ⟨a, ⟨a, left, h, rfl⟩, rfl, rfl⟩

end

/-! ## Elements -/

/-- An octet that announces how many octets a length has. -/
theorem toNat_announcing (k : Nat) :
    (UInt8.ofNat (min 0xff (0x80 + k))).toNat = 128 + min 127 k := by
  simp only [UInt8.toNat_ofNat']
  omega

/-- A length is read back, unless it takes more than eight octets. -/
theorem takeLength_lengthBytes (r : Rules) (n : Nat) (rest : Bytes) :
    takeLength r (lengthBytes n ++ rest) = if n < bitLimit 64 then some (n, rest) else none := by
  unfold lengthBytes
  by_cases hn : n < 128
  · have hlimit : n < bitLimit 64 := Nat.lt_trans hn (by decide)
    have hone : (UInt8.ofNat n).toNat = n := by
      simp only [UInt8.toNat_ofNat']
      omega
    have hlt : UInt8.ofNat n < 128 := UInt8.lt_iff_toNat_lt.2 (hone.symm ▸ hn)
    simp [hn, hlimit, takeLength, hlt, hone]
  · have hlength := Bytes.length_ofNat_le_iff n
    have hpos : ¬ (Bytes.ofNat n).length ≤ 0 := fun h => by
      have := (hlength 0).1 h
      simp [bitLimit] at this
      omega
    have hfirst : ¬ UInt8.ofNat (min 0xff (0x80 + (Bytes.ofNat n).length)) < 128 := by
      rw [UInt8.lt_iff_toNat_lt, toNat_announcing]
      simp
    simp only [if_neg hn, List.cons_append, takeLength, if_neg hfirst, toNat_announcing]
    by_cases hl : (Bytes.ofNat n).length ≤ 8
    · have hsize : 128 + min 127 (Bytes.ofNat n).length - 128 = (Bytes.ofNat n).length := by omega
      rw [hsize, if_neg (by simp only [List.length_append]; omega), List.take_left, List.drop_left,
        Bytes.toNat_ofNat, if_neg (by simp [hn, Bytes.head?_ofNat_ne_zero]),
        if_pos ((hlength 8).1 hl)]
    · rw [if_pos (by omega), if_neg fun h => hl ((hlength 8).2 h)]

section

variable {tag : UInt8} {content rest b : Bytes} {r : Rules} {e : Element}

/-- An element is read back with nothing of what follows it. -/
theorem anyElement_element (ht : tag &&& 0x1f ≠ 0x1f) (hl : content.length < bitLimit 64) :
    anyElement r (element tag content ++ rest) =
      some (⟨tag, content, element tag content⟩, rest) := by
  have hraw : (tag :: (lengthBytes content.length ++ (content ++ rest))).take
      ((tag :: (lengthBytes content.length ++ (content ++ rest))).length -
        ((content ++ rest).length - content.length)) =
      tag :: (lengthBytes content.length ++ content) := by
    rw [← List.append_assoc, ← List.cons_append]
    simp only [List.length_append, Nat.add_sub_cancel_left, Nat.add_sub_cancel, List.take_left]
  have hfits : ¬ (content ++ rest).length < content.length := by
    simp only [List.length_append]
    omega
  simp only [element, List.cons_append, List.append_assoc, anyElement, if_neg ht,
    takeLength_lengthBytes, if_pos hl, if_neg hfits, List.take_left, List.drop_left, hraw]

/-- A longer one is not read at all. -/
theorem anyElement_element_eq_none (hl : ¬ content.length < bitLimit 64) :
    anyElement r (element tag content ++ rest) = none := by
  simp only [element, List.cons_append, List.append_assoc, anyElement, takeLength_lengthBytes,
    if_neg hl, ite_self]

/-- What is read where an element was written is that element. -/
theorem of_anyElement_element (ht : tag &&& 0x1f ≠ 0x1f)
    (h : anyElement r (element tag content ++ rest) = some (e, b)) :
    e = ⟨tag, content, element tag content⟩ ∧ b = rest := by
  by_cases hl : content.length < bitLimit 64
  · rw [anyElement_element ht hl] at h
    obtain ⟨rfl, rfl⟩ := Prod.mk.inj (Option.some.inj h)
    exact ⟨rfl, rfl⟩
  · rw [anyElement_element_eq_none hl] at h
    cases h

/-! ## Readers of one element -/

theorem of_tagged_element {t : UInt8} {c : Bytes} (ht : tag &&& 0x1f ≠ 0x1f)
    (h : tagged t r (element tag content ++ rest) = some (c, b)) : c = content ∧ b = rest := by
  obtain ⟨e, b', he, hread⟩ := bind_eq_some_iff.1 h
  obtain ⟨rfl, rfl⟩ := of_anyElement_element ht he
  split at hread
  · obtain ⟨rfl, rfl⟩ := pure_eq_some_iff.1 hread
    exact ⟨rfl, rfl⟩
  · cases hread

/-- An optional element is taken where it was written. -/
theorem of_taggedIf_element {c : Option Bytes} (ht : tag &&& 0x1f ≠ 0x1f)
    (h : taggedIf tag r (element tag content ++ rest) = some (c, b)) :
    c = some content ∧ b = rest := by
  obtain ⟨next, b', hpeek, hread⟩ := bind_eq_some_iff.1 h
  obtain ⟨rfl, rfl⟩ := Prod.mk.inj (Option.some.inj hpeek)
  rw [if_pos (show (element tag content ++ rest).head? = some tag from rfl)] at hread
  obtain ⟨c', hc, rfl⟩ := map_eq_some_iff.1 hread
  obtain ⟨rfl, rfl⟩ := of_tagged_element ht hc
  exact ⟨rfl, rfl⟩

/-- Whatever is read in a sequence, nothing behind it is. -/
theorem of_inSequence_seqOf {α : Type} {p : Parser α} {parts : List Bytes} {a : α}
    (h : inSequence p r (seqOf parts ++ rest) = some (a, b)) :
    (∃ left, p r parts.flatten = some (a, left)) ∧ b = rest := by
  obtain ⟨c, b', hc, hread⟩ := bind_eq_some_iff.1 h
  obtain ⟨rfl, rfl⟩ := of_tagged_element (by decide) hc
  obtain ⟨hp, rfl⟩ := within_eq_some_iff.1 hread
  exact ⟨hp, rfl⟩

end

end Der
end CertAuthority
