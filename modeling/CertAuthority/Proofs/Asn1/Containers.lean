import CertAuthority.Proofs.Asn1.Reading

/-!
# Reading containers back

What `Proofs.Asn1.Reading` says of single elements, for sequences of known content, for numbers and
bit strings, and for lists of elements that are read to their end. Where elements lie inside each
other, the lengths of the inner ones are bounded by the outer one's, so one bound on the whole is
enough to read all of it back.

* `Der.inSequence_seqOf` : the fields of a sequence are read from its parts alone;
* `Der.toNat_natContent`, `Der.of_bitsValue_bits` : numbers and bit strings;
* `Der.Reads.of_manyToEnd` : a list that is read to its end has one value for each element that was
  written, in order; and `Der.forall_of_manyToEnd` : of whatever it was read, each value is one that
  can be read;
* `Der.manyToEnd_seqOf` : a sequence of elements is read as the values that these stand for;
* `Der.Fits` : short enough to be read back, and so is what is inside;
* `Der.filling_eq_some_iff`, `Der.inWholeSequence_seqOf` : a parser that fills its container.
-/

namespace CertAuthority.Der

section

variable {r : Rules} {rest b : Bytes}

/-! ## Sequences and primitive types -/

theorem tagged_element {tag : UInt8} {content : Bytes} (ht : tag &&& 0x1f ≠ 0x1f)
    (hl : content.length < bitLimit 64) :
    tagged tag r (element tag content ++ rest) = some (content, rest) := by
  rw [tagged, bind_eq_some_iff]
  refine ⟨_, _, anyElement_element ht hl, ?_⟩
  rw [if_pos rfl]
  rfl

theorem tagged_element_ne {tag t : UInt8} {content : Bytes} (hne : tag ≠ t) :
    tagged t r (element tag content ++ rest) = none := by
  cases h : tagged t r (element tag content ++ rest) with
  | none => rfl
  | some x =>
    obtain ⟨e, b', he, hread⟩ := bind_eq_some_iff.1 h
    have htag : e.tag = tag := by
      simp only [element, List.cons_append, anyElement] at he
      split at he
      · cases he
      · split at he
        · cases he
        · split at he
          · cases he
          · rw [← (Prod.mk.inj (Option.some.inj he)).1]
    rw [if_neg (htag ▸ hne)] at hread
    cases hread

/-- An element that could be read has a length that eight octets hold. -/
theorem length_of_anyElement_element {tag : UInt8} {content : Bytes} {e : Element}
    (h : anyElement r (element tag content ++ rest) = some (e, b)) :
    content.length < bitLimit 64 := by
  refine Decidable.byContradiction fun hl => ?_
  rw [anyElement_element_eq_none hl] at h
  cases h

theorem length_of_tagged_element {tag t : UInt8} {content c : Bytes}
    (h : tagged t r (element tag content ++ rest) = some (c, b)) :
    content.length < bitLimit 64 := by
  obtain ⟨e, b', he, -⟩ := bind_eq_some_iff.1 h
  exact length_of_anyElement_element he

theorem length_le_element {tag : UInt8} {content : Bytes} :
    content.length ≤ (element tag content).length := by
  simp only [element, List.length_cons, List.length_append]
  omega

/-- Identifier octet and length octets are ten at most. -/
theorem length_element_le {tag : UInt8} {content : Bytes} (hl : content.length < bitLimit 64) :
    (element tag content).length ≤ content.length + 10 := by
  have hlength : (lengthBytes content.length).length ≤ 9 := by
    unfold lengthBytes
    split
    · exact Nat.succ_le_succ (Nat.zero_le _)
    · have hdigits := (Bytes.length_ofNat_le_iff content.length 8).2 hl
      simp only [List.length_cons]
      omega
  simp only [element, List.length_cons, List.length_append]
  omega

/-- The fields of a sequence are read from its parts, whatever follows it. -/
theorem inSequence_seqOf {α : Type} {p : Parser α} {parts : List Bytes}
    (hl : parts.flatten.length < bitLimit 64) :
    inSequence p r (seqOf parts ++ rest) = (p r parts.flatten).map fun x => (x.1, rest) := by
  have htag : tagged tagSequence r (seqOf parts ++ rest) = some (parts.flatten, rest) :=
    tagged_element (by decide) hl
  simp only [inSequence, bind, ReaderT.bind, StateT.bind, htag, Option.bind_some, within,
    Parser.parse?, Parser.runOn, Option.map_map]
  rfl

theorem length_of_inSequence_seqOf {α : Type} {p : Parser α} {parts : List Bytes} {a : α}
    (h : inSequence p r (seqOf parts ++ rest) = some (a, b)) :
    parts.flatten.length < bitLimit 64 := by
  obtain ⟨c, _, hc, -⟩ := bind_eq_some_iff.1 h
  exact length_of_tagged_element hc

/-- A leading zero that keeps the top bit clear does not count. -/
theorem toNat_natContent (n : Nat) : Bytes.toNat (natContent n) = n := by
  simp only [natContent]
  split
  · rename_i hnil
    rw [← Bytes.toNat_ofNat n, hnil]
    rfl
  · split
    · exact Bytes.toNat_ofNat n
    · have hzero : Bytes.toNat (0 :: Bytes.ofNat n) = Bytes.toNat (Bytes.ofNat n) := by
        simp [Bytes.toNat]
      rw [hzero, Bytes.toNat_ofNat]

theorem bitsOfContent?_zero (content : Bytes) :
    bitsOfContent? (0 :: content) = some (0, content) := by
  unfold bitsOfContent?
  refine if_pos ⟨by decide, ?_⟩
  split
  · rfl
  · simp [bitLimit, Nat.mod_one]

/-- A number is never empty, and its top bit is clear. -/
theorem natContent_eq_cons (n : Nat) : ∃ d ds, natContent n = d :: ds ∧ d < 128 := by
  simp only [natContent]
  split
  · exact ⟨0, [], rfl, by decide⟩
  · rename_i d ds hcons
    split
    · rename_i hd
      exact ⟨d, ds, hcons, hd⟩
    · exact ⟨0, _, rfl, by decide⟩

theorem length_natContent_le {n k : Nat} (hn : n < bitLimit (8 * k)) :
    (natContent n).length ≤ k + 1 := by
  have hdigits := (Bytes.length_ofNat_le_iff n k).2 hn
  simp only [natContent]
  split
  · exact Nat.succ_le_succ (Nat.zero_le k)
  · split
    · omega
    · rw [List.length_cons]
      omega

theorem length_nat_le {n k : Nat} (hk : k < 1000) (hn : n < bitLimit (8 * k)) :
    (nat n).length ≤ k + 11 := by
  have hcontent := length_natContent_le hn
  have hlimit : 2000 < bitLimit 64 := by decide
  have hle : (nat n).length ≤ (natContent n).length + 10 := length_element_le (by omega)
  omega

/-- A number is written in as few octets as it takes, which the distinguished rules ask for. -/
theorem isMinimalInteger_natContent (n : Nat) : isMinimalInteger (natContent n) = true := by
  have hhead := Bytes.head?_ofNat_ne_zero n
  simp only [natContent]
  split
  · rfl
  · rename_i d ds hcons
    have hd : d ≠ 0 := fun hzero => hhead (by rw [hcons, hzero]; rfl)
    split
    · rename_i hlow
      have hff : d ≠ 0xff := fun heq => absurd (heq ▸ hlow) (by decide)
      cases ds with
      | nil => rw [hcons]; rfl
      | cons e ds => simp [hcons, isMinimalInteger, hd, hff]
    · rename_i hhigh
      simp [hcons, isMinimalInteger, hhigh]

theorem natValue_nat {n : Nat} (hl : (natContent n).length < bitLimit 64) (r : Rules) :
    natValue r (nat n ++ rest) = some (n, rest) := by
  have hcontent : integerContent r (nat n ++ rest) = some (natContent n, rest) := by
    rw [integerContent, bind_eq_some_iff]
    refine ⟨_, _, tagged_element (by decide) hl, ?_⟩
    rw [bind_eq_some_iff]
    refine ⟨r, rest, rfl, ?_⟩
    rw [isMinimalInteger_natContent, if_neg (by simp)]
    rfl
  obtain ⟨d, ds, hcons, hd⟩ := natContent_eq_cons n
  have hvalue := toNat_natContent n
  rw [hcons] at hcontent hvalue
  rw [natValue, bind_eq_some_iff]
  refine ⟨_, _, hcontent, ?_⟩
  simp only [if_pos hd, hvalue]
  rfl

theorem natBelow_nat {n bound : Nat} (hn : n < bound) (hl : (natContent n).length < bitLimit 64)
    (r : Rules) (rest : Bytes) : natBelow bound r (nat n ++ rest) = some (n, rest) := by
  rw [natBelow, bind_eq_some_iff]
  refine ⟨n, rest, natValue_nat hl r, ?_⟩
  rw [if_pos hn]
  rfl

theorem oidValue_oid {arcs x : List Nat} (hx : arcsOfContent? (oidContent arcs) = some x)
    (hl : (oidContent arcs).length < bitLimit 64) :
    oidValue r (oid arcs ++ rest) = some (x, rest) := by
  rw [oidValue, bind_eq_some_iff]
  refine ⟨_, _, tagged_element (by decide) hl, ?_⟩
  rw [hx]
  rfl

theorem of_oidValue_oid {arcs x : List Nat}
    (h : oidValue r (oid arcs ++ rest) = some (x, b)) :
    arcsOfContent? (oidContent arcs) = some x ∧ b = rest := by
  obtain ⟨c, b', hc, hread⟩ := bind_eq_some_iff.1 h
  obtain ⟨rfl, rfl⟩ := of_tagged_element (by decide) hc
  cases harcs : arcsOfContent? (oidContent arcs) with
  | none =>
    rw [harcs] at hread
    cases hread
  | some arcs =>
    rw [harcs] at hread
    obtain ⟨rfl, rfl⟩ := pure_eq_some_iff.1 hread
    exact ⟨rfl, rfl⟩

theorem bitsValue_bits {content : Bytes} (hl : content.length + 1 < bitLimit 64) :
    bitsValue r (bits content ++ rest) = some (content, rest) := by
  rw [bitsValue, bind_eq_some_iff]
  refine ⟨0 :: content, rest, tagged_element (by decide) hl, ?_⟩
  rw [bitsOfContent?_zero]
  rfl

theorem of_bitsValue_bits {content x : Bytes}
    (h : bitsValue r (bits content ++ rest) = some (x, b)) : x = content ∧ b = rest := by
  obtain ⟨c, b', hc, hread⟩ := bind_eq_some_iff.1 h
  obtain ⟨rfl, rfl⟩ := of_tagged_element (by decide) hc
  rw [bitsOfContent?_zero] at hread
  obtain ⟨⟨_, found⟩, _, hfound, hread⟩ := bind_eq_some_iff.1 hread
  obtain ⟨⟨rfl, rfl⟩, rfl⟩ := pure_eq_some_iff.1 hfound
  obtain ⟨rfl, rfl⟩ := pure_eq_some_iff.1 hread
  exact ⟨rfl, rfl⟩

end

/-! ## Lists -/

theorem of_optionally {α : Type} {p : Parser α} {r : Rules} {b left : Bytes} {a : α}
    (h : p r b = some (a, left)) : optionally p r b = some (some a, left) := by
  simp only [optionally, h]

section

variable {α β γ : Type} {r : Rules} {p : Parser β} {enc : α → Bytes} {f : α → γ} {g : β → γ}
  {xs : List α} {ys : List β} {b : Bytes}

/-- `p` reads the elements of `xs` as `enc` writes them: what it takes off one of them stands for
the same as the element, and nothing behind it is taken. -/
structure Reads (r : Rules) (p : Parser β) (enc : α → Bytes) (f : α → γ) (g : β → γ)
    (xs : List α) : Prop where
  atEnd : p r [] = none
  nonempty : ∀ x ∈ xs, enc x ≠ []
  value : ∀ x ∈ xs, ∀ {rest y b}, p r (enc x ++ rest) = some (y, b) → g y = f x ∧ b = rest

theorem Reads.tail {x : α} (hp : Reads r p enc f g (x :: xs)) : Reads r p enc f g xs where
  atEnd := hp.atEnd
  nonempty y hy := hp.nonempty y (List.mem_cons_of_mem x hy)
  value y hy := hp.value y (List.mem_cons_of_mem x hy)

theorem Reads.length_le (hp : Reads r p enc f g xs) : xs.length ≤ (xs.map enc).flatten.length := by
  induction xs with
  | nil => exact Nat.zero_le _
  | cons x xs ih =>
    have hxs := ih hp.tail
    have hx := List.length_pos_iff.2 (hp.nonempty x List.mem_cons_self)
    simp only [List.length_cons, List.map_cons, List.flatten_cons, List.length_append]
    omega

theorem Reads.of_manyFuel (hp : Reads r p enc f g xs) {fuel : Nat} (hfuel : xs.length ≤ fuel)
    (h : manyFuel p fuel r (xs.map enc).flatten = some (ys, [])) :
    ys.map g = xs.map f ∧ ∀ x ∈ xs, ∃ rest, (p r (enc x ++ rest)).isSome = true := by
  induction xs generalizing fuel ys with
  | nil =>
    cases fuel with
    | zero =>
      obtain ⟨rfl, -⟩ := pure_eq_some_iff.1 h
      exact ⟨rfl, nofun⟩
    | succ fuel =>
      obtain ⟨found, rest, hfound, hread⟩ := bind_eq_some_iff.1 h
      simp only [optionally, List.map_nil, List.flatten_nil, hp.atEnd] at hfound
      obtain ⟨rfl, rfl⟩ := Prod.mk.inj (Option.some.inj hfound)
      obtain ⟨rfl, -⟩ := pure_eq_some_iff.1 hread
      exact ⟨rfl, nofun⟩
  | cons x xs ih =>
    obtain _ | fuel := fuel
    · cases hfuel
    · obtain ⟨found, rest, hfound, hread⟩ := bind_eq_some_iff.1 h
      rw [List.map_cons, List.flatten_cons] at hfound
      cases hx : p r (enc x ++ (xs.map enc).flatten) with
      | none =>
        -- reading stops here, and what is left is not empty
        simp only [optionally, hx] at hfound
        obtain ⟨rfl, rfl⟩ := Prod.mk.inj (Option.some.inj hfound)
        have hleft := (pure_eq_some_iff.1 hread).2
        exact absurd (List.append_eq_nil_iff.1 hleft).1 (hp.nonempty x List.mem_cons_self)
      | some read =>
        obtain ⟨y, b'⟩ := read
        simp only [optionally, hx] at hfound
        obtain ⟨rfl, rfl⟩ := Prod.mk.inj (Option.some.inj hfound)
        obtain ⟨hy, rfl⟩ := hp.value x List.mem_cons_self hx
        obtain ⟨ys', rest', hys, hread⟩ := bind_eq_some_iff.1 hread
        obtain ⟨rfl, rfl⟩ := pure_eq_some_iff.1 hread
        obtain ⟨hvalues, hread⟩ := ih hp.tail (Nat.le_of_succ_le_succ hfuel) hys
        refine ⟨by rw [List.map_cons, List.map_cons, hy, hvalues], fun z hz => ?_⟩
        rcases List.mem_cons.1 hz with rfl | hz
        · exact ⟨_, by rw [hx]; rfl⟩
        · exact hread z hz

/-- A list that is read to its end has one value for each element, and each element is readable. -/
theorem Reads.of_manyToEnd (hp : Reads r p enc f g xs)
    (h : manyToEnd p r (xs.map enc).flatten = some (ys, b)) :
    ys.map g = xs.map f ∧ (∀ x ∈ xs, ∃ rest, (p r (enc x ++ rest)).isSome = true) ∧ b = [] := by
  obtain ⟨values, left, hvalues, hread⟩ := bind_eq_some_iff.1 h
  obtain ⟨ended, left', hended, hread⟩ := bind_eq_some_iff.1 hread
  obtain ⟨rfl, rfl⟩ := Prod.mk.inj (Option.some.inj hended)
  split at hread
  · rename_i hempty
    obtain ⟨rfl, rfl⟩ := pure_eq_some_iff.1 hread
    obtain rfl := List.isEmpty_iff.1 hempty
    obtain ⟨whole, b', hwhole, hmany⟩ := bind_eq_some_iff.1 hvalues
    obtain ⟨rfl, rfl⟩ := Prod.mk.inj (Option.some.inj hwhole)
    obtain ⟨hmap, hread⟩ := hp.of_manyFuel hp.length_le hmany
    exact ⟨hmap, hread, rfl⟩
  · cases hread

theorem forall_of_manyFuel {P : β → Prop} (hp : ∀ {b y b'}, p r b = some (y, b') → P y) {fuel : Nat}
    {b' : Bytes} (h : manyFuel p fuel r b = some (ys, b')) : ∀ y ∈ ys, P y := by
  induction fuel generalizing b ys with
  | zero =>
    obtain ⟨rfl, -⟩ := pure_eq_some_iff.1 h
    exact nofun
  | succ fuel ih =>
    obtain ⟨found, rest, hfound, hread⟩ := bind_eq_some_iff.1 h
    cases hx : p r b with
    | none =>
      simp only [optionally, hx] at hfound
      obtain ⟨rfl, rfl⟩ := Prod.mk.inj (Option.some.inj hfound)
      obtain ⟨rfl, -⟩ := pure_eq_some_iff.1 hread
      exact nofun
    | some read =>
      simp only [optionally, hx] at hfound
      obtain ⟨rfl, rfl⟩ := Prod.mk.inj (Option.some.inj hfound)
      obtain ⟨ys', rest', hys, hread⟩ := bind_eq_some_iff.1 hread
      obtain ⟨rfl, rfl⟩ := pure_eq_some_iff.1 hread
      exact List.forall_mem_cons.2 ⟨hp hx, ih hys⟩

/-- What holds of every value that can be read holds of each in a list. -/
theorem forall_of_manyToEnd {P : β → Prop} (hp : ∀ {b y b'}, p r b = some (y, b') → P y)
    {b' : Bytes} (h : manyToEnd p r b = some (ys, b')) : ∀ y ∈ ys, P y := by
  obtain ⟨values, left, hvalues, hread⟩ := bind_eq_some_iff.1 h
  obtain ⟨ended, left', -, hread⟩ := bind_eq_some_iff.1 hread
  split at hread
  · obtain ⟨rfl, -⟩ := pure_eq_some_iff.1 hread
    obtain ⟨_, _, -, hmany⟩ := bind_eq_some_iff.1 hvalues
    exact forall_of_manyFuel hp hmany
  · cases hread

theorem manyFuel_map {enc : α → Bytes} {v : α → β} (hend : p r [] = none)
    (hp : ∀ x ∈ xs, ∀ rest, p r (enc x ++ rest) = some (v x, rest)) {fuel : Nat}
    (hfuel : xs.length ≤ fuel) :
    manyFuel p fuel r (xs.map enc).flatten = some (xs.map v, []) := by
  induction xs generalizing fuel with
  | nil =>
    cases fuel with
    | zero => rfl
    | succ fuel =>
      rw [manyFuel, bind_eq_some_iff]
      exact ⟨none, [], by simp only [optionally, List.map_nil, List.flatten_nil, hend], rfl⟩
  | cons x xs ih =>
    obtain _ | fuel := fuel
    · cases hfuel
    · rw [manyFuel, bind_eq_some_iff, List.map_cons, List.flatten_cons]
      refine ⟨some (v x), _, of_optionally (hp x List.mem_cons_self _), ?_⟩
      rw [bind_eq_some_iff]
      exact ⟨xs.map v, [], ih (fun y hy => hp y (List.mem_cons_of_mem x hy))
        (Nat.le_of_succ_le_succ hfuel), rfl⟩

/-- Values that elements stand for are read up to the last one. -/
theorem many_map {enc : α → Bytes} {v : α → β} (hend : p r [] = none)
    (hp : ∀ x ∈ xs, ∀ rest, p r (enc x ++ rest) = some (v x, rest)) :
    many p r (xs.map enc).flatten = some (xs.map v, []) := by
  have hne : ∀ x ∈ xs, enc x ≠ [] := by
    intro x hx hnil
    have hread := hp x hx []
    rw [hnil, List.append_nil, hend] at hread
    cases hread
  have hreads : Reads r p enc v id xs :=
    ⟨hend, hne, fun x hx _ y b h => by
      rw [hp x hx] at h
      obtain ⟨rfl, rfl⟩ := Prod.mk.inj (Option.some.inj h)
      exact ⟨rfl, rfl⟩⟩
  rw [many, bind_eq_some_iff]
  exact ⟨_, _, rfl, manyFuel_map hend hp hreads.length_le⟩

/-- A list is read to its end as the values that its elements stand for. -/
theorem manyToEnd_map {enc : α → Bytes} {v : α → β} (hend : p r [] = none)
    (hp : ∀ x ∈ xs, ∀ rest, p r (enc x ++ rest) = some (v x, rest)) :
    manyToEnd p r (xs.map enc).flatten = some (xs.map v, []) := by
  rw [manyToEnd, bind_eq_some_iff]
  exact ⟨xs.map v, [], many_map hend hp, rfl⟩

/-- A sequence of elements is read as the values that they stand for. -/
theorem manyToEnd_seqOf {enc : α → Bytes} {v : α → β} (hend : p r [] = none)
    (hp : ∀ x ∈ xs, ∀ rest, p r (enc x ++ rest) = some (v x, rest))
    (hl : (xs.map enc).flatten.length < bitLimit 64) (rest : Bytes) :
    (do within (manyToEnd p) (← tagged tagSequence)) r (seqOf (xs.map enc) ++ rest) =
      some (xs.map v, rest) := by
  rw [bind_eq_some_iff]
  exact ⟨_, _, tagged_element (by decide) hl,
    within_eq_some_iff.2 ⟨⟨_, manyToEnd_map hend hp⟩, rfl⟩⟩

end

/-! ## Containers in containers -/

variable {α : Type} {r : Rules} {b rest data : Bytes} {tag : UInt8} {parts : List Bytes}

/-! ## Sizes -/

/-- The length of such an element fits eight octets. -/
def Fits (b : Bytes) : Prop := b.length < bitLimit 64

theorem Fits.content (h : Fits (element tag data)) : Fits data :=
  Nat.lt_of_le_of_lt length_le_element h

theorem Fits.fields (h : Fits (seqOf parts)) : Fits parts.flatten := Fits.content h

theorem Fits.of_mem {part : Bytes} (h : Fits parts.flatten) (hpart : part ∈ parts) : Fits part := by
  have hsub := List.sublist_flatten_of_mem hpart
  exact Nat.lt_of_le_of_lt hsub.length_le h

theorem Fits.part {part : Bytes} (h : Fits (seqOf parts)) (hpart : part ∈ parts) : Fits part :=
  h.fields.of_mem hpart

/-! ## One container -/

/-- What is read whatever follows it is read alone. -/
theorem read_alone {p : Parser α} {a : α} (h : ∀ rest, p r (b ++ rest) = some (a, rest)) :
    p r b = some (a, []) := by
  have hread := h []
  rwa [List.append_nil] at hread

theorem filling_eq_some_iff {p : Parser α} {b' : Bytes} {a : α} :
    filling p data r b = some (a, b') ↔ p r data = some (a, []) ∧ b = b' := by
  unfold filling Parser.parseAll? Parser.runOn
  constructor
  · intro h
    obtain ⟨x, hx, heq⟩ := Option.map_eq_some_iff.1 h
    obtain ⟨rfl, rfl⟩ := Prod.mk.inj heq
    split at hx
    · rename_i y hy
      obtain rfl := Option.some.inj hx
      exact ⟨hy, rfl⟩
    · cases hx
  · rintro ⟨h, rfl⟩
    rw [h]
    rfl

theorem parseAll?_eq_some {p : Parser α} {a : α} (h : p r b = some (a, [])) :
    p.parseAll? r b = some a := by
  unfold Parser.parseAll? Parser.runOn
  rw [h]

theorem filling_eq_some {p : Parser α} {a : α} (h : p r data = some (a, [])) :
    filling p data r rest = some (a, rest) :=
  filling_eq_some_iff.2 ⟨h, rfl⟩

theorem inWholeSequence_seqOf {p : Parser α} {a : α} (hl : Fits (seqOf parts))
    (h : p r parts.flatten = some (a, [])) (rest : Bytes) :
    inWholeSequence p r (seqOf parts ++ rest) = some (a, rest) := by
  rw [inWholeSequence, bind_eq_some_iff]
  exact ⟨_, _, tagged_element (by decide) hl.fields, filling_eq_some h⟩

theorem taggedIf_element (ht : tag &&& 0x1f ≠ 0x1f) (hl : Fits (element tag data)) :
    taggedIf tag r (element tag data ++ rest) = some (some data, rest) := by
  rw [taggedIf, bind_eq_some_iff]
  refine ⟨some tag, _, rfl, ?_⟩
  rw [if_pos rfl]
  exact map_eq_some_iff.2 ⟨data, tagged_element ht hl.content, rfl⟩

end CertAuthority.Der
