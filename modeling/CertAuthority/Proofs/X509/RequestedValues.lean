import CertAuthority.Proofs.Text.Basic
import CertAuthority.Proofs.X509.GeneralNames
import CertAuthority.X509.ExtensionPlan
import Mathlib.Data.List.Sublists

/-!
# Values of requested extensions

What a signing request asks for is read back from the values of its extensions, as far as these are
interpreted.

* `readValue?_usageBits` : the set of key usages, which is all that their bits hold
  (`usageBits_congr`);
* `Role.bytes` : basic constraints, and `Role.readValue?_bytes` : their text;
* `Askable` : values of all kinds but purposes, and `Askable.eq_of_readValue?` : each is read as
  something else;
* `purposes?` : the purposes in a value, and `purposes?_seqOf` : they can be read where they were
  written;
* `SamePurposes` : the named purposes as a set, the others in the order in which they come first,
  and `purposeTokens_inj_iff` : that is what is read of them.
-/

namespace CertAuthority.X509

open Der

/-! ## Key usages -/

namespace KeyUsage

theorem mem_all (u : KeyUsage) : u ∈ all := by
  cases u <;> decide

theorem name_inj {u v : KeyUsage} (h : u.name = v.name) : u = v := by
  have hall : ∀ u ∈ all, ∀ v ∈ all, u.name = v.name → u = v := by decide
  exact hall u u.mem_all v v.mem_all h

end KeyUsage

section

variable {us us' : List KeyUsage}

theorem foldl_max_le_iff {n k : Nat} :
    us.foldl (fun n u => max n u.bit) n ≤ k ↔ n ≤ k ∧ ∀ u ∈ us, u.bit ≤ k := by
  induction us generalizing n with
  | nil => simp
  | cons u us ih =>
    rw [List.foldl_cons, ih, List.forall_mem_cons, Nat.max_le, and_assoc]

theorem testBit_foldl_or {n i : Nat} (g : KeyUsage → Nat) :
    (us.foldl (fun n u => n ||| g u) n).testBit i =
      (n.testBit i || us.any fun u => (g u).testBit i) := by
  induction us generalizing n with
  | nil => simp
  | cons u us ih => rw [List.foldl_cons, ih, Nat.testBit_or, List.any_cons, Bool.or_assoc]

/-- The bits say which usages there are, and nothing else. -/
theorem usageBits_congr (h : ∀ u, u ∈ us ↔ u ∈ us') : usageBits us = usageBits us' := by
  have hlast : us.foldl (fun n u => max n u.bit) 0 = us'.foldl (fun n u => max n u.bit) 0 := by
    refine Nat.le_antisymm ?_ ?_
    · rw [foldl_max_le_iff]
      exact ⟨Nat.zero_le _, fun u hu => (foldl_max_le_iff.1 (Nat.le_refl _)).2 u ((h u).1 hu)⟩
    · rw [foldl_max_le_iff]
      exact ⟨Nat.zero_le _, fun u hu => (foldl_max_le_iff.1 (Nat.le_refl _)).2 u ((h u).2 hu)⟩
  have hbits (g : KeyUsage → Nat) :
      us.foldl (fun n u => n ||| g u) 0 = us'.foldl (fun n u => n ||| g u) 0 := by
    refine Nat.eq_of_testBit_eq fun i => ?_
    rw [testBit_foldl_or, testBit_foldl_or, Bool.eq_iff_iff]
    simp only [Bool.or_eq_true, List.any_eq_true, h]
  simp only [usageBits, hlast, hbits]

/-- The usages in the order of their bits. -/
def orderedUsages (us : List KeyUsage) : List KeyUsage := KeyUsage.all.filter (us.contains ·)

theorem mem_orderedUsages {u : KeyUsage} : u ∈ orderedUsages us ↔ u ∈ us := by
  simp [orderedUsages, KeyUsage.mem_all]

/-- Usages are read in the order of their bits. -/
theorem readValue?_usageBits (us : List KeyUsage) :
    readValue? .keyUsage (usageBits us) = some (.ofTokens ((orderedUsages us).map (·.name))) := by
  have hall : ∀ us ∈ KeyUsage.all.sublists,
      readValue? .keyUsage (usageBits us) = some (.ofTokens (us.map (·.name))) := by
    decide +kernel
  rw [← usageBits_congr fun _ => mem_orderedUsages]
  exact hall _ (List.mem_sublists.2 List.filter_sublist)

theorem usageBits_eq_of_readValue?
    (h : readValue? .keyUsage (usageBits us) = readValue? .keyUsage (usageBits us')) :
    usageBits us = usageBits us' := by
  rw [readValue?_usageBits, readValue?_usageBits, Option.some_inj] at h
  have hordered := (List.map_inj_right fun _ _ => KeyUsage.name_inj).1 (ofTokens_inj h)
  refine usageBits_congr fun u => ?_
  rw [← mem_orderedUsages, hordered, mem_orderedUsages]

end

/-! ## Basic constraints -/

namespace Role

/-- The value of basic constraints. -/
def bytes : Role → Bytes
  | .unstated => []
  | .endEntity => seqOf [boolean false]
  | .authority n => seqOf ([boolean true] ++ (n.map nat).toList)

/-- The text of basic constraints. -/
def tokens : Role → List String
  | .unstated => []
  | .endEntity => constraintTokens false none
  | .authority n => constraintTokens true n

/-- A role is stated, and a path length is one byte. -/
def IsStated (role : Role) : Prop :=
  role ≠ .unstated ∧ ∀ n, role = .authority (some n) → n < 256

/-- A field as it is written. -/
def fieldBytes (e : UInt8 × Bytes) : Bytes := element e.1 e.2

/-- A field as it is read. -/
def fieldElement (e : UInt8 × Bytes) : Element := ⟨e.1, e.2, element e.1 e.2⟩

theorem readValue?_fields {fields : List (UInt8 × Bytes)} {ca : Bool} {n : Option Nat}
    (htag : ∀ e ∈ fields, e.1 &&& 0x1f ≠ 0x1f)
    (hl : (fields.map fieldBytes).flatten.length < bitLimit 64)
    (hread : constraintFields (fields.map fieldElement) = some (ca, n)) :
    readValue? .basicConstraints (seqOf (fields.map fieldBytes)) =
      some (.ofTokens (constraintTokens ca n)) := by
  have hfields := manyToEnd_seqOf (p := anyElement) (r := .tolerant) (v := fieldElement) rfl
    (fun e he rest => by
      have hpart : fieldBytes e ∈ fields.map fieldBytes := List.mem_map_of_mem he
      have hlength := (List.sublist_flatten_of_mem hpart).length_le
      exact anyElement_element (htag e he)
        (Nat.lt_of_le_of_lt length_le_element (Nat.lt_of_le_of_lt hlength hl)))
    hl []
  have hvalue : basicConstraints .tolerant (seqOf (fields.map fieldBytes) ++ []) =
      some (.ofTokens (constraintTokens ca n), []) := by
    obtain ⟨content, rest, hcontent, hwithin⟩ := bind_eq_some_iff.1 hfields
    rw [basicConstraints, bind_eq_some_iff]
    refine ⟨content, rest, hcontent, ?_⟩
    rw [bind_eq_some_iff]
    refine ⟨_, _, hwithin, ?_⟩
    rw [hread]
    rfl
  rw [List.append_nil] at hvalue
  exact congrArg (Option.map Prod.fst) hvalue

theorem readValue?_bytes {role : Role} (hrole : role.IsStated) :
    readValue? .basicConstraints role.bytes = some (.ofTokens role.tokens) := by
  match role with
  | .unstated => exact absurd rfl hrole.1
  | .endEntity =>
    change readValue? _ (seqOf ([(tagBoolean, [0])].map fieldBytes)) = _
    exact readValue?_fields (by decide) (by decide) rfl
  | .authority none =>
    change readValue? _ (seqOf ([(tagBoolean, [0xff])].map fieldBytes)) = _
    exact readValue?_fields (by decide) (by decide) rfl
  | .authority (some n) =>
    have hn := hrole.2 n rfl
    have hlength : (nat n).length ≤ 12 := length_nat_le (k := 1) (by decide) hn
    have hcontent : (natContent n).length ≤ (nat n).length := length_le_element
    have hlimit : 16 < bitLimit 64 := by decide
    change readValue? _
      (seqOf ([(tagBoolean, [0xff]), (tagInteger, natContent n)].map fieldBytes)) = _
    refine readValue?_fields ?_ ?_ ?_
    · rw [List.forall_mem_cons, List.forall_mem_singleton]
      exact ⟨by decide, show tagInteger &&& 0x1f ≠ 0x1f by decide⟩
    · have hfirst : (fieldBytes (tagBoolean, [0xff])).length = 3 := by decide
      rw [List.map_cons, List.map_singleton, List.flatten_cons, List.flatten_singleton,
        List.length_append, hfirst, show fieldBytes (tagInteger, natContent n) = nat n from rfl]
      omega
    · have hbound : n < bitLimit 32 := Nat.lt_trans hn (by decide)
      have hnat := parseAll?_eq_some
        (read_alone (natBelow_nat hbound (by omega) .tolerant))
      change ((natBelow (bitLimit 32)).parseAll? .tolerant (nat n)).bind _ = _
      rw [hnat]
      rfl

theorem tokens_inj {role role' : Role} (h : role.tokens = role'.tokens) : role = role' := by
  match role, role' with
  | .unstated, .unstated | .endEntity, .endEntity | .authority none, .authority none => rfl
  | .authority (some n), .authority (some n') =>
    have htext := List.singleton_inj.1 (List.cons.inj h).2
    rw [Text.toString_inj ((String.append_right_inj _).1 htext)]
  | .authority none, .authority (some _) | .authority (some _), .authority none =>
    cases (List.cons.inj h).2
  | .unstated, .endEntity | .unstated, .authority _ => cases h
  | .endEntity, .unstated | .authority _, .unstated => cases h
  | .endEntity, .authority _ | .authority _, .endEntity =>
    exact absurd (List.cons.inj h).1 (by decide)

end Role

/-! ## Values that are told -/

/-- A value that a signing request for the key can ask for, purposes apart. -/
inductive Askable (key : SubjectKey) : ExtensionKind → Bytes → Prop where
  | keyUsage (us : List KeyUsage) : Askable key .keyUsage (usageBits us)
  | role {role : Role} (hrole : role.IsStated) : Askable key .basicConstraints role.bytes
  | alternativeNames {names : List GeneralName} (hnames : ∀ n ∈ names, n.IsRequestable)
    (hl : (seqOf (names.map GeneralName.encode)).length < bitLimit 64) :
    Askable key .subjectAltName (seqOf (names.map GeneralName.encode))
  | identifier (hl : (octets key.bitsHash).length < bitLimit 64) :
    Askable key .subjectKeyIdentifier (octets key.bitsHash)

namespace Askable

variable {key : SubjectKey} {k : ExtensionKind} {v v' : Bytes}

theorem isRequestable (h : Askable key k v) : requestableKinds.contains k = true := by
  cases h <;> rfl

theorem isSome_readValue? (h : Askable key k v) : (readValue? k v).isSome = true := by
  cases h with
  | keyUsage us => rw [readValue?_usageBits]; rfl
  | role hrole => rw [Role.readValue?_bytes hrole]; rfl
  | alternativeNames hnames hl =>
    rw [readValue?_subjectAltName, alternativeNames?_seqOf hnames hl]
    rfl
  | identifier hl =>
    have hread : subjectKeyIdentifier .tolerant (octets key.bitsHash ++ []) =
        some (.present, []) := by
      rw [subjectKeyIdentifier, bind_eq_some_iff]
      exact ⟨_, _, tagged_element (by decide) (Nat.lt_of_le_of_lt length_le_element hl), rfl⟩
    rw [List.append_nil] at hread
    change ((subjectKeyIdentifier .tolerant (octets key.bitsHash)).map Prod.fst).isSome = true
    rw [hread]
    rfl

/-- No two values are read as the same. -/
theorem eq_of_readValue? (h : Askable key k v) (h' : Askable key k v')
    (hread : readValue? k v = readValue? k v') : v = v' := by
  cases h with
  | keyUsage us =>
    obtain ⟨us'⟩ := h'
    exact usageBits_eq_of_readValue? hread
  | role hrole =>
    obtain - | hrole' := h'
    rw [Role.readValue?_bytes hrole, Role.readValue?_bytes hrole', Option.some_inj] at hread
    rw [Role.tokens_inj (ofTokens_inj hread)]
  | alternativeNames hnames hl =>
    obtain - | - | ⟨hnames', hl'⟩ := h'
    rw [readValue?_subjectAltName, readValue?_subjectAltName, alternativeNames?_seqOf hnames hl,
      alternativeNames?_seqOf hnames' hl', Option.map_some, Option.map_some,
      Option.some_inj] at hread
    rw [GeneralName.eq_of_map_text hnames (ofTokens_inj hread)]
  | identifier hl =>
    cases h'
    rfl

end Askable

/-! ## Purposes -/

section

variable {arcs arcs' : List Nat} {os os' : List (List Nat)}

theorem suffix_arcBytes {n : Nat} {acc : Bytes} (hacc : acc ≠ []) : acc <:+ arcBytes n acc := by
  induction n using Nat.strongRecOn generalizing acc with
  | ind n ih =>
    rw [arcBytes.eq_def]
    split
    · split
      · exact absurd rfl hacc
      · exact List.suffix_cons _ _
    · exact (List.suffix_cons _ _).trans (ih (n / 128) (by omega) (List.cons_ne_nil _ _))

/-- The last group of an arc is not marked. -/
theorem exists_getLast?_arcBytes (n : Nat) : ∃ b < 128, (arcBytes n []).getLast? = some b := by
  have hlow (m : Nat) (hm : m < 128) : UInt8.ofNat m < 128 := by
    rw [UInt8.lt_iff_toNat_lt, UInt8.toNat_ofNat', Nat.mod_eq_of_lt (by omega)]
    exact hm
  rw [arcBytes.eq_def]
  split
  · exact ⟨_, hlow n ‹_›, rfl⟩
  · obtain ⟨init, hinit⟩ := suffix_arcBytes (n := n / 128) (List.cons_ne_nil
      (UInt8.ofNat (n % 128 + 0)) [])
    refine ⟨_, hlow (n % 128) (Nat.mod_lt _ (by decide)), ?_⟩
    exact hinit ▸ List.getLast?_concat

theorem exists_getLast?_flatMap_arcBytes (hne : arcs ≠ []) :
    ∃ b < 128, (arcs.flatMap fun n => arcBytes n []).getLast? = some b := by
  induction arcs with
  | nil => exact absurd rfl hne
  | cons n arcs ih =>
    rw [List.flatMap_cons, List.getLast?_append]
    cases arcs with
    | nil => exact exists_getLast?_arcBytes n
    | cons n' arcs =>
      obtain ⟨b, hb, hlast⟩ := ih (List.cons_ne_nil _ _)
      exact ⟨b, hb, by rw [hlast]; rfl⟩

/-- Identifiers that were written can be read. -/
theorem isSome_arcsOfContent? (h : isOid arcs = true) :
    (arcsOfContent? (oidContent arcs)).isSome = true := by
  match arcs with
  | [] | [_] => cases h
  | a :: b :: arcs =>
    obtain ⟨last, hlow, hlast⟩ :=
      exists_getLast?_flatMap_arcBytes (List.cons_ne_nil (a * 40 + b) arcs)
    cases hcontent : oidContent (a :: b :: arcs) with
    | nil =>
      rw [oidContent] at hcontent
      rw [hcontent] at hlast
      cases hlast
    | cons first rest =>
      rw [oidContent] at hcontent
      rw [hcontent] at hlast
      cases rest with
      | nil =>
        obtain rfl := Option.some.inj hlast
        rw [arcsOfContent?, if_pos ⟨by decide, .inl hlow⟩]
        rfl
      | cons next rest =>
        rw [List.getLast?_cons_cons] at hlast
        rw [arcsOfContent?, hlast, if_pos ⟨hlow, .inr (List.cons_ne_nil _ _)⟩]
        rfl

theorem two_le_length_of_arcsOfContent? {content : Bytes} (h : arcsOfContent? content = some arcs) :
    2 ≤ arcs.length := by
  unfold arcsOfContent? at h
  split at h
  · cases h
  · split at h
    · rw [← Option.some.inj h]
      exact Nat.le_add_left 2 _
    · cases h

/-- The purposes in the value of an extension, if it can be read. -/
def purposes? (value : Bytes) : Option (List (List Nat)) :=
  Parser.parse? (do within (manyToEnd oidValue) (← tagged tagSequence)) .tolerant value

theorem two_le_length_of_purposes? {value : Bytes} (h : purposes? value = some os) :
    ∀ o ∈ os, 2 ≤ o.length := by
  obtain ⟨⟨_, left⟩, hread, rfl⟩ := Option.map_eq_some_iff.1 h
  obtain ⟨content, _, -, hread⟩ := bind_eq_some_iff.1 hread
  obtain ⟨⟨_, hmany⟩, -⟩ := within_eq_some_iff.1 hread
  refine forall_of_manyToEnd (fun hread => ?_) hmany
  obtain ⟨content, _, -, hread⟩ := bind_eq_some_iff.1 hread
  cases ho : arcsOfContent? content with
  | none =>
    rw [ho] at hread
    cases hread
  | some o =>
    rw [ho] at hread
    exact (pure_eq_some_iff.1 hread).1 ▸ two_le_length_of_arcsOfContent? ho

theorem of_mapM_purposeValue {values : List Bytes} (h : os.mapM purposeValue = .ok values) :
    values = os.map oid ∧ ∀ o ∈ os, isOid o = true := by
  have hvalue {o : List Nat} {b : Bytes} (h : purposeValue o = .ok b) :
      isOid o = true ∧ b = oid o := by
    unfold purposeValue at h
    split at h
    · rename_i hoid
      exact ⟨hoid.1, (Except.ok.inj h).symm⟩
    · cases h
  refine ⟨?_, fun o ho => ?_⟩
  · have hmap := (Outcome.of_mapM (P := fun _ => True) (g := id) (k := oid)
      (fun o _ b hb => ⟨trivial, (hvalue hb).2⟩) h).2
    rwa [List.map_id] at hmap
  · obtain ⟨b, hb⟩ := Outcome.exists_eq_ok_of_mapM h o ho
    exact (hvalue hb).1

/-- Purposes that were written can be read, each on its own. -/
theorem purposes?_seqOf {values : List Bytes} (h : os.mapM purposeValue = .ok values)
    (hl : (seqOf values).length < bitLimit 64) :
    purposes? (seqOf values) =
      some (os.map fun o => (arcsOfContent? (oidContent o)).getD []) := by
  obtain ⟨rfl, hoids⟩ := of_mapM_purposeValue h
  have hcontent := Nat.lt_of_le_of_lt length_le_element hl
  have hread := manyToEnd_seqOf (p := oidValue) (r := .tolerant)
    (v := fun o => (arcsOfContent? (oidContent o)).getD []) rfl
    (fun o ho rest => by
      obtain ⟨x, hx⟩ := Option.isSome_iff_exists.1 (isSome_arcsOfContent? (hoids o ho))
      have hpart : oid o ∈ os.map oid := List.mem_map_of_mem ho
      have hlength := (List.sublist_flatten_of_mem hpart).length_le
      rw [hx]
      exact oidValue_oid hx (Nat.lt_of_le_of_lt length_le_element
        (Nat.lt_of_le_of_lt hlength hcontent)))
    hcontent []
  rw [List.append_nil] at hread
  exact congrArg (Option.map Prod.fst) hread

/-! ## Texts of purposes -/

/-- The purposes that have no name, each where it comes first. -/
def otherPurposes (os : List (List Nat)) : List (List Nat) :=
  (distinct os).filter fun o => !(Purpose.all.map (·.oid)).contains o

/-- The texts of purposes. -/
def purposeTokens (os : List (List Nat)) : List String :=
  (Purpose.all.filter fun p => (distinct os).contains p.oid).map (·.name) ++
    (otherPurposes os).map dotted

theorem readValue?_extendedKeyUsage (value : Bytes) :
    readValue? .extendedKeyUsage value =
      (purposes? value).map fun os => .ofTokens (purposeTokens os) := by
  have hparser : extendedKeyUsage = (fun os => .ofTokens (purposeTokens os)) <$>
      (do within (manyToEnd oidValue) (← tagged tagSequence)) := by
    rw [extendedKeyUsage, map_eq_pure_bind, bind_assoc]
    rfl
  change extendedKeyUsage.parse? .tolerant value = _
  rw [hparser, parse?_map]
  rfl

/-- The same named purposes, and the same others in the order in which they come first. -/
structure SamePurposes (os os' : List (List Nat)) : Prop where
  named : ∀ p : Purpose, p.oid ∈ os ↔ p.oid ∈ os'
  others : otherPurposes os = otherPurposes os'

theorem mem_distinct {α : Type} [BEq α] [LawfulBEq α] {a : α} {items : List α} :
    a ∈ distinct items ↔ a ∈ items := by
  have hfold : ∀ out : List α,
      a ∈ items.foldl (fun out a => if out.contains a then out else out ++ [a]) out ↔
        a ∈ out ∨ a ∈ items := by
    induction items with
    | nil => simp
    | cons b items ih =>
      intro out
      rw [List.foldl_cons, ih, List.mem_cons]
      split
      · rename_i hb
        have hmem : a = b → a ∈ out := fun h => h ▸ List.contains_iff_mem.1 hb
        tauto
      · rw [List.mem_append, List.mem_singleton, or_assoc]
  exact (hfold []).trans (by simp)

theorem toList_dotted (arcs : List Nat) :
    (dotted arcs).toList = ['.'].intercalate (arcs.map (Nat.toDigits 10)) := by
  rw [dotted, String.toList_intercalate, List.map_map]
  simp only [Function.comp_def, Nat.toString_eq_repr, Nat.toList_repr]
  rfl

theorem dot_mem_dotted (h : 2 ≤ arcs.length) : '.' ∈ (dotted arcs).toList := by
  match arcs with
  | a :: b :: arcs =>
    rw [toList_dotted, List.map_cons, List.map_cons, List.intercalate_cons_cons]
    simp

/-- No digit is a dot. -/
theorem splitChars_dotted (h : 2 ≤ arcs.length) :
    Text.splitChars '.' (dotted arcs).toList = arcs.map (Nat.toDigits 10) := by
  rw [toList_dotted]
  refine Text.splitChars_intercalate ?_ ?_
  · intro hnil
    rw [List.map_eq_nil_iff.1 hnil] at h
    cases h
  · rintro p hp
    obtain ⟨n, -, rfl⟩ := List.mem_map.1 hp
    exact fun hdot => absurd (Text.isDigit_of_mem_toDigits hdot) (by decide)

theorem map_dotted_inj (hos : ∀ o ∈ os, 2 ≤ o.length) (hos' : ∀ o ∈ os', 2 ≤ o.length)
    (h : os.map dotted = os'.map dotted) : os = os' := by
  have hsplit {os : List (List Nat)} (hos : ∀ o ∈ os, 2 ≤ o.length) :
      (os.map dotted).map (fun s => Text.splitChars '.' s.toList) =
        os.map (List.map (Nat.toDigits 10)) := by
    rw [List.map_map]
    exact List.map_congr_left fun o ho => splitChars_dotted (hos o ho)
  refine List.map_injective_iff.2 (List.map_injective_iff.2 fun _ _ => Text.toDigits_inj) ?_
  rw [← hsplit hos, ← hsplit hos', h]

theorem Purpose.dot_notMem_name (p : Purpose) : '.' ∉ p.name.toList := by
  cases p <;> decide

theorem Purpose.mem_all (p : Purpose) : p ∈ all := by
  cases p <;> decide

theorem Purpose.name_inj {p p' : Purpose} (h : p.name = p'.name) : p = p' := by
  cases p <;> cases p' <;> first | rfl | exact absurd h (by decide)

/-- Lists that are split at what only their second parts have are equal part by part. -/
theorem append_inj_of_forall {α : Type} {q : α → Bool} {xs xs' ys ys' : List α}
    (hxs : ∀ a ∈ xs, q a = false) (hxs' : ∀ a ∈ xs', q a = false) (hys : ∀ a ∈ ys, q a = true)
    (hys' : ∀ a ∈ ys', q a = true) (h : xs ++ ys = xs' ++ ys') : xs = xs' ∧ ys = ys' := by
  have hfilter {xs ys : List α} (hxs : ∀ a ∈ xs, q a = false) (hys : ∀ a ∈ ys, q a = true) :
      (xs ++ ys).filter q = ys := by
    rw [List.filter_append, List.filter_eq_nil_iff.2 fun a ha => by simp [hxs a ha],
      List.filter_eq_self.2 hys, List.nil_append]
  have hsecond : ys = ys' := by rw [← hfilter hxs hys, h, hfilter hxs' hys']
  exact ⟨List.append_cancel_right (hsecond ▸ h), hsecond⟩

/-- The texts tell the purposes, except for the order of the named ones. -/
theorem purposeTokens_inj_iff (hos : ∀ o ∈ os, 2 ≤ o.length) (hos' : ∀ o ∈ os', 2 ≤ o.length) :
    purposeTokens os = purposeTokens os' ↔ SamePurposes os os' := by
  have hnamed (os : List (List Nat)) : ∀ s ∈ (Purpose.all.filter fun p =>
      (distinct os).contains p.oid).map (·.name), s.toList.contains '.' = false := by
    rintro s hs
    obtain ⟨p, -, rfl⟩ := List.mem_map.1 hs
    simp [p.dot_notMem_name]
  have hlong {os : List (List Nat)} (hos : ∀ o ∈ os, 2 ≤ o.length) :
      ∀ o ∈ otherPurposes os, 2 ≤ o.length :=
    fun o ho => hos o (mem_distinct.1 (List.mem_of_mem_filter ho))
  have hothers {os : List (List Nat)} (hos : ∀ o ∈ os, 2 ≤ o.length) :
      ∀ s ∈ (otherPurposes os).map dotted, s.toList.contains '.' = true := by
    rintro s hs
    obtain ⟨o, ho, rfl⟩ := List.mem_map.1 hs
    simp [dot_mem_dotted (hlong hos o ho)]
  constructor
  · intro h
    obtain ⟨hnames, hdotted⟩ :=
      append_inj_of_forall (hnamed os) (hnamed os') (hothers hos) (hothers hos') h
    have hsame := (List.map_inj_right fun _ _ => Purpose.name_inj).1 hnames
    refine ⟨fun p => ?_, ?_⟩
    · have hmem := congrArg (p ∈ ·) hsame
      simpa [List.mem_filter, p.mem_all, mem_distinct] using hmem
    · exact map_dotted_inj (hlong hos) (hlong hos') hdotted
  · rintro ⟨hsame, hother⟩
    have hfilter : (Purpose.all.filter fun p => (distinct os).contains p.oid) =
        Purpose.all.filter fun p => (distinct os').contains p.oid := by
      refine List.filter_congr fun p _ => ?_
      rw [Bool.eq_iff_iff, List.contains_iff_mem, List.contains_iff_mem, mem_distinct,
        mem_distinct, hsame]
    rw [purposeTokens, purposeTokens, hfilter, hother]

end

end CertAuthority.X509
