import CertAuthority.Proofs.Asn1.Containers
import CertAuthority.Proofs.Name.Issued

/-!
# Issued names as they are read

A name that was written is read back with the attributes it was written from, in their order, so the
view of a subject tells all of it.

* `IssuedName.stored` : what a written name is read as, and `Name.parser_encode` about it;
* `Name.view_stored_ofView` : its view, and `Name.view_of_parse?_ofView` : the view of what is read;
* `CertificatePlan.exists_ofView` : the subjects of certificates are such names.
-/

namespace CertAuthority

namespace X509

open Der

namespace IssuedName

theorem put_of_notMem (o : List Nat) (value : UInt8 × Bytes)
    (out : List (List Nat × UInt8 × Bytes)) (h : o ∉ out.map (·.1)) :
    put o value out = out ++ [(o, value)] := by
  induction out with
  | nil => rfl
  | cons p out ih =>
    rw [List.map_cons, List.mem_cons, not_or] at h
    rw [put, if_neg fun heq => h.1 heq.symm, ih h.2]
    rfl

/-- An attribute as it is written. -/
def entryOf (p : NameAttribute × String) : List Nat × UInt8 × Bytes :=
  (p.1.arcs, tagUtf8, Bytes.ofText p.2)

theorem entries_ofView {dn : DistinguishedName} (h : dn.IsUnique) :
    (ofView dn).entries = dn.entries.map entryOf := by
  have hnodup : ((([] : List (List Nat × UInt8 × Bytes)) ++ dn.entries.map entryOf).map
      (·.1)).Nodup := by
    rw [List.nil_append, List.map_map]
    have harcs := (DistinguishedName.nodup_of_isUnique h).map fun _ _ => NameAttribute.arcs_inj
    rwa [List.map_map] at harcs
  have hfold := foldl_put_eq_append put_of_notMem hnodup
  rw [List.foldl_map] at hfold
  exact hfold

theorem isEmpty_ofView {dn : DistinguishedName} (h : dn.IsUnique) :
    (ofView dn).isEmpty = dn.isEmpty := by
  rw [isEmpty, entries_ofView h, List.isEmpty_map, DistinguishedName.isEmpty]

/-! ## Reading -/

/-- The set that an entry is written as. -/
def writtenSet (e : List Nat × UInt8 × Bytes) : Bytes :=
  element tagSet (seqOf [oid e.1, element e.2.1 e.2.2])

theorem encode_eq (n : IssuedName) : n.encode = seqOf (n.entries.map writtenSet) := rfl

/-- An entry as it is read. -/
def storedEntry (e : List Nat × UInt8 × Bytes) : NameEntry :=
  ⟨e.1, ⟨e.2.1, e.2.2, element e.2.1 e.2.2⟩⟩

/-- The name as it is read: each attribute is in a set of its own. -/
def stored (n : IssuedName) : Name := ⟨n.entries.map fun e => [storedEntry e]⟩

/-- The identifier is read back, and the kind of string has an identifier of one octet. -/
def IsReadable (e : List Nat × UInt8 × Bytes) : Prop :=
  arcsOfContent? (oidContent e.1) = some e.1 ∧ e.2.1 &&& 0x1f ≠ 0x1f

end IssuedName

namespace Name

open IssuedName

variable {r : Rules} {e : List Nat × UInt8 × Bytes} {n : IssuedName}

theorem entry_seqOf (he : IsReadable e)
    (hl : (seqOf [oid e.1, element e.2.1 e.2.2]).length < bitLimit 64) (rest : Bytes) :
    entry r (seqOf [oid e.1, element e.2.1 e.2.2] ++ rest) = some (storedEntry e, rest) := by
  have hcontent := Nat.lt_of_le_of_lt length_le_element hl
  simp only [List.flatten_cons, List.flatten_nil, List.append_nil, List.length_append] at hcontent
  have hoid : (oidContent e.1).length < bitLimit 64 := by
    have hle : (oidContent e.1).length ≤ (oid e.1).length := length_le_element
    omega
  have hvalue : e.2.2.length < bitLimit 64 := by
    have hle : e.2.2.length ≤ (element e.2.1 e.2.2).length := length_le_element
    omega
  have hfields : (do return ⟨← oidValue, ← anyElement⟩ : Parser NameEntry) r
      (oid e.1 ++ (element e.2.1 e.2.2 ++ [])) = some (storedEntry e, []) := by
    rw [bind_eq_some_iff]
    refine ⟨_, _, oidValue_oid he.1 hoid, ?_⟩
    rw [bind_eq_some_iff]
    exact ⟨_, _, anyElement_element he.2 hvalue, rfl⟩
  rw [entry, inSequence_seqOf (by
    simp only [List.flatten_cons, List.flatten_nil, List.append_nil, List.length_append]
    omega), List.flatten_cons, List.flatten_cons, List.flatten_nil, hfields]
  rfl

theorem entrySet_writtenSet (he : IsReadable e) (hl : (writtenSet e).length < bitLimit 64)
    (rest : Bytes) : entrySet r (writtenSet e ++ rest) = some ([storedEntry e], rest) := by
  have hcontent := Nat.lt_of_le_of_lt length_le_element hl
  have hmany : many entry r ([e].map fun e => seqOf [oid e.1, element e.2.1 e.2.2]).flatten =
      some ([e].map storedEntry, []) :=
    many_map rfl (List.forall_mem_singleton.2 (entry_seqOf he hcontent))
  rw [List.map_singleton, List.flatten_singleton, List.map_singleton] at hmany
  rw [entrySet, bind_eq_some_iff]
  refine ⟨_, _, tagged_element (by decide) hcontent, ?_⟩
  rw [bind_eq_some_iff]
  exact ⟨_, _, within_eq_some_iff.2 ⟨⟨_, hmany⟩, rfl⟩, rfl⟩

/-- A name within the limits of the encoding is read whole. -/
theorem parser_encode (hn : ∀ e ∈ n.entries, IsReadable e)
    (hl : (n.entries.map writtenSet).flatten.length < bitLimit 64) (rest : Bytes) :
    parser r (n.encode ++ rest) = some (n.stored, rest) := by
  have hmany : many entrySet r (n.entries.map writtenSet).flatten =
      some (n.entries.map fun e => [storedEntry e], []) :=
    many_map rfl fun e he => entrySet_writtenSet (hn e he) (Nat.lt_of_le_of_lt
      (List.sublist_flatten_of_mem (List.mem_map_of_mem he)).length_le hl)
  have hfields : (do return ⟨← many entrySet⟩ : Parser Name) r
      (n.entries.map writtenSet).flatten = some (n.stored, []) := by
    rw [bind_eq_some_iff]
    exact ⟨_, _, hmany, rfl⟩
  rw [parser, encode_eq, inSequence_seqOf hl, hfields]
  rfl

theorem ofArcs?_arcs (a : NameAttribute) : NameAttribute.ofArcs? a.arcs = some a := by
  cases a <;> decide

theorem isReadable_entryOf (p : NameAttribute × String) : IsReadable (entryOf p) := by
  have harcs (a : NameAttribute) : arcsOfContent? (oidContent a.arcs) = some a.arcs := by
    cases a <;> with_unfolding_all decide
  exact ⟨harcs p.1, (by decide : tagUtf8 &&& 0x1f ≠ 0x1f)⟩

theorem view_stored_ofView {dn : DistinguishedName} (h : dn.IsUnique) :
    (ofView dn).stored.view = dn := by
  have hsets : (ofView dn).stored.sets.flatten =
      dn.entries.map fun p => storedEntry (entryOf p) := by
    rw [stored, entries_ofView h, List.map_map,
      List.map_eq_flatMap (f := fun p => storedEntry (entryOf p))]
    rfl
  have hpair (p : NameAttribute × String) : (do
      let a ← NameAttribute.ofArcs? (storedEntry (entryOf p)).oid
      let s ← (storedEntry (entryOf p)).text?
      return (a, s)) = some p := by
    have htext : (storedEntry (entryOf p)).text? = some p.2 := Bytes.text?_ofText p.2
    rw [htext, show (storedEntry (entryOf p)).oid = p.1.arcs from rfl, ofArcs?_arcs]
    rfl
  rw [view, hsets, List.filterMap_map]
  have hentries := (List.filterMap_congr (l := dn.entries) fun p _ => hpair p).trans
    List.filterMap_some
  exact (congrArg DistinguishedName.ofPairs hentries).trans (DistinguishedName.ofPairs_entries h)

/-- The view of a subject that was written is the subject. -/
theorem view_of_parse?_ofView {dn : DistinguishedName} (h : dn.IsUnique) {x : Name}
    (hx : parser.parse? r (ofView dn).encode = some x) : x.view = dn := by
  obtain ⟨⟨x', b⟩, hread, rfl⟩ := Option.map_eq_some_iff.1 hx
  have hread' : parser r ((ofView dn).encode ++ []) = some (x', b) := by
    rw [List.append_nil]
    exact hread
  have hl := length_of_inSequence_seqOf hread'
  have hreadable : ∀ e ∈ (ofView dn).entries, IsReadable e := by
    rw [entries_ofView h, List.forall_mem_map]
    exact fun p _ => isReadable_entryOf p
  rw [parser_encode hreadable hl] at hread'
  obtain ⟨rfl, -⟩ := Prod.mk.inj (Option.some.inj hread')
  exact view_stored_ofView h

end Name

/-- The subject of what is written for a request is a name without repetitions. -/
theorem CertificatePlan.exists_ofView {r : CertificateRequest} {serial : Option SerialNumber}
    {validity : Option (Instant × Instant)} {key : SubjectKey} {p : CertificatePlan}
    (h : CertificatePlan.ofRequest r serial validity key = .ok p) :
    ∃ dn, dn.IsUnique ∧ p.subject = IssuedName.ofView dn := by
  obtain ⟨dn, hdn, hsubject⟩ := Outcome.map_eq_ok_iff.1 (subject_ofRequest h)
  obtain ⟨base, hbase, rfl⟩ := subjectOf_eq_ok_iff.1 hdn
  exact ⟨_, DistinguishedName.isUnique_pushAll (isUnique_baseName hbase) _, hsubject.symm⟩

end X509
end CertAuthority
