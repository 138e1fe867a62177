import CertAuthority.Proofs.Bytes.Hex
import CertAuthority.Proofs.Json.Members
import CertAuthority.Proofs.Merge.Extensions
import CertAuthority.Proofs.Time.Rfc3339
import CertAuthority.Request

/-!
# Values that were written are read back

One codec lemma for each type of value that a request or a policy holds. All of a type is read back,
except that

* dates have to be a time of day, `Instant.IsCivil`;
* the integers of an attribute value have to fit 64 bits, and its maps to be in key order,
  `AttributeValue.IsWritable`, `ExtensionSet.IsWritable`.
-/

namespace CertAuthority

/-! ## Names -/

theorem CertificateKind.codes (k : CertificateKind) :
    Json.Codes read (fun k => .str k.name) k := by
  cases k <;> exact ⟨rfl, nofun⟩

theorem CertType.codes (t : CertType) : Json.Codes read (fun t => .str t.name) t := by
  cases t <;> exact ⟨rfl, nofun⟩

theorem Encoding.codes (e : Encoding) : Json.Codes read (fun e => .str e.name) e := by
  cases e <;> exact ⟨rfl, nofun⟩

theorem Digest.codes (d : Digest) : Json.Codes read (fun d => .str d.name) d := by
  cases d <;> exact ⟨rfl, nofun⟩

theorem RevocationReason.codes (r : RevocationReason) : Json.Codes read toJson r := by
  cases r <;> exact ⟨rfl, nofun⟩

theorem NameAttribute.codes (a : NameAttribute) : Json.Codes read toJson a := by
  cases a <;> exact ⟨rfl, nofun⟩

/-! ## Numbers, bytes and dates -/

theorem SerialNumber.codes (s : SerialNumber) : Json.Codes read toJson s := by
  refine ⟨?_, nofun⟩
  rw [toJson, read, parse_text]

theorem Json.codes_ofBytes (b : Bytes) : Codes asBase64 ofBytes b := by
  refine ⟨?_, nofun⟩
  rw [ofBytes, asBase64, Base64.decodeText?_encode]

theorem Json.codes_ofInstant {t : Instant} (h : t.IsCivil) : Codes asInstant ofInstant t := by
  refine ⟨?_, nofun⟩
  rw [ofInstant, asInstant, Rfc3339.parse?_print h]

/-! ## Material, principals and subjects -/

theorem Material.codes (m : Material) : Json.Codes read toJson m := by
  cases m with
  | path p => exact ⟨rfl, nofun⟩
  | inline b =>
    refine ⟨?_, nofun⟩
    rw [toJson, read, (Json.codes_ofBytes b).read_write]
    rfl

theorem Principals.codes (p : Principals) : Json.Codes read toJson p := by
  cases p with
  | unspecified => exact ⟨rfl, nofun⟩
  | all => exact ⟨rfl, nofun⟩
  | list names =>
    refine ⟨?_, nofun⟩
    rw [toJson, read, (Json.codes_ofStrings names).read_write]
    rfl

theorem Principals.eq_of_isUnspecified {p : Principals} (h : p.isUnspecified = true) :
    p = .unspecified :=
  eq_of_beq h

theorem DistinguishedName.codes_pairToJson (p : NameAttribute × String) :
    Json.Codes readPair pairToJson p := by
  refine ⟨?_, nofun⟩
  rw [readPair, pairToJson, Json.asPair, p.1.codes.read_write]
  rfl

theorem SubjectSpec.codes (s : SubjectSpec) : Json.Codes read toJson s := by
  cases s with
  | text s => exact ⟨rfl, nofun⟩
  | list rdns =>
    refine ⟨?_, nofun⟩
    rw [toJson, Json.ofStrings, read, Json.mapM_write fun s _ => (Json.codes_asString s).read_write]
    rfl
  | map entries =>
    have hentry : ∀ e ∈ entries, readEntry (e.1, Json.str e.2) = .ok e := fun _ _ => rfl
    refine ⟨?_, nofun⟩
    rw [toJson, read, Json.mapM_write hentry]
    rfl

/-! ## Attribute values -/

namespace AttributeValue

/-- Integers fit 64 bits, and maps are in key order, as a map type keeps them. -/
inductive IsWritable : AttributeValue → Prop
  | present : IsWritable .present
  | text (s : String) : IsWritable (.text s)
  | bytes (b : Bytes) : IsWritable (.bytes b)
  | integer {n : Int} (h : -(bitLimit 63 : Int) ≤ n ∧ n < bitLimit 63) : IsWritable (.integer n)
  | list {items : List AttributeValue} (h : ∀ a ∈ items, IsWritable a) : IsWritable (.list items)
  | map {entries : List (String × AttributeValue)} (horder : Json.InKeyOrder entries)
    (h : ∀ e ∈ entries, IsWritable e.2) : IsWritable (.map entries)

theorem readItems_itemsToJson {items : List AttributeValue}
    (h : ∀ a ∈ items, read a.toJson = .ok a) : readItems (itemsToJson items) = .ok items := by
  induction items with
  | nil => rfl
  | cons a items ih =>
    rw [List.forall_mem_cons] at h
    rw [itemsToJson, readItems, h.1, ih h.2]
    rfl

theorem readEntries_entriesToJson {entries : List (String × AttributeValue)}
    (horder : Json.InKeyOrder entries) (h : ∀ e ∈ entries, read e.2.toJson = .ok e.2) :
    readEntries (entriesToJson entries) = .ok entries := by
  induction entries with
  | nil => rfl
  | cons e entries ih =>
    obtain ⟨hhead, htail⟩ := List.pairwise_cons.1 horder
    rw [List.forall_mem_cons] at h
    rw [entriesToJson, readEntries, h.1, ih htail h.2]
    exact congrArg Except.ok (Json.insertMember_of_lt e.2 hhead)

theorem codes {a : AttributeValue} (h : a.IsWritable) : Json.Codes read toJson a := by
  refine ⟨?_, by cases a <;> nofun⟩
  induction h with
  | present => rfl
  | text s => rfl
  | bytes b =>
    rw [toJson, read, (Json.codes_ofBytes b).read_write]
    rfl
  | integer h =>
    rw [toJson, read, Json.asI64, if_pos h]
    rfl
  | list _ ih =>
    rw [toJson, read, readItems_itemsToJson ih]
    rfl
  | map horder _ ih =>
    rw [toJson, read, readEntries_entriesToJson horder ih]
    rfl

end AttributeValue

/-! ## Extensions -/

theorem ExtensionValue.codes {v : ExtensionValue} (h : v.value.IsWritable) :
    Json.Codes read toJson v :=
  ⟨Json.asRecord_eq_ok <|
    .bind (.field rfl (Json.codes_asBool v.critical)) <|
    .bind (.field rfl (AttributeValue.codes h)) (.pure v), nofun⟩

namespace ExtensionSet

/-- The values of all entries can be written. -/
def IsWritable (s : ExtensionSet) : Prop := ∀ k v, s.get? k = some v → v.value.IsWritable

theorem eq_empty_of_isEmpty {s : ExtensionSet} (h : s.isEmpty = true) : s = empty := by
  rw [isEmpty, List.isEmpty_iff, kinds, List.filter_eq_nil_iff] at h
  ext1 k
  simpa [contains] using h k (ExtensionKind.mem_all k)

theorem codes {s : ExtensionSet} (h : s.IsWritable) : Json.Codes read toJson s := by
  refine ⟨?_, nofun⟩
  have hentry : ∀ e ∈ s.toList, readEntry (e.1.name, e.2.toJson) = .ok e := by
    intro e he
    rw [readEntry, ExtensionKind.ofName_eq_ok_iff.2 rfl,
      (ExtensionValue.codes (h e.1 e.2 (mem_toList_iff.1 he))).read_write]
    rfl
  rw [toJson, read, Json.mapM_write hentry]
  exact congrArg Except.ok (ofList_eq fun k v => mem_toList_iff)

end ExtensionSet

namespace Allowed

/-- No kind is named like the wildcard. -/
theorem not_contains_wildcard (ks : List ExtensionKind) :
    (ks.map (·.name)).contains "*" = false := by
  have hall : ∀ k ∈ ExtensionKind.all, k.name ≠ "*" := by decide
  simpa using fun k _ => hall k (ExtensionKind.mem_all k)

theorem codes (a : Allowed) : Json.Codes read toJson a := by
  refine ⟨?_, nofun⟩
  rw [toJson, read, (Json.codes_ofStrings a.names).read_write]
  cases a with
  | any => rfl
  | only permitted =>
    show ofNames ((ExtensionKind.all.filter permitted).map (·.name)) = .ok (.only permitted)
    rw [ofNames, not_contains_wildcard,
      Json.mapM_write fun k _ => ExtensionKind.ofName_eq_ok_iff.2 rfl]
    refine congrArg (Except.ok ∘ only) (funext fun k => ?_)
    rw [Bool.eq_iff_iff, List.contains_iff_mem, List.mem_filter]
    exact and_iff_right (ExtensionKind.mem_all k)

end Allowed

/-! ## Revoked certificates -/

namespace RevokedCertificate

attribute [local simp] List.lookup_append

/-- The dates are times of day. -/
structure IsWritable (r : RevokedCertificate) : Prop where
  revocationDate : ∀ t ∈ r.revocationDate, t.IsCivil
  notAfter : ∀ t ∈ r.notAfter, t.IsCivil
  invalidityDate : ∀ t ∈ r.invalidityDate, t.IsCivil

theorem codes {r : RevokedCertificate} (h : r.IsWritable) : Json.Codes read toJson r := by
  refine ⟨Json.denyUnknown_eq_ok ?_ (Json.asRecord_eq_ok ?_), nofun⟩
  · simp only [List.all_append, Bool.and_eq_true]
    refine ⟨⟨⟨⟨⟨?_, ?_⟩, ?_⟩, ?_⟩, ?_⟩, ?_⟩ <;>
      exact Json.all_member? rfl _ _
  · refine .bind (.field? (a := r.serialNumber) (by simp) fun s _ => s.codes) ?_
    refine .bind (.field? (a := r.certificate) (by simp) fun m _ => m.codes) ?_
    refine .bind (.field? (a := r.revocationDate) (by simp)
      fun t ht => Json.codes_ofInstant (h.revocationDate t ht)) ?_
    refine .bind (.field? (a := r.notAfter) (by simp)
      fun t ht => Json.codes_ofInstant (h.notAfter t ht)) ?_
    refine .bind (.field? (a := r.reason) (by simp) fun r _ => r.codes) ?_
    refine .bind (.field? (a := r.invalidityDate) (by simp)
      fun t ht => Json.codes_ofInstant (h.invalidityDate t ht)) ?_
    exact .pure r

end RevokedCertificate
end CertAuthority
