import CertAuthority.Merge
import CertAuthority.Proofs.Json.Members
import CertAuthority.Proofs.Name.Issued

/-!
# The subject of a policy

A policy may name single attributes of the subject. Each takes the place of the first requested one
of its type, and the issued name takes the last one. So a policy's value is issued exactly where the
attribute is requested at most once, or happens to be requested with that value at last.

* `SigningPolicy.valuesIn_attributesFor` : what a policy leaves of the requested attributes;
* `SigningPolicy.value?_issuedName_of_attribute` : what is issued for an attribute of the policy;
* `SigningPolicy.attribute_issued_iff` : when it is the policy's value;
* `SigningPolicy.repeated_attribute_issued` : a repeated attribute goes past the policy.

Such a policy takes no requested subject at all, whether it has one of its own or not.

* `SigningPolicy.subjectFor_of_nameAttributes` : what is left of the requested subject;
* `SigningPolicy.requested_subject_discarded` : the subject of a request makes no difference.

Or it names the whole subject. A requested map is merged with the policy's key by key, a requested
list comes before the policy's, any other requested subject is dropped. Two things go past the
policy: requested name attributes, and a requested map that spells an attribute behind every
spelling of the policy, since of several spellings the last one counts.

* `SubjectSpec.IsOrdered` : a map in key order, as it is read from an object;
* `SubjectSpec.spellings` : the entries of a map that name an attribute;
* `SubjectSpec.laterSpelling?`, `SigningPolicy.requestedOver?` : what goes past the policy;
* `SigningPolicy.value?_issuedName_of_subject` : what is issued for an attribute of the policy;
* `SigningPolicy.subject_issued_iff` : when it is the policy's value;
* `SigningPolicy.requested_over_subject_issued` : both ways past the policy.
-/

namespace CertAuthority

/-! ## Single attributes -/

namespace SigningPolicy

open X509

variable {p : SigningPolicy} {r : CertificateRequest} {n : IssuedName} {a : NameAttribute}
  {v : String}

theorem valuesIn_attributesFor (a : NameAttribute) (p : SigningPolicy)
    (requested : List (NameAttribute × String)) :
    a.valuesIn (p.attributesFor requested) =
      match (a.valuesIn p.nameAttributes).getLast? with
      | some v => v :: (a.valuesIn requested).tail
      | none => a.valuesIn requested :=
  NameAttribute.valuesIn_foldl_put a p.nameAttributes requested

/-- Only the first of several requested values makes room for the policy's. -/
theorem value?_issuedName_of_attribute (hk : p.kind = .x509)
    (hn : issuedName (r.under (some p)) = .ok n)
    (hv : (a.valuesIn p.nameAttributes).getLast? = some v) :
    n.value? a = some ((a.valuesIn r.nameAttributes).tail.getLast?.getD v) := by
  obtain ⟨base, -, hvalue⟩ := value?_issuedName hn
  rw [hvalue, CertificateRequest.under, nameAttributes_resolve hk, valuesIn_attributesFor, hv]
  simp [List.getLast?_cons]

/-- **The policy's value is issued exactly where the request repeats nothing over it.** That is, the
attribute is requested at most once, or the last requested value is the policy's. -/
theorem attribute_issued_iff (hk : p.kind = .x509)
    (hn : issuedName (r.under (some p)) = .ok n)
    (hv : (a.valuesIn p.nameAttributes).getLast? = some v) :
    n.value? a = some v ↔
      (a.valuesIn r.nameAttributes).length ≤ 1 ∨
        (a.valuesIn r.nameAttributes).getLast? = some v := by
  rw [value?_issuedName_of_attribute hk hn hv]
  match a.valuesIn r.nameAttributes with
  | [] => simp
  | [u] => simp
  | u :: w :: rest => simp [List.getLast?_cons]

/-- The policy's last common name is issued for a request with another one. -/
theorem attribute_issued_iff_once :
    let p : SigningPolicy :=
      { kind := .x509, nameAttributes := [(.cn, "spare"), (.o, "Org"), (.cn, "www.example.com")] }
    let r : CertificateRequest :=
      { CertificateRequest.new .x509 with nameAttributes := [(.ou, "Unit"), (.cn, "evil")] }
    (NameAttribute.cn.valuesIn p.nameAttributes).getLast? = some "www.example.com" ∧
      ∃ n, issuedName (r.under (some p)) = .ok n ∧ n.value? .cn = some "www.example.com" := by
  intro p r
  refine ⟨rfl, _, rfl, ?_⟩
  exact (attribute_issued_iff (p := p) (r := r) rfl rfl rfl).2 (.inl (by decide))

/-- A name that is requested twice is issued in place of the policy's. -/
theorem repeated_attribute_issued :
    let p : SigningPolicy := { kind := .x509, nameAttributes := [(.cn, "www.example.com")] }
    let r : CertificateRequest :=
      { CertificateRequest.new .x509 with nameAttributes := [(.cn, "evil"), (.cn, "worse")] }
    (NameAttribute.cn.valuesIn p.nameAttributes).getLast? = some "www.example.com" ∧
      ∃ n, issuedName (r.under (some p)) = .ok n ∧ n.value? .cn = some "worse" := by
  intro p r
  refine ⟨rfl, _, rfl, ?_⟩
  exact value?_issuedName_of_attribute (p := p) (r := r) (v := "www.example.com") rfl rfl rfl

end SigningPolicy

/-! ## Requested subjects -/

namespace SigningPolicy

variable {p : SigningPolicy}

/-- Nothing is left for the policy's own subject to combine with. -/
theorem subjectFor_of_nameAttributes (hn : p.nameAttributes ≠ []) (requested : Option SubjectSpec) :
    p.subjectFor requested = p.subject := by
  unfold subjectFor
  rw [List.isEmpty_eq_false_iff.2 hn]
  cases p.subject with
  | none => rfl
  | some forced => rfl

/-- The subject of a request passes a policy by `subjectFor` alone. -/
theorem resolve_withSubject (hk : p.kind = .x509) {r : CertificateRequest}
    {s : Option SubjectSpec} (hs : p.subjectFor s = p.subjectFor r.subject) :
    p.resolve { r with subject := s } = p.resolve r := by
  have hidentity : p.applyIdentity { r with subject := s } =
      { p.applyIdentity r with subject := p.subjectFor r.subject } := by
    simp only [applyIdentity, hk, hs]
  simp only [resolve, hidentity]
  simp only [applyIdentity, hk, ttlFor, requestedTtl?, requestedSpan?, notAfterFor]

/-- **A policy with name attributes discards the requested subject.** Requests that differ in their
subject only, of whatever shape and present or not, resolve to the same request, and its subject is
the policy's. -/
theorem requested_subject_discarded (hk : p.kind = .x509) (hn : p.nameAttributes ≠ [])
    (r : CertificateRequest) (s : Option SubjectSpec) :
    ({ r with subject := s } : CertificateRequest).under (some p) = r.under (some p) ∧
      (r.under (some p)).subject = p.subject := by
  have hleft (requested : Option SubjectSpec) : p.subjectFor requested = p.subject :=
    subjectFor_of_nameAttributes hn requested
  refine ⟨resolve_withSubject hk ?_, ?_⟩
  · rw [hleft s, hleft r.subject]
  · rw [CertificateRequest.under, subject_resolve hk, hleft r.subject]

/-- A map is dropped where the policy has no subject, and where it has a map of its own, which the
requested one is otherwise merged with. -/
theorem requested_subject_discarded_map :
    let attributes := [(NameAttribute.o, "Example Corp"), (.c, "IS")]
    let bare : SigningPolicy := { kind := .x509, nameAttributes := attributes }
    let named : SigningPolicy := { bare with subject := some (.map [("O", "Example Corp")]) }
    let r : CertificateRequest :=
      { CertificateRequest.new .x509 with subject := some (.map [("CN", "evil"), ("O", "Other")]) }
    (r.under (some bare)).subject = none ∧
      (r.under (some named)).subject = some (.map [("O", "Example Corp")]) ∧
      ({ r with subject := some (.text "CN=worse") } : CertificateRequest).under (some named) =
        r.under (some named) := by
  intro attributes bare named r
  have hattributes : attributes ≠ [] := List.cons_ne_nil _ _
  obtain ⟨-, hbare⟩ := requested_subject_discarded (p := bare) rfl hattributes r none
  obtain ⟨hsame, hnamed⟩ :=
    requested_subject_discarded (p := named) rfl hattributes r (some (.text "CN=worse"))
  exact ⟨hbare, hnamed, hsame⟩

end SigningPolicy

/-! ## The whole subject -/

namespace SubjectSpec

/-! ## Entries of a map -/

/-- The entries of a map stand in key order, each key once. -/
def IsOrdered : SubjectSpec → Prop
  | .map entries => Json.InKeyOrder entries
  | .text _ | .list _ => True

theorem keys_mapM_readEntry {members : List (String × Json)} {entries : List (String × String)}
    (h : members.mapM readEntry = .ok entries) : entries.map (·.1) = members.map (·.1) := by
  induction members generalizing entries with
  | nil =>
    obtain rfl := Except.ok.inj h
    rfl
  | cons m members ih =>
    simp only [List.mapM_cons, Outcome.bind_eq_ok_iff, readEntry] at h
    obtain ⟨e, ⟨v, -, he⟩, rest, hrest, h⟩ := h
    obtain rfl := Except.ok.inj h
    obtain rfl := Except.ok.inj he
    rw [List.map_cons, List.map_cons, ih hrest]

/-- A subject that is read from an object has its members' order. -/
theorem isOrdered_of_read {members : List (String × Json)} {s : SubjectSpec}
    (h : Json.InKeyOrder members) (hs : SubjectSpec.read (.obj members) = .ok s) :
    s.IsOrdered := by
  obtain ⟨entries, hentries, rfl⟩ := Outcome.map_eq_ok_iff.1 hs
  exact Json.inKeyOrder_of_keys_eq h (keys_mapM_readEntry hentries)

/-- The entries of a map whose key names the attribute. -/
def spellings (a : NameAttribute) (entries : List (String × String)) : List (String × String) :=
  entries.filter fun e => NameAttribute.ofShortName? e.1 = some a

theorem mem_spellings_iff {a : NameAttribute} {entries : List (String × String)}
    {e : String × String} :
    e ∈ spellings a entries ↔ e ∈ entries ∧ NameAttribute.ofShortName? e.1 = some a := by
  simp [spellings]

theorem mapEntry_eq_ok_iff {e : String × String} {p : NameAttribute × String} :
    mapEntry e = .ok p ↔ NameAttribute.ofShortName? e.1 = some p.1 ∧ e.2 = p.2 := by
  obtain ⟨a, v⟩ := p
  unfold mapEntry
  cases NameAttribute.ofShortName? e.1 <;> simp

/-- A map says what its keys name, in key order. -/
theorem valuesIn_mapM_mapEntry (a : NameAttribute) {entries : List (String × String)}
    {pairs : List (NameAttribute × String)} (h : entries.mapM mapEntry = .ok pairs) :
    a.valuesIn pairs = (spellings a entries).map (·.2) := by
  induction entries generalizing pairs with
  | nil =>
    obtain rfl := Except.ok.inj h
    rfl
  | cons e entries ih =>
    simp only [List.mapM_cons, Outcome.bind_eq_ok_iff, mapEntry_eq_ok_iff] at h
    obtain ⟨⟨b, v⟩, ⟨hb, hv⟩, rest, hrest, h⟩ := h
    obtain rfl := Except.ok.inj h
    rw [NameAttribute.valuesIn_cons, ih hrest]
    by_cases ha : b = a <;> simp [spellings, hb, hv, ha]

theorem get?_toName_map {entries : List (String × String)} {d : DistinguishedName}
    (h : (SubjectSpec.map entries).toName = .ok d) (a : NameAttribute) :
    d.get? a = (spellings a entries).getLast?.map (·.2) := by
  obtain ⟨pairs, hpairs, rfl⟩ := toName_eq_ok_iff.1 h
  simp only [SubjectSpec.pairs, Outcome.bind_eq_ok_iff] at hpairs
  obtain ⟨named, hnamed, hsorted⟩ := hpairs
  rw [DistinguishedName.get?_ofPairs, ← Except.ok.inj hsorted, NameAttribute.valuesIn_mergeSort,
    valuesIn_mapM_mapEntry a hnamed, List.getLast?_map]

/-- What a list adds at its end counts. -/
theorem get?_toName_list_append {rdns more : List String} {c d : DistinguishedName}
    (hc : (SubjectSpec.list (rdns ++ more)).toName = .ok c)
    (hd : (SubjectSpec.list more).toName = .ok d) {a : NameAttribute} {v : String}
    (hv : d.get? a = some v) : c.get? a = some v := by
  obtain ⟨all, hall, rfl⟩ := toName_eq_ok_iff.1 hc
  obtain ⟨added, hadded, rfl⟩ := toName_eq_ok_iff.1 hd
  simp only [pairs, List.mapM_append, Outcome.bind_eq_ok_iff] at hall hadded
  obtain ⟨first, -, second, hsecond, h⟩ := hall
  obtain rfl := Except.ok.inj h
  obtain rfl : second = added := Except.ok.inj (hsecond.symm.trans hadded)
  rw [DistinguishedName.get?_ofPairs] at hv ⊢
  rw [NameAttribute.valuesIn_append, List.getLast?_append, hv]
  rfl

/-! ## Maps one over the other -/

/-- The last entry for the attribute in `requested`, if its key is behind all those in `forced`. -/
def laterSpelling? (a : NameAttribute) (forced requested : List (String × String)) :
    Option (String × String) :=
  (spellings a requested).getLast?.filter fun e => ∀ f ∈ spellings a forced, f.1 < e.1

theorem mem_spellings_insertAll_iff (a : NameAttribute) {forced requested : List (String × String)}
    (hf : Json.InKeyOrder forced) (hr : Json.InKeyOrder requested) (x : String × String) :
    x ∈ spellings a (Json.insertAll forced requested) ↔
      x ∈ spellings a forced ∨ x ∈ spellings a requested ∧ ∀ f ∈ spellings a forced, x.1 ≠ f.1 := by
  simp only [mem_spellings_iff, Json.mem_insertAll_iff hf hr]
  constructor
  · rintro ⟨hx | ⟨hx, hne⟩, hs⟩
    · exact .inl ⟨hx, hs⟩
    · exact .inr ⟨⟨hx, hs⟩, fun f h => hne f h.1⟩
  · rintro (⟨hx, hs⟩ | ⟨⟨hx, hs⟩, hne⟩)
    · exact ⟨.inl hx, hs⟩
    · refine ⟨.inr ⟨hx, fun f h he => ?_⟩, hs⟩
      exact hne f ⟨h, he ▸ hs⟩ he

theorem getLast?_spellings_insertAll (a : NameAttribute) {forced requested : List (String × String)}
    (hf : Json.InKeyOrder forced) (hr : Json.InKeyOrder requested) :
    (spellings a (Json.insertAll forced requested)).getLast? =
      (laterSpelling? a forced requested).or (spellings a forced).getLast? := by
  have hmem := mem_spellings_insertAll_iff a hf hr
  have hfs : Json.InKeyOrder (spellings a forced) := hf.filter _
  have hrs : Json.InKeyOrder (spellings a requested) := hr.filter _
  have hms : Json.InKeyOrder (spellings a (Json.insertAll forced requested)) :=
    (Json.inKeyOrder_insertAll forced hr).filter _
  cases hlast : (spellings a requested).getLast? with
  | none =>
    rw [List.getLast?_eq_none_iff] at hlast
    refine Option.ext fun x => ?_
    simp [laterSpelling?, hlast, Json.getLast?_eq_some_iff hms, Json.getLast?_eq_some_iff hfs, hmem]
  | some e =>
    obtain ⟨he, hmax⟩ := (Json.getLast?_eq_some_iff hrs e).1 hlast
    by_cases hall : ∀ f ∈ spellings a forced, f.1 < e.1
    · -- The requested key is behind all the others, and not among the policy's.
      have hlater : laterSpelling? a forced requested = some e := by
        simpa [laterSpelling?, hlast] using fun k v => hall (k, v)
      rw [hlater, Option.some_or, Json.getLast?_eq_some_iff hms]
      refine ⟨(hmem e).2 (.inr ⟨he, fun f h => (String.ne_of_lt (hall f h)).symm⟩), fun y hy => ?_⟩
      obtain hy | ⟨hy, -⟩ := (hmem y).1 hy
      · exact String.lt_asymm (hall y hy)
      · exact hmax y hy
    · -- The policy has a key that is not before the requested one, so its last one is behind it.
      have hlater : laterSpelling? a forced requested = none := by
        simpa [laterSpelling?, hlast] using hall
      obtain ⟨f, hmf, hle⟩ : ∃ f ∈ spellings a forced, ¬ f.1 < e.1 := by
        simpa using hall
      cases hg : (spellings a forced).getLast? with
      | none =>
        rw [List.getLast?_eq_none_iff] at hg
        rw [hg] at hmf
        cases hmf
      | some g =>
        obtain ⟨hmg, hgmax⟩ := (Json.getLast?_eq_some_iff hfs g).1 hg
        rw [hlater, Option.none_or, Json.getLast?_eq_some_iff hms]
        refine ⟨(hmem g).2 (.inl hmg), fun y hy => ?_⟩
        obtain hy | ⟨hy, -⟩ := (hmem y).1 hy
        · exact hgmax y hy
        · have hye : y.1 ≤ e.1 := hmax y hy
          exact String.not_lt.2 (String.le_trans hye (String.le_trans hle (hgmax f hmf)))

/-! ## Shapes -/

/-- The value that a requested subject gives the attribute past the policy's. -/
def later? (a : NameAttribute) : SubjectSpec → Option SubjectSpec → Option String
  | .map forced, some (.map requested) => (laterSpelling? a forced requested).map (·.2)
  | _, _ => none

/-- The shapes combine one by one: lists append the policy's, maps have it above, and any two
different shapes leave it alone. -/
theorem get?_combineSubject {forced : SubjectSpec} {requested : Option SubjectSpec}
    (hf : forced.IsOrdered) (hr : ∀ s, requested = some s → s.IsOrdered)
    {d c : DistinguishedName} (hd : forced.toName = .ok d)
    (hc : (SigningPolicy.combineSubject forced requested).toName = .ok c)
    {a : NameAttribute} {v : String} (hv : d.get? a = some v) :
    c.get? a = (later? a forced requested).or (some v) := by
  have alone (h : SigningPolicy.combineSubject forced requested = forced) : c.get? a = some v := by
    rw [h] at hc
    rw [← Except.ok.inj (hd.symm.trans hc), hv]
  cases requested with
  | none => simpa [later?] using alone rfl
  | some requested =>
    cases requested with
    | text s => simpa [later?] using alone rfl
    | list rdns =>
      cases forced with
      | text s => simpa [later?] using alone rfl
      | map entries => simpa [later?] using alone rfl
      | list more => simpa [later?] using get?_toName_list_append hc hd hv
    | map entries =>
      cases forced with
      | text s => simpa [later?] using alone rfl
      | list rdns => simpa [later?] using alone rfl
      | map upper =>
        have hlast := getLast?_spellings_insertAll a hf (hr (.map entries) rfl)
        have hmerged : (SubjectSpec.map (Json.insertAll upper entries)).toName = .ok c := hc
        rw [get?_toName_map hd] at hv
        rw [get?_toName_map hmerged, hlast]
        cases hl : laterSpelling? a upper entries <;> simp [later?, hl, hv]

end SubjectSpec

/-! ## What is issued -/

namespace SigningPolicy

open X509

variable {p : SigningPolicy} {r : CertificateRequest} {n : IssuedName} {forced : SubjectSpec}
  {d : DistinguishedName} {a : NameAttribute} {v : String}

/-- What a request says for an attribute past the policy's subject. -/
def requestedOver? (a : NameAttribute) (forced : SubjectSpec) (r : CertificateRequest) :
    Option String :=
  (a.valuesIn r.nameAttributes).getLast?.or (SubjectSpec.later? a forced r.subject)

theorem value?_issuedName_of_subject (hk : p.kind = .x509) (hs : p.subject = some forced)
    (hp : p.nameAttributes = []) (hf : forced.IsOrdered)
    (hr : ∀ s, r.subject = some s → s.IsOrdered) (hd : forced.toName = .ok d)
    (hn : issuedName (r.under (some p)) = .ok n) (hv : d.get? a = some v) :
    n.value? a = (requestedOver? a forced r).or (some v) := by
  obtain ⟨base, hbase, hvalue⟩ := value?_issuedName hn
  have hsubject : (r.under (some p)).subject = some (combineSubject forced r.subject) := by
    rw [CertificateRequest.under, subject_resolve hk, subjectFor, hs, hp]
    rfl
  have hattributes : (r.under (some p)).nameAttributes = r.nameAttributes := by
    rw [CertificateRequest.under, nameAttributes_resolve hk, attributesFor, hp]
    rfl
  rw [hsubject] at hbase
  rw [hvalue, hattributes, SubjectSpec.get?_combineSubject hf hr hd hbase hv, requestedOver?,
    Option.or_assoc]

/-- **The policy's value is issued exactly where the request says nothing else past it.** -/
theorem subject_issued_iff (hk : p.kind = .x509) (hs : p.subject = some forced)
    (hp : p.nameAttributes = []) (hf : forced.IsOrdered)
    (hr : ∀ s, r.subject = some s → s.IsOrdered) (hd : forced.toName = .ok d)
    (hn : issuedName (r.under (some p)) = .ok n) (hv : d.get? a = some v) :
    n.value? a = some v ↔ ∀ u, requestedOver? a forced r = some u → u = v := by
  rw [value?_issuedName_of_subject hk hs hp hf hr hd hn hv]
  cases requestedOver? a forced r <;> simp

/-- A requested organization gives way, and a later spelling of the common name does not. -/
theorem subject_issued_iff_maps :
    let p : SigningPolicy :=
      { kind := .x509, subject := some (.map [("CN", "www.example.com"), ("O", "Org")]) }
    let r : CertificateRequest :=
      { CertificateRequest.new .x509 with subject := some (.map [("O", "Other"), ("cn", "evil")]) }
    ∃ n, issuedName (r.under (some p)) = .ok n ∧
      n.value? .o = some "Org" ∧ n.value? .cn ≠ some "www.example.com" := by
  intro p r
  obtain ⟨n, hn⟩ : ∃ n, issuedName (r.under (some p)) = .ok n := ⟨_, rfl⟩
  obtain ⟨d, hd⟩ : ∃ d, (SubjectSpec.map [("CN", "www.example.com"), ("O", "Org")]).toName =
      .ok d := ⟨_, rfl⟩
  have hf : Json.InKeyOrder [("CN", "www.example.com"), ("O", "Org")] := by
    unfold Json.InKeyOrder
    decide
  have hr (s : SubjectSpec) (h : r.subject = some s) : s.IsOrdered := by
    obtain rfl := Option.some.inj h
    show Json.InKeyOrder _
    unfold Json.InKeyOrder
    decide
  have hover : requestedOver? .cn (.map [("CN", "www.example.com"), ("O", "Org")]) r =
      some "evil" := by
    decide
  have ho : d.get? .o = some "Org" := SubjectSpec.get?_toName_map hd .o
  have hcn : d.get? .cn = some "www.example.com" := SubjectSpec.get?_toName_map hd .cn
  refine ⟨n, hn, ?_, ?_⟩
  · refine (subject_issued_iff (p := p) (r := r) rfl rfl rfl hf hr hd hn ho).2 fun u hu => ?_
    have hnone : requestedOver? .o (.map [("CN", "www.example.com"), ("O", "Org")]) r = none := by
      decide
    rw [hnone] at hu
    cases hu
  · intro h
    have hu := (subject_issued_iff (p := p) (r := r) rfl rfl rfl hf hr hd hn hcn).1 h _ hover
    exact absurd hu (by decide)

/-- A requested attribute goes past the policy's subject, and so does another spelling of one. -/
theorem requested_over_subject_issued :
    let p (s : SubjectSpec) : SigningPolicy := { kind := .x509, subject := some s }
    let pushed : CertificateRequest :=
      { CertificateRequest.new .x509 with nameAttributes := [(.cn, "evil")] }
    let spelled : CertificateRequest :=
      { CertificateRequest.new .x509 with subject := some (.map [("o", "evil")]) }
    ((SubjectSpec.text "CN=forced").toName = .ok ⟨[(.cn, "forced")]⟩ ∧
      ∃ n, issuedName (pushed.under (some (p (.text "CN=forced")))) = .ok n ∧
        n.value? .cn = some "evil") ∧
    ((SubjectSpec.map [("O", "Org")]).toName = .ok ⟨[(.o, "Org")]⟩ ∧
      ∃ n, issuedName (spelled.under (some (p (.map [("O", "Org")])))) = .ok n ∧
        n.value? .o = some "evil") := by
  intro p pushed spelled
  have htext : (SubjectSpec.text "CN=forced").toName = .ok ⟨[(.cn, "forced")]⟩ := rfl
  have hmap : (SubjectSpec.map [("O", "Org")]).toName = .ok ⟨[(.o, "Org")]⟩ := by
    show Except.ok (DistinguishedName.ofPairs (List.mergeSort [(.o, "Org")] _)) = _
    rw [List.mergeSort_singleton]
    rfl
  have hpushed : issuedName (pushed.under (some (p (.text "CN=forced")))) =
      .ok (IssuedName.ofView ⟨[(.cn, "evil")]⟩) := rfl
  have hunique : (DistinguishedName.mk [(.cn, "evil")]).IsUnique :=
    DistinguishedName.isUnique_ofPairs [(.cn, "evil")]
  obtain ⟨n, hspelled⟩ : ∃ n, issuedName (spelled.under (some (p (.map [("O", "Org")])))) = .ok n :=
    ⟨_, rfl⟩
  have hf (k v : String) : (SubjectSpec.map [(k, v)]).IsOrdered := List.pairwise_singleton _ _
  have hr (s : SubjectSpec) (h : spelled.subject = some s) : s.IsOrdered := by
    obtain rfl := Option.some.inj h
    exact hf "o" "evil"
  refine ⟨⟨htext, _, hpushed, ?_⟩, ⟨hmap, n, hspelled, ?_⟩⟩
  · rw [IssuedName.value?_ofView hunique]
    rfl
  · have hover : requestedOver? .o (.map [("O", "Org")]) spelled = some "evil" := by
      decide
    rw [value?_issuedName_of_subject (p := p _) rfl rfl rfl (hf "O" "Org") hr hmap hspelled rfl,
      hover]
    rfl

end SigningPolicy
end CertAuthority
