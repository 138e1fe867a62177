import CertAuthority.Proofs.Policy.Tables

/-!
# What a policy takes from its tables

A table is flat: fields, name attributes and extensions share one space of keys. So that nothing in
it is ignored, every key has to be one of these, and what a policy has is told key by key.

* `Toml.ConsistsOf`, `lastValue?` : an entry of a configuration file is one table or a list of them.
  What stands under a key is found in the last one that has it (`of_ofToml?_eq_some`);
* `valueOf?` : the value of an extension among entries. A fold that inserts entries is compared with
  it one entry at a time (`valueOf?_cons`), for inner tables (`foldlM_addRaw`) and for the entries
  that are not fields (`adds_of_foldlM`);
* `Allows` : an allow-list by the names that are written in it;
* `IsMadeOf` : a policy and its table, which is `made_of_tables` for all entries that are accepted.
-/

namespace CertAuthority

/-! ## Tables in a configuration file -/

namespace Toml

theorem inKeyOrder_membersToJson (date : String → Json) (members : List (String × Toml)) :
    Json.InKeyOrder (membersToJson date members) := by
  induction members with
  | nil => exact List.Pairwise.nil
  | cons e members ih =>
    obtain ⟨k, v⟩ := e
    rw [membersToJson]
    exact Json.inKeyOrder_insertMember k _ ih

theorem lookup_membersToJson (date : String → Json) (members : List (String × Toml))
    (key : String) :
    (membersToJson date members).lookup key = (members.lookup key).map (toJson date) := by
  induction members with
  | nil => rfl
  | cons e members ih =>
    obtain ⟨k, v⟩ := e
    rw [membersToJson, Json.lookup_insertMember, ih, Json.lookup_cons]
    split <;> rfl

/-- An object is written for a table, so it is in key order. -/
theorem inKeyOrder_of_toJson_eq {v : Toml} {members : List (String × Json)}
    (h : toJson dateAsText v = .obj members) : Json.InKeyOrder members := by
  cases v with
  | table entries =>
    rw [toJson, Json.obj.injEq] at h
    exact h ▸ inKeyOrder_membersToJson dateAsText entries
  | _ => simp [toJson, dateAsText] at h

/-- An entry that is one table, or a list of tables. -/
inductive ConsistsOf : Toml → List (List (String × Toml)) → Prop
  | table (members : List (String × Toml)) : ConsistsOf (.table members) [members]
  | list (tables : List (List (String × Toml))) : ConsistsOf (.list (tables.map .table)) tables

end Toml

namespace PolicyTable

variable {t : PolicyTable} {entry : Toml}

/-- The value of a key is that of the last table that has the key. -/
def lastValue? (tables : List (List (String × Toml))) (key : String) : Option Json :=
  (tables.reverse.findSome? (·.lookup key)).map (Toml.toJson Toml.dateAsText)

theorem lookup_foldl_overlay {parts : List PolicyTable} (h : ∀ part ∈ parts, Json.InKeyOrder part)
    (key : String) :
    (parts.foldl overlay []).lookup key = parts.reverse.findSome? (·.lookup key) := by
  induction parts using List.reverseRecOn with
  | nil => rfl
  | append_singleton parts part ih =>
    rw [List.forall_mem_append, List.forall_mem_singleton] at h
    have hover (lower : PolicyTable) : overlay lower part = Json.insertAll part lower := rfl
    rw [List.foldl_append, List.foldl_cons, List.foldl_nil, hover, Json.lookup_insertAll h.2, ih h.1,
      List.reverse_append, List.reverse_singleton, List.singleton_append, List.findSome?_cons]
    cases part.lookup key <;> rfl

theorem inKeyOrder_foldl_overlay (parts : List PolicyTable) :
    Json.InKeyOrder (parts.foldl overlay []) := by
  induction parts using List.reverseRecOn with
  | nil => exact List.Pairwise.nil
  | append_singleton parts part ih =>
    rw [List.foldl_append]
    exact Json.inKeyOrder_insertAll part ih

/-- What is taken for a table is one, or it is a date. -/
theorem single?_eq_some {part : PolicyTable} (h : single? entry = some part) :
    Json.InKeyOrder part ∧ ((part.lookup Toml.dateKey).isSome ∨
      ∃ members, entry = .table members ∧ part = Toml.membersToJson Toml.dateAsText members) := by
  cases entry with
  | table members =>
    obtain rfl := Option.some.inj h
    exact ⟨Toml.inKeyOrder_membersToJson _ members, .inr ⟨members, rfl, rfl⟩⟩
  | date s =>
    obtain rfl := Option.some.inj h
    exact ⟨List.pairwise_singleton _ _, .inl (by simp)⟩
  | _ => cases h

theorem tables_of_mapM {items : List Toml} {parts : List PolicyTable}
    (h : items.mapM single? = some parts) :
    (∀ part ∈ parts, Json.InKeyOrder part) ∧
      ((∀ part ∈ parts, part.lookup Toml.dateKey = none) →
        ∃ tables : List (List (String × Toml)), items = tables.map .table ∧
          parts = tables.map (Toml.membersToJson Toml.dateAsText)) := by
  induction items generalizing parts with
  | nil =>
    obtain rfl := Option.some.inj h
    exact ⟨nofun, fun _ => ⟨[], rfl, rfl⟩⟩
  | cons item items ih =>
    simp only [List.mapM_cons, Option.bind_eq_bind, Option.bind_eq_some_iff] at h
    obtain ⟨part, hpart, rest, hrest, h⟩ := h
    obtain rfl := Option.some.inj h
    obtain ⟨horder, htable⟩ := single?_eq_some hpart
    obtain ⟨horders, htables⟩ := ih hrest
    refine ⟨List.forall_mem_cons.2 ⟨horder, horders⟩, fun hdate => ?_⟩
    rw [List.forall_mem_cons] at hdate
    obtain hsome | ⟨members, rfl, rfl⟩ := htable
    · rw [hdate.1] at hsome
      cases hsome
    · obtain ⟨tables, rfl, rfl⟩ := htables hdate.2
      exact ⟨members :: tables, rfl, rfl⟩

/-- The entries are those of the tables, unless one of them was a date. -/
theorem of_ofToml?_eq_some (h : ofToml? entry = some t) :
    Json.InKeyOrder t ∧ (t.lookup Toml.dateKey = none →
      ∃ tables, Toml.ConsistsOf entry tables ∧ ∀ key, t.lookup key = lastValue? tables key) := by
  have hsingle (h : single? entry = some t) : Json.InKeyOrder t ∧ (t.lookup Toml.dateKey = none →
      ∃ tables, Toml.ConsistsOf entry tables ∧ ∀ key, t.lookup key = lastValue? tables key) := by
    obtain ⟨horder, htable⟩ := single?_eq_some h
    refine ⟨horder, fun hdate => ?_⟩
    obtain hsome | ⟨members, rfl, rfl⟩ := htable
    · rw [hdate] at hsome
      cases hsome
    · refine ⟨[members], .table members, fun key => ?_⟩
      rw [Toml.lookup_membersToJson]
      cases hm : members.lookup key <;> simp [lastValue?, hm]
  cases entry with
  | list items =>
    obtain ⟨parts, hparts, h⟩ := Option.bind_eq_some_iff.1 h
    obtain rfl := Option.some.inj h
    obtain ⟨horders, htables⟩ := tables_of_mapM hparts
    refine ⟨inKeyOrder_foldl_overlay parts, fun hdate => ?_⟩
    rw [lookup_foldl_overlay horders, List.findSome?_eq_none_iff] at hdate
    obtain ⟨tables, rfl, rfl⟩ := htables fun part hpart => hdate part (List.mem_reverse.2 hpart)
    refine ⟨tables, .list tables, fun key => ?_⟩
    rw [lookup_foldl_overlay horders, lastValue?, List.map_findSome?, ← List.map_reverse,
      List.findSome?_map]
    congr 1
    funext members
    exact Toml.lookup_membersToJson _ members key
  | _ => exact hsingle h

/-! ## Extensions among entries -/

/-- The value under the name of an extension, where it is a text or stands for one. -/
def valueOf? (entries : PolicyTable) (k : ExtensionKind) : Option ExtensionValue :=
  ((entries.lookup k.name).bind textOf?).map k.parseValue

/-- An entry put before entries that take its place where they have its name. -/
theorem valueOf?_cons {name : String} {j : Json} {s : String} (hj : textOf? j = some s)
    {rest : PolicyTable} (horder : Json.InKeyOrder ((name, j) :: rest)) (k : ExtensionKind)
    (before : Option ExtensionValue) :
    (valueOf? ((name, j) :: rest) k <|> before) =
      (valueOf? rest k <|> if k.name = name then some (k.parseValue s) else before) := by
  rw [valueOf?, valueOf?, Json.lookup_cons]
  by_cases hk : k.name = name
  · rw [if_pos hk, if_pos hk, hk, Json.lookup_eq_none_of_lt (List.pairwise_cons.1 horder).1]
    simp [hj]
  · rw [if_neg hk, if_neg hk]

theorem get?_insertRaw (s : ExtensionSet) (k : ExtensionKind) (raw : String) (l : ExtensionKind) :
    (s.insertRaw k raw).get? l = if l.name = k.name then some (l.parseValue raw) else s.get? l := by
  rw [ExtensionSet.insertRaw, ExtensionSet.get?_insert]
  by_cases hl : l = k
  · rw [if_pos hl, if_pos (congrArg _ hl), hl]
  · rw [if_neg hl, if_neg (ExtensionKind.name_injective.ne hl)]

/-! ### Inner tables -/

/-- The entries of a table that stands under a key. -/
def tableAt (t : PolicyTable) (key : String) : PolicyTable :=
  match t.lookup key with
  | some (.obj members) => members
  | _ => []

/-- Raw values as a table has them. -/
def ofRaw (raws : List (String × String)) : PolicyTable := raws.map fun (k, s) => (k, .str s)

theorem readRaw_eq_ok_iff {j : Json} {raws : List (String × String)} :
    readRaw j = .ok raws ↔ j = .obj (ofRaw raws) := by
  have hentry (e : String × Json) (raw : String × String) :
      (do return (e.1, ← Json.asString e.2) : Except Json.Refusal (String × String)) = .ok raw ↔
        (raw.1, Json.str raw.2) = e := by
    obtain ⟨k, v⟩ := e
    cases v <;> simp [Json.asString, Json.mismatch, bind, Except.bind, pure, Except.pure, Prod.ext_iff,
      eq_comm]
  cases j with
  | obj members =>
    rw [Json.obj.injEq]
    exact (Json.mapM_eq_ok_iff hentry).trans eq_comm
  | _ => simp [readRaw, Json.asMembers, Json.mismatch, bind, Except.bind]

theorem foldlM_addRaw {raws : List (String × String)} {s s' : ExtensionSet}
    (horder : Json.InKeyOrder (ofRaw raws)) (h : raws.foldlM addRaw s = .ok s') :
    (∀ e ∈ raws, ∃ k : ExtensionKind, k.name = e.1) ∧
      ∀ k, s'.get? k = (valueOf? (ofRaw raws) k <|> s.get? k) := by
  induction raws generalizing s with
  | nil =>
    obtain rfl := Except.ok.inj h
    exact ⟨nofun, fun k => rfl⟩
  | cons e raws ih =>
    obtain ⟨name, raw⟩ := e
    rw [List.foldlM_cons, Outcome.bind_eq_ok_iff] at h
    obtain ⟨next, hnext, h⟩ := h
    rw [addRaw] at hnext
    cases hk : ExtensionKind.ofName? name with
    | none =>
      rw [hk] at hnext
      cases hnext
    | some k =>
      rw [hk] at hnext
      obtain rfl := Except.ok.inj hnext
      obtain rfl := ExtensionKind.ofName?_eq_some_iff.1 hk
      obtain ⟨hknown, hget⟩ := ih (List.pairwise_cons.1 horder).2 h
      refine ⟨List.forall_mem_cons.2 ⟨⟨k, rfl⟩, hknown⟩, fun l => ?_⟩
      rw [hget l, get?_insertRaw]
      exact (valueOf?_cons rfl horder l (s.get? l)).symm

/-! ### Entries that are not fields -/

/-- Forced among the critical options; the other kinds are forced among the extensions. -/
def isOption (k : ExtensionKind) : Bool := k.section? = some .criticalOption

/-- What the policy forces among the options, or among the extensions. -/
def forcedAmong (options : Bool) (p : SigningPolicy) : ExtensionSet :=
  bif options then p.forcedOptions else p.forcedExtensions

/-- The policy with one more extension that it forces. -/
def force (p : SigningPolicy) (k : ExtensionKind) (s : String) : SigningPolicy :=
  if k.section? = some .criticalOption then
    { p with forcedOptions := p.forcedOptions.insertRaw k s }
  else { p with forcedExtensions := p.forcedExtensions.insertRaw k s }

theorem get?_force (options : Bool) (p : SigningPolicy) (k : ExtensionKind) (s : String)
    (l : ExtensionKind) :
    (forcedAmong options (force p k s)).get? l =
      if isOption l = options ∧ l.name = k.name then some (l.parseValue s)
      else (forcedAmong options p).get? l := by
  have hsame (hname : l.name = k.name) : isOption l = isOption k :=
    congrArg isOption (ExtensionKind.name_injective hname)
  have hput : (forcedAmong options (force p k s)).get? l =
      if isOption k = options ∧ l.name = k.name then some (l.parseValue s)
      else (forcedAmong options p).get? l := by
    unfold force
    split <;> cases options <;> simp [forcedAmong, isOption, get?_insertRaw, *]
  rw [hput]
  by_cases hname : l.name = k.name
  · rw [hsame hname]
  · simp [hname]

/-- What the entries force among the options, or among the extensions. -/
def among? (options : Bool) (entries : PolicyTable) (k : ExtensionKind) : Option ExtensionValue :=
  if isOption k = options then valueOf? entries k else none

/-- The policy without what entries that are not fields add to it. -/
def unforced (p : SigningPolicy) : SigningPolicy :=
  { p with nameAttributes := [], forcedOptions := .empty, forcedExtensions := .empty }

/-- A key of an entry that is no field. -/
def IsExtra (key : String) : Prop :=
  (NameAttribute.ofShortName? key).isSome ∨ ∃ k : ExtensionKind, k.name = key

theorem ofShortName?_name (k : ExtensionKind) : NameAttribute.ofShortName? k.name = none := by
  have hall : ∀ k ∈ ExtensionKind.all, NameAttribute.ofShortName? k.name = none := by decide +kernel
  exact hall k (ExtensionKind.mem_all k)

theorem of_addEntry {p q : SigningPolicy} {name : String} {j : Json}
    (h : addEntry p (name, j) = .ok q) :
    IsExtra name ∧ unforced q = unforced p ∧ ∃ s, textOf? j = some s ∧
      ∀ options k, (forcedAmong options q).get? k =
        if isOption k = options ∧ k.name = name then some (k.parseValue s)
        else (forcedAmong options p).get? k := by
  rw [addEntry] at h
  dsimp only at h
  cases hs : textOf? j with
  | none =>
    rw [hs] at h
    cases h
  | some s =>
    cases ha : NameAttribute.ofShortName? name with
    | some a =>
      rw [hs, ha] at h
      obtain rfl := Except.ok.inj h
      refine ⟨.inl (by simp [ha]), rfl, s, rfl, fun options k => ?_⟩
      have hname : k.name ≠ name := by
        rintro rfl
        rw [ofShortName?_name] at ha
        cases ha
      rw [if_neg fun hk => hname hk.2]
      rfl
    | none =>
      cases hl : ExtensionKind.ofName? name with
      | none =>
        rw [hs, ha, hl] at h
        cases h
      | some l =>
        rw [hs, ha, hl] at h
        obtain rfl : force p l s = q := Except.ok.inj h
        obtain rfl := ExtensionKind.ofName?_eq_some_iff.1 hl
        refine ⟨.inr ⟨l, rfl⟩, ?_, s, rfl, fun options k => get?_force options p l s k⟩
        unfold force
        split <;> rfl

/-- What the entries do to a policy. -/
structure Adds (entries : PolicyTable) (p q : SigningPolicy) : Prop where
  text : ∀ e ∈ entries, (textOf? e.2).isSome
  extra : ∀ e ∈ entries, IsExtra e.1
  unforced_eq : unforced q = unforced p
  forced : ∀ options k, (forcedAmong options q).get? k =
    (among? options entries k <|> (forcedAmong options p).get? k)

theorem adds_of_foldlM {entries : PolicyTable} {p q : SigningPolicy}
    (horder : Json.InKeyOrder entries) (h : entries.foldlM addEntry p = .ok q) :
    Adds entries p q := by
  induction entries generalizing p with
  | nil =>
    obtain rfl := Except.ok.inj h
    refine ⟨nofun, nofun, rfl, fun options k => ?_⟩
    simp [among?, valueOf?]
  | cons e entries ih =>
    obtain ⟨name, j⟩ := e
    rw [List.foldlM_cons, Outcome.bind_eq_ok_iff] at h
    obtain ⟨next, hnext, h⟩ := h
    obtain ⟨hextra, hunforced, s, hs, hforced⟩ := of_addEntry hnext
    have hrest := ih (List.pairwise_cons.1 horder).2 h
    refine ⟨List.forall_mem_cons.2 ⟨by simp [hs], hrest.text⟩,
      List.forall_mem_cons.2 ⟨hextra, hrest.extra⟩, hrest.unforced_eq.trans hunforced,
      fun options k => ?_⟩
    rw [hrest.forced, hforced, among?, among?]
    by_cases hk : isOption k = options
    · simp only [hk, true_and, if_true]
      exact (valueOf?_cons hs horder k _).symm
    · simp [hk]

/-! ## What a policy takes from a table -/

/-- A key that a table may have. -/
def IsKnown (key : String) : Prop := key ∈ fieldNames ∨ IsExtra key

/-- Under the key stands nothing, or a table of texts under the names of extensions. -/
def HoldsExtensions (t : PolicyTable) (key : String) : Prop :=
  ∀ j, t.lookup key = some j → ∃ members, j = .obj members ∧
    ∀ e ∈ members, (∃ k : ExtensionKind, k.name = e.1) ∧ ∃ s, e.2 = .str s

/-- What may be requested, from the list of names that stands there. -/
inductive Allows : Option Json → Allowed → Prop
  | missing : Allows none .any
  | wildcard {names : List String} (h : "*" ∈ names) : Allows (some (Json.ofStrings names)) .any
  | names {names : List String} {permitted : ExtensionKind → Bool} (h : "*" ∉ names)
      (known : ∀ name ∈ names, ∃ k : ExtensionKind, k.name = name)
      (permits : ∀ k, permitted k = true ↔ k.name ∈ names) :
      Allows (some (Json.ofStrings names)) (.only permitted)

/-- A value as it is written under one of two names. -/
def IsWritten {α : Type} (write : α → Json) (j? other? : Option Json) (a : Option α) : Prop :=
  (j? = none ∨ other? = none) ∧ (j? <|> other?) = a.map write

/-- What the policy makes of a request among the options, or among the extensions. -/
def givenAmong (options : Bool) (p : SigningPolicy) (r : CertificateRequest) : ExtensionSet :=
  bif options then (p.resolve r).options else (p.resolve r).extensions

/-- The policy has what stands in these fields of the table, and no limit in them is left out. -/
structure TakesFields (p : SigningPolicy) (t : PolicyTable) : Prop where
  inner : ∀ key ∈ ["forced_options", "default_options", "forced_extensions", "default_extensions"],
    HoldsExtensions t key
  defaultOptions : ∀ k, p.defaultOptions.get? k = valueOf? (tableAt t "default_options") k
  defaultExtensions :
    ∀ k, p.defaultExtensions.get? k = valueOf? (tableAt t "default_extensions") k
  allowedOptions : Allows (t.lookup "allowed_options") p.allowedOptions
  allowedExtensions : Allows (t.lookup "allowed_extensions") p.allowedExtensions
  allowedPrincipals : IsWritten Json.ofStrings (t.lookup "allowed_principals")
    (t.lookup "allowed_valid_principals") p.allowedPrincipals
  maxTtl : Option.Rel IsSeconds (t.lookup "max_ttl") p.maxTtl
  requesterMatcher :
    IsWritten .str (t.lookup "minions") (t.lookup "requester_matcher") p.requesterMatcher

/-- The key of the table of forced options, or of forced extensions. -/
def forcedKey (options : Bool) : String :=
  bif options then "forced_options" else "forced_extensions"

/-- The policy has what the table says, and the table says nothing that is not known. -/
structure IsMadeOf (p : SigningPolicy) (t : PolicyTable) : Prop extends TakesFields p t where
  known : ∀ key, t.lookup key ≠ none → IsKnown key
  /-- An extension among the fields is forced, whatever is requested. -/
  extra : ∀ (k : ExtensionKind) j, t.lookup k.name = some j → ∃ s, textOf? j = some s ∧
    (forcedAmong (isOption k) p).get? k = some (k.parseValue s) ∧
    ∀ r, (givenAmong (isOption k) p r).get? k = some (k.parseValue s)
  /-- It takes the place of what the table of forced ones has for it. -/
  forced : ∀ options k, (forcedAmong options p).get? k =
    (among? options t k <|> valueOf? (tableAt t (forcedKey options)) k)

theorem asStrings_eq_ok_iff {j : Json} {names : List String} :
    Json.asList Json.asString j = .ok names ↔ j = Json.ofStrings names := by
  have hstring (item : Json) (s : String) : Json.asString item = .ok s ↔ Json.str s = item := by
    cases item <;> simp [Json.asString, Json.mismatch, eq_comm]
  cases j with
  | arr items =>
    rw [Json.ofStrings, Json.arr.injEq]
    exact (Json.mapM_eq_ok_iff hstring).trans eq_comm
  | _ => simp [Json.asList, Json.mismatch, Json.ofStrings]

theorem allows_of_read {j? : Option Json} {a : Allowed} (h : Json.IsField Allowed.read .any j? a) :
    Allows j? a := by
  cases j? with
  | none =>
    obtain rfl : a = .any := h
    exact .missing
  | some j =>
    obtain ⟨names, hj, hnames⟩ := Outcome.bind_eq_ok_iff.1 h
    obtain rfl := asStrings_eq_ok_iff.1 hj
    rw [Allowed.ofNames] at hnames
    split at hnames
    · rename_i hwildcard
      obtain rfl := Except.ok.inj hnames
      exact .wildcard (by simpa using hwildcard)
    · rename_i hwildcard
      obtain ⟨kinds, hkinds, rfl⟩ := Outcome.map_eq_ok_iff.1 hnames
      obtain rfl := (Json.mapM_eq_ok_iff fun _ _ => ExtensionKind.ofName_eq_ok_iff).1 hkinds
      refine .names (by simpa using hwildcard) (fun name hname => ?_) fun k => ?_
      · obtain ⟨k, -, hk⟩ := List.mem_map.1 hname
        exact ⟨k, hk⟩
      · rw [List.contains_iff_mem, List.mem_map_of_injective ExtensionKind.name_injective]

/-- What was read under one of two names is what is written there. -/
theorem IsEither.isWritten {α : Type} {value : Json.Reader α} {write : α → Json}
    {j? other? : Option Json} {a : Option α} (h : IsEither value j? other? a)
    (hwrite : ∀ j b, value j = .ok b → j = write b) : IsWritten write j? other? a := by
  refine ⟨h.1, ?_⟩
  have hread := h.2
  cases hj : (j? <|> other?) with
  | none =>
    rw [hj, isOptional_none] at hread
    rw [hread]
    rfl
  | some j =>
    rw [hj, isOptional_some] at hread
    obtain ⟨b, hb, rfl⟩ := hread
    rw [hwrite j b hb]
    rfl

theorem rel_isSeconds {j? : Option Json} {d : Option Duration}
    (h : IsOptional Duration.read j? d) : Option.Rel IsSeconds j? (d.map (·.seconds)) := by
  cases j? with
  | none =>
    obtain rfl := isOptional_none.1 h
    exact .none
  | some j =>
    obtain ⟨b, hb, rfl⟩ := isOptional_some.1 h
    exact .some (durationRead_eq_ok_iff.1 hb).2

/-- The set of the extensions in an inner table. -/
theorem of_extensionSet {key : String} {raws : List (String × String)} {s : ExtensionSet}
    (hobject : ∀ members, t.lookup key = some (.obj members) → Json.InKeyOrder members)
    (hread : Json.IsField readRaw [] (t.lookup key) raws) (h : extensionSet raws = .ok s) :
    HoldsExtensions t key ∧ ∀ k, s.get? k = valueOf? (tableAt t key) k := by
  have htable : tableAt t key = ofRaw raws ∧ Json.InKeyOrder (ofRaw raws) ∧
      ∀ j, t.lookup key = some j → j = .obj (ofRaw raws) := by
    cases hj : t.lookup key with
    | none =>
      rw [hj] at hread
      obtain rfl : raws = [] := hread
      exact ⟨by rw [tableAt, hj]; rfl, List.Pairwise.nil, nofun⟩
    | some j =>
      rw [hj] at hread
      obtain rfl := readRaw_eq_ok_iff.1 hread
      exact ⟨by rw [tableAt, hj], hobject _ hj, fun _ h => (Option.some.inj h).symm⟩
  obtain ⟨hat, horder, hj⟩ := htable
  obtain ⟨hknown, hget⟩ := foldlM_addRaw horder h
  refine ⟨fun j hlookup => ⟨_, hj j hlookup, fun e he => ?_⟩, fun k => ?_⟩
  · obtain ⟨raw, hraw, rfl⟩ := List.mem_map.1 he
    exact ⟨hknown raw hraw, raw.2, rfl⟩
  · rw [hat, hget k]
    simp

theorem lookup_otherEntries {key : String} (h : key ∉ fieldNames) :
    t.otherEntries.lookup key = t.lookup key := by
  have hfilter : t.otherEntries.lookup key =
      if !fieldNames.contains key then t.lookup key else none :=
    Json.lookup_filter_keys (fun k => !fieldNames.contains k) t key
  rw [hfilter]
  simp [h]

theorem name_notMem_fieldNames (k : ExtensionKind) : k.name ∉ fieldNames := by
  have hall : ∀ k ∈ ExtensionKind.all, k.name ∉ fieldNames := by decide
  exact hall k (ExtensionKind.mem_all k)

theorem among?_otherEntries (options : Bool) (k : ExtensionKind) :
    among? options t.otherEntries k = among? options t k := by
  rw [among?, valueOf?, lookup_otherEntries (name_notMem_fieldNames k), among?, valueOf?]

/-- A forced entry survives every request. -/
theorem givenAmong_of_forcedAmong {options : Bool} {p : SigningPolicy} {k : ExtensionKind}
    {v : ExtensionValue} (h : (forcedAmong options p).get? k = some v) (r : CertificateRequest) :
    (givenAmong options p r).get? k = some v := by
  cases options with
  | true =>
    have hforced : p.forcedOptions.get? k = some v := h
    simp [givenAmong, mergeSet, hforced]
  | false =>
    have hforced : p.forcedExtensions.get? k = some v := h
    simp [givenAmong, mergeSet, hforced]

/-- Before entries are added that are not fields. -/
theorem of_basePolicy {kind : CertificateKind} {f : PolicyFields} {base : SigningPolicy}
    (hobject : ∀ key members, t.lookup key = some (.obj members) → Json.InKeyOrder members)
    (hf : HasFields t f) (h : basePolicy kind f = .ok base) :
    TakesFields base t ∧
      ∀ options k, (forcedAmong options base).get? k = valueOf? (tableAt t (forcedKey options)) k := by
  simp only [basePolicy, Outcome.bind_eq_ok_iff, pure, Except.pure, Except.ok.injEq] at h
  obtain ⟨_, hfo, _, hdo, _, hfe, _, hde, rfl⟩ := h
  obtain ⟨hholdsFo, hgetFo⟩ := of_extensionSet (hobject _) hf.forcedOptions hfo
  obtain ⟨hholdsDo, hgetDo⟩ := of_extensionSet (hobject _) hf.defaultOptions hdo
  obtain ⟨hholdsFe, hgetFe⟩ := of_extensionSet (hobject _) hf.forcedExtensions hfe
  obtain ⟨hholdsDe, hgetDe⟩ := of_extensionSet (hobject _) hf.defaultExtensions hde
  refine ⟨⟨?_, hgetDo, hgetDe, allows_of_read hf.allowedOptions, allows_of_read hf.allowedExtensions,
    hf.allowedPrincipals.isWritten fun j names hj => asStrings_eq_ok_iff.1 hj,
    rel_isSeconds hf.maxTtl, hf.requesterMatcher.isWritten fun j s hj => ?_⟩, ?_⟩
  · exact List.forall_mem_cons.2 ⟨hholdsFo, List.forall_mem_cons.2 ⟨hholdsDo,
      List.forall_mem_cons.2 ⟨hholdsFe, List.forall_mem_singleton.2 hholdsDe⟩⟩⟩
  · cases j with
    | str s' => rw [Except.ok.inj hj]
    | _ => cases hj
  · rintro (_ | _) k
    · exact hgetFe k
    · exact hgetFo k

/-- What is taken from these fields is not what the other entries add to, nor a lifetime. -/
theorem TakesFields.of_unforced_eq {p q : SigningPolicy} (hp : TakesFields p t)
    (h : unforced q = unforced p) (ttl : Option Nat) : TakesFields { q with ttl } t := by
  have hunforced : TakesFields (unforced p) t :=
    ⟨hp.inner, hp.defaultOptions, hp.defaultExtensions, hp.allowedOptions, hp.allowedExtensions,
      hp.allowedPrincipals, hp.maxTtl, hp.requesterMatcher⟩
  rw [← h] at hunforced
  exact ⟨hunforced.inner, hunforced.defaultOptions, hunforced.defaultExtensions,
    hunforced.allowedOptions, hunforced.allowedExtensions, hunforced.allowedPrincipals,
    hunforced.maxTtl, hunforced.requesterMatcher⟩

theorem adds_of_settles {kind : CertificateKind} {f : PolicyFields} {q : SigningPolicy}
    (horder : Json.InKeyOrder t) (h : Settles kind t f q) :
    ∃ base, basePolicy kind f = .ok base ∧ Adds t.otherEntries base q := by
  obtain ⟨-, base, hbase, hfold⟩ := h
  exact ⟨base, hbase, adds_of_foldlM (horder.filter _) hfold⟩

theorem isKnown_of_settles {kind : CertificateKind} {f : PolicyFields} {q : SigningPolicy}
    (horder : Json.InKeyOrder t) (h : Settles kind t f q) {key : String}
    (hkey : t.lookup key ≠ none) : IsKnown key := by
  obtain ⟨base, -, hadds⟩ := adds_of_settles horder h
  by_cases hfield : key ∈ fieldNames
  · exact .inl hfield
  · obtain ⟨j, hj⟩ := Option.ne_none_iff_exists'.1 hkey
    rw [← lookup_otherEntries hfield] at hj
    exact .inr (hadds.extra (key, j) (Text.mem_of_lookup hj))

theorem not_isKnown_dateKey : ¬ IsKnown Toml.dateKey := by
  have hextension : ∀ k ∈ ExtensionKind.all, k.name ≠ Toml.dateKey := by decide
  rintro (hfield | hattribute | ⟨k, hk⟩)
  · exact absurd hfield (by decide)
  · exact absurd hattribute (by decide +kernel)
  · exact hextension k (ExtensionKind.mem_all k) hk

theorem isMadeOf_of_settles {kind : CertificateKind} {f : PolicyFields} {q : SigningPolicy}
    (horder : Json.InKeyOrder t)
    (hobject : ∀ key members, t.lookup key = some (.obj members) → Json.InKeyOrder members)
    (h : Settles kind t f q) (ttl : Option Nat) : IsMadeOf { q with ttl } t := by
  obtain ⟨base, hbase, hadds⟩ := adds_of_settles horder h
  obtain ⟨htakes, hfirst⟩ := of_basePolicy hobject h.1 hbase
  have hforced (options : Bool) (k : ExtensionKind) : (forcedAmong options { q with ttl }).get? k =
      (among? options t k <|> valueOf? (tableAt t (forcedKey options)) k) := by
    have hget := hadds.forced options k
    rw [among?_otherEntries, hfirst] at hget
    cases options <;> exact hget
  refine ⟨htakes.of_unforced_eq hadds.unforced_eq ttl,
    fun key hkey => isKnown_of_settles horder h hkey, fun k j hj => ?_, hforced⟩
  have hother : t.otherEntries.lookup k.name = some j := by
    rw [lookup_otherEntries (name_notMem_fieldNames k), hj]
  obtain ⟨s, hs⟩ := Option.isSome_iff_exists.1 (hadds.text (k.name, j) (Text.mem_of_lookup hother))
  have hvalue : (forcedAmong (isOption k) { q with ttl }).get? k = some (k.parseValue s) := by
    rw [hforced, among?, if_pos rfl, valueOf?, hj]
    simp [hs]
  exact ⟨s, hs, hvalue, givenAmong_of_forcedAmong hvalue⟩

/-- **A policy takes from its tables what they say, and is refused if they say anything else.**

An entry of a configuration file that comes to a policy is one table or a list of tables, and the
last table with a key decides what stands under it. Each key is a field or another name of one, a
name attribute or an extension, and each name of an extension in the inner tables is known.

An allow-list that has no `*` holds known names, and just these kinds may be requested. The ceiling
and the requester matcher are as they are written, and a matcher under both of its names is refused.
Critical options and the other extensions are forced in a set each, with a table each. An extension
among the fields is forced in its set with the value of its text, in place of what the table of that
set has for it, and whatever is requested. -/
theorem made_of_tables {kind : CertificateKind} {p : SigningPolicy} (ht : ofToml? entry = some t)
    (hp : t.toPolicy kind = .ok p) :
    (∃ tables, Toml.ConsistsOf entry tables ∧ ∀ key, t.lookup key = lastValue? tables key) ∧
      IsMadeOf p t := by
  obtain ⟨horder, htables⟩ := of_ofToml?_eq_some ht
  obtain ⟨f, q, hsettles, ttl, -, rfl⟩ := toPolicy_eq_ok_iff.1 hp
  have hdate : t.lookup Toml.dateKey = none := by
    by_contra hkey
    exact not_isKnown_dateKey (isKnown_of_settles horder hsettles hkey)
  obtain ⟨tables, hentry, hlookup⟩ := htables hdate
  have hobject (key : String) (members : List (String × Json))
      (h : t.lookup key = some (.obj members)) : Json.InKeyOrder members := by
    rw [hlookup, lastValue?, Option.map_eq_some_iff] at h
    obtain ⟨v, -, hv⟩ := h
    exact Toml.inKeyOrder_of_toJson_eq hv
  exact ⟨⟨tables, hentry, hlookup⟩, isMadeOf_of_settles horder hobject hsettles ttl⟩

/-- Two tables with one command each, and a third command in a table of forced options. -/
def backupEntry : Toml := .list [
  .table [("force-command", .text "/bin/first"), ("max_ttl", .text "1d")],
  .table [("allowed_extensions", .list [.text "permit-pty"]), ("force-command", .text "/bin/last"),
    ("forced_options", .table [("force-command", .text "/bin/other")]), ("minions", .text "web*")]]

def backupTable : PolicyTable :=
  [("allowed_extensions", .arr [.str "permit-pty"]), ("force-command", .str "/bin/last"),
    ("forced_options", .obj [("force-command", .str "/bin/other")]), ("max_ttl", .str "1d"),
    ("minions", .str "web*")]

theorem made_of_tables_last :
    ofToml? backupEntry = some backupTable ∧ ∃ p, backupTable.toPolicy .ssh = .ok p ∧
      (∃ tables, Toml.ConsistsOf backupEntry tables ∧
        ∀ key, backupTable.lookup key = lastValue? tables key) ∧
      IsMadeOf p backupTable := by
  have htable : ofToml? backupEntry = some backupTable := rfl
  obtain ⟨p, hp⟩ := Outcome.exists_eq_ok_of_isOk (x := backupTable.toPolicy .ssh) (by decide +kernel)
  exact ⟨htable, p, hp, made_of_tables htable hp⟩

end PolicyTable
end CertAuthority
