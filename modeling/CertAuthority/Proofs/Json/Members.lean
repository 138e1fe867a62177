import CertAuthority.Json.Basic

/-!
# Members in key order, and the records made of them

The members of an object are a list of keys with values that stand in key order, each key once.

* `Json.lookup_insertMember`, `lookup_insertAll`, `lookup_filter_keys` : what is found in a list that
  members were put into, or left out of;
* `Json.InKeyOrder` : kept by `insertMember`, which adds one member and drops that of the same key;
* `Json.mem_insertAll_iff` : of members put over others, those below remain at keys not above;
* `Json.getLast?_eq_some_iff` : the last member is the one with the greatest key;
* `Json.Codes` : a reader gives back what was written of a value;
* `Json.Gives` : a reader of fields comes to a value over the members of an object. The rules for
  required fields, optional ones and those with a default ask for the member of that name alone;
* `Json.asRecord_eq_ok` : such a reader reads the object.
-/

namespace CertAuthority.Json

variable {α : Type}

/-- The keys ascend. -/
def InKeyOrder (members : List (String × α)) : Prop := members.Pairwise fun e f => e.1 < f.1

theorem InKeyOrder.filter {members : List (String × α)} (h : InKeyOrder members)
    (keep : String × α → Bool) : InKeyOrder (members.filter keep) :=
  List.Pairwise.filter keep h

/-- Only the keys count. -/
theorem inKeyOrder_of_keys_eq {β : Type} {members : List (String × α)} {other : List (String × β)}
    (h : InKeyOrder members) (hk : other.map (·.1) = members.map (·.1)) : InKeyOrder other := by
  have hkeys : (members.map (·.1)).Pairwise (· < ·) := List.pairwise_map.2 h
  rw [← hk] at hkeys
  exact List.pairwise_map.1 hkeys

theorem lt_of_not_lt_of_ne {k l : String} (h : ¬ k < l) (hne : k ≠ l) : l < k :=
  String.not_le.1 fun hle => hne (String.le_antisymm hle h)

/-! ## Lookup -/

@[simp] theorem lookup_cons (key name : String) (value : α) (rest : List (String × α)) :
    ((name, value) :: rest).lookup key = if key = name then some value else rest.lookup key := by
  by_cases h : key = name
  · simp [h]
  · rw [List.lookup_cons, beq_eq_false_iff_ne.2 h, if_neg h]

theorem lookup_eq_none_of_lt {key : String} {members : List (String × α)}
    (h : ∀ e ∈ members, key < e.1) : members.lookup key = none :=
  List.lookup_eq_none_iff.2 fun e he => bne_iff_ne.2 (String.ne_of_lt (h e he))

/-- What is found among the members whose keys were kept. -/
theorem lookup_filter_keys (keep : String → Bool) (members : List (String × α)) (key : String) :
    (members.filter fun e => keep e.1).lookup key =
      if keep key then members.lookup key else none := by
  induction members with
  | nil => simp
  | cons e members ih =>
    obtain ⟨k, v⟩ := e
    rw [List.filter_cons]
    by_cases hk : key = k
    · subst hk
      cases hkeep : keep key <;> simp [hkeep, ih]
    · rw [lookup_cons, if_neg hk, ← ih]
      split
      · rw [lookup_cons, if_neg hk]
      · rfl

theorem lookup_insertMember (name : String) (value : α) (members : List (String × α))
    (key : String) : (insertMember name value members).lookup key =
      if key = name then some value else members.lookup key := by
  induction members with
  | nil => exact lookup_cons key name value []
  | cons e rest ih =>
    obtain ⟨k, v⟩ := e
    rw [insertMember]
    split
    · rw [lookup_cons]
    · split
      · rename_i heq
        rw [lookup_cons, lookup_cons, heq]
        split <;> rfl
      · rename_i hne
        rw [lookup_cons, lookup_cons, ih]
        by_cases h : key = name
        · rw [if_pos h, if_pos h, if_neg (by rw [h]; exact hne)]
        · rw [if_neg h, if_neg h]

/-! ## Insertion -/

/-- A key below all others comes first. -/
theorem insertMember_of_lt {key : String} (value : α) {members : List (String × α)}
    (h : ∀ x ∈ members, key < x.1) : insertMember key value members = (key, value) :: members := by
  cases members with
  | nil => rfl
  | cons e members => exact if_pos (h e List.mem_cons_self)

theorem mem_insertMember_iff (key : String) (value : α) {members : List (String × α)}
    (h : InKeyOrder members) (x : String × α) :
    x ∈ insertMember key value members ↔ x = (key, value) ∨ x ∈ members ∧ x.1 ≠ key := by
  induction members with
  | nil => simp [insertMember]
  | cons e members ih =>
    obtain ⟨k, v⟩ := e
    obtain ⟨hhead, htail⟩ := List.pairwise_cons.1 h
    rw [insertMember]
    by_cases hlt : key < k
    · -- All keys are beyond the new one.
      have hbeyond : x ∈ (k, v) :: members → x.1 ≠ key := by
        intro hx
        obtain rfl | hx := List.mem_cons.1 hx
        · exact (String.ne_of_lt hlt).symm
        · exact (String.ne_of_lt (String.lt_trans hlt (hhead x hx))).symm
      simp only [hlt, if_true, List.mem_cons (b := (key, value))]
      constructor
      · rintro (hx | hx)
        · exact .inl hx
        · exact .inr ⟨hx, hbeyond hx⟩
      · rintro (hx | ⟨hx, -⟩)
        · exact .inl hx
        · exact .inr hx
    · by_cases heq : key = k
      · subst heq
        have hbeyond : x ∈ members → x.1 ≠ key := fun hx => (String.ne_of_lt (hhead x hx)).symm
        simp only [hlt, if_false, if_true, List.mem_cons]
        constructor
        · rintro (hx | hx)
          · exact .inl hx
          · exact .inr ⟨.inr hx, hbeyond hx⟩
        · rintro (hx | ⟨rfl | hx, hne⟩)
          · exact .inl hx
          · exact absurd rfl hne
          · exact .inr hx
      · simp only [hlt, heq, if_false, List.mem_cons, ih htail]
        constructor
        · rintro (rfl | hx | ⟨hx, hne⟩)
          · exact .inr ⟨.inl rfl, fun e => heq e.symm⟩
          · exact .inl hx
          · exact .inr ⟨.inr hx, hne⟩
        · rintro (hx | ⟨hx | hx, hne⟩)
          · exact .inr (.inl hx)
          · exact .inl hx
          · exact .inr (.inr ⟨hx, hne⟩)

theorem inKeyOrder_insertMember (key : String) (value : α) {members : List (String × α)}
    (h : InKeyOrder members) : InKeyOrder (insertMember key value members) := by
  induction members with
  | nil => exact List.pairwise_singleton _ _
  | cons e members ih =>
    obtain ⟨k, v⟩ := e
    obtain ⟨hhead, htail⟩ := List.pairwise_cons.1 h
    rw [insertMember]
    by_cases hlt : key < k
    · rw [if_pos hlt]
      refine List.pairwise_cons.2 ⟨fun x hx => ?_, h⟩
      obtain rfl | hx := List.mem_cons.1 hx
      · exact hlt
      · exact String.lt_trans hlt (hhead x hx)
    · rw [if_neg hlt]
      by_cases heq : key = k
      · subst heq
        rw [if_pos rfl]
        exact List.pairwise_cons.2 ⟨hhead, htail⟩
      · rw [if_neg heq]
        refine List.pairwise_cons.2 ⟨fun x hx => ?_, ih htail⟩
        obtain rfl | ⟨hx, -⟩ := (mem_insertMember_iff key value htail x).1 hx
        · exact lt_of_not_lt_of_ne hlt heq
        · exact hhead x hx

/-- Puts all members of `upper` over those below. -/
def insertAll (upper members : List (String × α)) : List (String × α) :=
  upper.foldl (fun out (k, v) => insertMember k v out) members

theorem inKeyOrder_insertAll (upper : List (String × α)) {members : List (String × α)}
    (h : InKeyOrder members) : InKeyOrder (insertAll upper members) := by
  induction upper generalizing members with
  | nil => exact h
  | cons e upper ih => exact ih (inKeyOrder_insertMember e.1 e.2 h)

theorem mem_insertAll_iff {upper members : List (String × α)} (hu : InKeyOrder upper)
    (h : InKeyOrder members) (x : String × α) :
    x ∈ insertAll upper members ↔ x ∈ upper ∨ x ∈ members ∧ ∀ e ∈ upper, x.1 ≠ e.1 := by
  induction upper generalizing members with
  | nil => simp [insertAll]
  | cons e upper ih =>
    obtain ⟨hhead, htail⟩ := List.pairwise_cons.1 hu
    have hstep : insertAll (e :: upper) members =
        insertAll upper (insertMember e.1 e.2 members) := rfl
    rw [hstep, ih htail (inKeyOrder_insertMember e.1 e.2 h), mem_insertMember_iff e.1 e.2 h]
    simp only [List.mem_cons, forall_eq_or_imp]
    constructor
    · rintro (hx | ⟨rfl | ⟨hx, hne⟩, hall⟩)
      · exact .inl (.inr hx)
      · exact .inl (.inl rfl)
      · exact .inr ⟨hx, hne, hall⟩
    · rintro ((rfl | hx) | ⟨hx, hne, hall⟩)
      · -- The keys to come are beyond this one.
        exact .inr ⟨.inl rfl, fun f hf => String.ne_of_lt (hhead f hf)⟩
      · exact .inl hx
      · exact .inr ⟨.inr ⟨hx, hne⟩, hall⟩

theorem lookup_insertAll {upper : List (String × α)} (hu : InKeyOrder upper)
    (members : List (String × α)) (key : String) :
    (insertAll upper members).lookup key = (upper.lookup key <|> members.lookup key) := by
  induction upper generalizing members with
  | nil => rfl
  | cons e upper ih =>
    obtain ⟨k, v⟩ := e
    obtain ⟨hhead, htail⟩ := List.pairwise_cons.1 hu
    have hstep : insertAll ((k, v) :: upper) members = insertAll upper (insertMember k v members) :=
      rfl
    rw [hstep, ih htail, lookup_insertMember, lookup_cons]
    by_cases hk : key = k
    · rw [if_pos hk, if_pos hk, hk, lookup_eq_none_of_lt hhead]
      rfl
    · rw [if_neg hk, if_neg hk]

/-! ## The last member -/

theorem getLast?_eq_some_iff {members : List (String × α)} (h : InKeyOrder members)
    (x : String × α) :
    members.getLast? = some x ↔ x ∈ members ∧ ∀ y ∈ members, ¬ x.1 < y.1 := by
  constructor
  · intro hlast
    obtain ⟨before, rfl⟩ := List.getLast?_eq_some_iff.1 hlast
    refine ⟨by simp, fun y hy => ?_⟩
    obtain hy | hy := List.mem_append.1 hy
    · exact String.lt_asymm ((List.pairwise_append.1 h).2.2 y hy x (List.mem_singleton.2 rfl))
    · rw [List.mem_singleton.1 hy]
      exact String.lt_irrefl x.1
  · rintro ⟨hx, hmax⟩
    cases hlast : members.getLast? with
    | none =>
      rw [List.getLast?_eq_none_iff] at hlast
      rw [hlast] at hx
      cases hx
    | some z =>
      obtain ⟨before, rfl⟩ := List.getLast?_eq_some_iff.1 hlast
      obtain hx | hx := List.mem_append.1 hx
      · have hlt := (List.pairwise_append.1 h).2.2 x hx z (List.mem_singleton.2 rfl)
        exact absurd hlt (hmax z (by simp))
      · rw [List.mem_singleton.1 hx]

/-! ## Records -/

variable {β : Type}

/-- What is written of the value is there, and is read as the value. -/
structure Codes (read : Reader α) (write : α → Json) (a : α) : Prop where
  read_write : read (write a) = .ok a
  ne_null : write a ≠ .null

/-! ## Scalars and lists -/

theorem codes_asString (s : String) : Codes asString .str s := ⟨rfl, nofun⟩

theorem codes_asBool (b : Bool) : Codes asBool .bool b := ⟨rfl, nofun⟩

theorem codes_asU64 {n : Nat} (h : n < bitLimit 64) : Codes asU64 ofNat n := by
  refine ⟨?_, nofun⟩
  rw [ofNat, asU64, asNatBelow, if_pos ⟨Int.natCast_nonneg n, Int.ofNat_lt.2 h⟩, Int.toNat_natCast]

theorem asOption_of_ne_null {value : Reader α} {j : Json} (h : j ≠ .null) :
    asOption value j = some <$> value j := by
  cases j with
  | null => exact absurd rfl h
  | _ => rfl

/-- What is written one by one is read one by one. -/
theorem mapM_write {γ ε : Type} {read : γ → Except ε α} {write : α → γ} {l : List α}
    (h : ∀ a ∈ l, read (write a) = .ok a) : (l.map write).mapM read = .ok l := by
  induction l with
  | nil => rfl
  | cons a rest ih =>
    rw [List.forall_mem_cons] at h
    rw [List.map_cons, List.mapM_cons, h.1, ih h.2]
    rfl

theorem codes_asList {read : Reader α} {write : α → Json} {l : List α}
    (h : ∀ a ∈ l, Codes read write a) : Codes (asList read) (fun l => .arr (l.map write)) l :=
  ⟨mapM_write fun a ha => (h a ha).read_write, nofun⟩

theorem codes_ofStrings (ss : List String) : Codes (asList asString) ofStrings ss :=
  codes_asList fun s _ => codes_asString s

/-! ## Members of an object -/

@[simp] theorem lookup_member? (key name : String) (write : α → Json) (a : Option α) :
    (member? name write a).lookup key = if key = name then a.map write else none := by
  cases a with
  | none => simp [member?]
  | some a => exact lookup_cons key name (write a) []

@[simp] theorem lookup_memberUnless (key name : String) (isDefault : Bool) (value : Json) :
    (memberUnless isDefault name value).lookup key =
      if key = name then if isDefault then none else some value else none := by
  cases isDefault with
  | true => simp [memberUnless]
  | false => exact lookup_cons key name value []

/-- Of a member that may be missing only the name can be unknown. -/
theorem all_member? {names : List String} {name : String} (h : names.contains name = true)
    (write : α → Json) (a : Option α) :
    (member? name write a).all (fun e => names.contains e.1) = true := by
  cases a with
  | none => rfl
  | some a => simpa [member?] using h

theorem denyUnknown_eq_ok {names : List String} {read : Reader α} {members : List (String × Json)}
    {a : α} (hnames : members.all (fun e => names.contains e.1) = true)
    (h : read (.obj members) = .ok a) : denyUnknown names read (.obj members) = .ok a :=
  (if_pos hnames).trans h

/-! ## Readers of fields -/

/-- Over the members the reader comes to the value, and refuses none of them. -/
def Gives (members : List (String × Json)) (x : FieldReader α) (a : α) : Prop :=
  x.run ⟨.named members, none⟩ = (a, ⟨.named members, none⟩)

theorem asRecord_eq_ok {members : List (String × Json)} {x : FieldReader α} {a : α}
    (h : Gives members x a) : asRecord x (.obj members) = .ok a := by
  rw [asRecord, h]
  rfl

namespace Gives

variable {members : List (String × Json)} {name : String} {value : Reader α} {write : α → Json}

theorem pure (a : α) : Gives members (Pure.pure a) a := rfl

theorem bind {x : FieldReader α} {f : α → FieldReader β} {a : α} {b : β} (hx : Gives members x a)
    (hf : Gives members (f a) b) : Gives members (x >>= f) b := by
  rw [Gives, StateT.run_bind, hx]
  exact hf

theorem nextField (name : String) :
    Gives members (Json.nextField name) (members.lookup name) := rfl

theorem of_missing (h : members.lookup name = none) (default : α) :
    Gives members (fieldD name value default) default := by
  refine (nextField name).bind ?_
  rw [h]
  exact pure default

theorem of_value {j : Json} {a : α} (h : members.lookup name = some j) (hj : value j = .ok a)
    (default : α) : Gives members (fieldD name value default) a := by
  refine (nextField name).bind ?_
  rw [h]
  dsimp only
  rw [hj]
  exact pure a

/-- A required field that was written. -/
theorem field [Inhabited α] {a : α} (h : members.lookup name = some (write a))
    (hcodes : Codes value write a) : Gives members (Json.field name value) a := by
  refine (of_value h (a := some a) ?_ none).bind (pure a)
  rw [hcodes.read_write]
  rfl

/-- An optional field, written where it is there. -/
theorem field? {a : Option α} (h : members.lookup name = a.map write)
    (hcodes : ∀ b ∈ a, Codes value write b) : Gives members (Json.field? name value) a := by
  cases a with
  | none => exact of_missing h none
  | some b =>
    have hb := hcodes b rfl
    refine of_value h ?_ none
    rw [asOption_of_ne_null hb.ne_null, hb.read_write]
    rfl

/-- An optional field that is always written, with `null` where it is not there. -/
theorem nullable {a : Option α} (h : members.lookup name = some ((a.map write).getD .null))
    (hcodes : ∀ b ∈ a, Codes value write b) : Gives members (Json.field? name value) a := by
  cases a with
  | none =>
    refine of_value h ?_ none
    rfl
  | some b =>
    have hb := hcodes b rfl
    refine of_value h ?_ none
    rw [Option.map_some, Option.getD_some, asOption_of_ne_null hb.ne_null, hb.read_write]
    rfl

/-- A field with a default, which is not written. -/
theorem fieldD {default a : α} {isDefault : Bool}
    (h : members.lookup name = if isDefault then none else some (write a))
    (hdefault : isDefault = true → a = default) (hcodes : Codes value write a) :
    Gives members (Json.fieldD name value default) a := by
  cases isDefault with
  | true =>
    rw [hdefault rfl]
    exact of_missing h default
  | false => exact of_value h hcodes.read_write default

end Gives
end CertAuthority.Json
