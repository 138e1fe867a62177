import CertAuthority.Policy.Table
import CertAuthority.Proofs.Config.Durations
import CertAuthority.Proofs.Json.Records
import CertAuthority.Proofs.Merge.Extensions

/-!
# The fields of policy tables, and lifetimes

A table is read field by field, by rules that do not depend on each other. So the fields that are
read are told by one condition for each name.

* `HasFields` : the fields of a table. They are what is read (`readFields_eq_ok_iff`);
* `Settles` : a table makes a policy but for its lifetime. `toPolicy_eq_ok_iff` and
  `toPolicy_eq_abandon_iff` say what then comes of the lifetime;
* `HasLifetime` : the seconds that the table says, none of them lost;
* `settles_without_iff` : the number of days makes no other difference;
* `lifetime_exact_or_abandoned` : the lifetime is exact, and which tables abandon the computation.
-/

namespace CertAuthority.PolicyTable

variable {t : PolicyTable}

/-! ## Fields -/

/-- An optional field, from what stands there. -/
def IsOptional {α : Type} (value : Json.Reader α) (j? : Option Json) (a : Option α) : Prop :=
  Json.IsField (fun j => some <$> value j) none j? a

/-- An optional field with two names. Only one of them may be used. -/
def IsEither {α : Type} (value : Json.Reader α) (j? other? : Option Json) (a : Option α) : Prop :=
  (j? = none ∨ other? = none) ∧ IsOptional value (j? <|> other?) a

theorem isOptional_none {α : Type} {value : Json.Reader α} {a : Option α} :
    IsOptional value none a ↔ a = none := Iff.rfl

theorem isOptional_some {α : Type} {value : Json.Reader α} {j : Json} {a : Option α} :
    IsOptional value (some j) a ↔ ∃ b, value j = .ok b ∧ some b = a := Outcome.map_eq_ok_iff

/-- What was read tells whether something stood there. -/
theorem isOptional_eq_none {α : Type} {value : Json.Reader α} {j? : Option Json} :
    IsOptional value j? none ↔ j? = none := by
  cases j? with
  | none => exact ⟨fun _ => rfl, fun _ => rfl⟩
  | some j => simp [isOptional_some]

theorem isOptional_eq_some {α : Type} {value : Json.Reader α} {j? : Option Json} {a : α} :
    IsOptional value j? (some a) ↔ ∃ j, j? = some j ∧ value j = .ok a := by
  cases j? with
  | none => exact ⟨nofun, nofun⟩
  | some j => simp [isOptional_some]

theorem accepts_field? {α : Type} (t : PolicyTable) (name : String) (value : Json.Reader α) :
    Json.Accepts t (field? name value) (IsOptional value (t.lookup name)) :=
  .fieldD name _ none

theorem accepts_eitherField? {α : Type} (t : PolicyTable) (name other : String)
    (value : Json.Reader α) :
    Json.Accepts t (eitherField? name other value)
      (IsEither value (t.lookup name) (t.lookup other)) := by
  refine .nextField_bind (.nextField_bind ?_)
  have hname := accepts_field? t name value
  have hother := accepts_field? t other value
  cases h : t.lookup name with
  | none =>
    rw [h] at hname
    cases ho : t.lookup other with
    | none => exact hname.congr fun a => by simp [IsEither]
    | some k =>
      rw [ho] at hother
      exact hother.congr fun a => by simp [IsEither]
  | some j =>
    rw [h] at hname
    cases ho : t.lookup other with
    | none => exact hname.congr fun a => by simp [IsEither]
    | some k => exact ((Json.Accepts.refuse _ _).bind fun _ => hname).congr fun a => by simp [IsEither]

/-- The overrides that a table has under their names. -/
@[mk_iff]
structure HasOverrides (t : PolicyTable) (o : Overrides) : Prop where
  signingPrivateKey : IsOptional readMaterial (t.lookup "signing_private_key") o.signingPrivateKey
  signingPrivateKeyPassphrase : IsOptional Json.asString (t.lookup "signing_private_key_passphrase")
    o.signingPrivateKeyPassphrase
  signingCert : IsOptional readMaterial (t.lookup "signing_cert") o.signingCert
  signingPublicKey : IsOptional readMaterial (t.lookup "signing_public_key") o.signingPublicKey
  certType : IsOptional readCertType (t.lookup "cert_type") o.certType
  keyId : IsOptional Json.asString (t.lookup "key_id") o.keyId
  digest : IsOptional Digest.read (t.lookup "digest") o.digest
  serialNumber : IsOptional SerialNumber.read (t.lookup "serial_number") o.serialNumber
  notBefore : IsOptional Json.asInstant (t.lookup "not_before") o.notBefore
  notAfter : IsOptional Json.asInstant (t.lookup "not_after") o.notAfter
  copypath : IsOptional Json.asString (t.lookup "copypath") o.copypath
  prependCn : IsOptional Json.asBool (t.lookup "prepend_cn") o.prependCn

theorem accepts_readOverrides (t : PolicyTable) :
    Json.Accepts t readOverrides (HasOverrides t) := by
  refine Json.Accepts.congr (.bind (accepts_field? t _ _) fun _ => .bind (accepts_field? t _ _) fun _ =>
    .bind (accepts_field? t _ _) fun _ => .bind (accepts_field? t _ _) fun _ =>
    .bind (accepts_field? t _ _) fun _ => .bind (accepts_field? t _ _) fun _ =>
    .bind (accepts_field? t _ _) fun _ => .bind (accepts_field? t _ _) fun _ =>
    .bind (accepts_field? t _ _) fun _ => .bind (accepts_field? t _ _) fun _ =>
    .bind (accepts_field? t _ _) fun _ => .bind (accepts_field? t _ _) fun _ => .pure _) fun o => ?_
  constructor
  · rintro ⟨_, h₁, _, h₂, _, h₃, _, h₄, _, h₅, _, h₆, _, h₇, _, h₈, _, h₉, _, h₁₀, _, h₁₁, _, h₁₂,
      rfl⟩
    exact ⟨h₁, h₂, h₃, h₄, h₅, h₆, h₇, h₈, h₉, h₁₀, h₁₁, h₁₂⟩
  · rintro ⟨h₁, h₂, h₃, h₄, h₅, h₆, h₇, h₈, h₉, h₁₀, h₁₁, h₁₂⟩
    exact ⟨_, h₁, _, h₂, _, h₃, _, h₄, _, h₅, _, h₆, _, h₇, _, h₈, _, h₉, _, h₁₀, _, h₁₁, _, h₁₂,
      rfl⟩

/-- The fields that a table has under their names, and under the other names of four of them. -/
@[mk_iff]
structure HasFields (t : PolicyTable) (f : PolicyFields) : Prop where
  forcedOptions : Json.IsField readRaw [] (t.lookup "forced_options") f.forcedOptions
  defaultOptions : Json.IsField readRaw [] (t.lookup "default_options") f.defaultOptions
  allowedOptions : Json.IsField Allowed.read .any (t.lookup "allowed_options") f.allowedOptions
  forcedExtensions : Json.IsField readRaw [] (t.lookup "forced_extensions") f.forcedExtensions
  defaultExtensions : Json.IsField readRaw [] (t.lookup "default_extensions") f.defaultExtensions
  allowedExtensions :
    Json.IsField Allowed.read .any (t.lookup "allowed_extensions") f.allowedExtensions
  allowedPrincipals : IsEither (Json.asList Json.asString) (t.lookup "allowed_principals")
    (t.lookup "allowed_valid_principals") f.allowedPrincipals
  defaultPrincipals : IsEither (Json.asList Json.asString) (t.lookup "default_principals")
    (t.lookup "default_valid_principals") f.defaultPrincipals
  principals : IsEither (Json.asList Json.asString) (t.lookup "principals")
    (t.lookup "valid_principals") f.principals
  allPrincipals : Json.IsField Json.asBool false (t.lookup "all_principals") f.allPrincipals
  subject : IsOptional SubjectSpec.read (t.lookup "subject") f.subject
  ttl : IsOptional Duration.read (t.lookup "ttl") f.ttl
  maxTtl : IsOptional Duration.read (t.lookup "max_ttl") f.maxTtl
  daysValid : IsOptional Json.asU64 (t.lookup "days_valid") f.daysValid
  requesterMatcher : IsEither Json.asString (t.lookup "minions") (t.lookup "requester_matcher")
    f.requesterMatcher
  overrides : HasOverrides t f.overrides

theorem readFields_eq_ok_iff (f : PolicyFields) : readFields (.obj t) = .ok f ↔ HasFields t f := by
  refine Json.asRecord_eq_ok_iff (Json.Accepts.congr (.bind (.fieldD _ _ _) fun _ =>
    .bind (.fieldD _ _ _) fun _ => .bind (.fieldD _ _ _) fun _ => .bind (.fieldD _ _ _) fun _ =>
    .bind (.fieldD _ _ _) fun _ => .bind (.fieldD _ _ _) fun _ =>
    .bind (accepts_eitherField? t _ _ _) fun _ => .bind (accepts_eitherField? t _ _ _) fun _ =>
    .bind (accepts_eitherField? t _ _ _) fun _ => .bind (.fieldD _ _ _) fun _ =>
    .bind (accepts_field? t _ _) fun _ => .bind (accepts_field? t _ _) fun _ =>
    .bind (accepts_field? t _ _) fun _ => .bind (accepts_field? t _ _) fun _ =>
    .bind (accepts_eitherField? t _ _ _) fun _ => .bind (accepts_readOverrides t) fun _ =>
    .pure _) fun f => ?_) f
  constructor
  · rintro ⟨_, h₁, _, h₂, _, h₃, _, h₄, _, h₅, _, h₆, _, h₇, _, h₈, _, h₉, _, h₁₀, _, h₁₁, _, h₁₂,
      _, h₁₃, _, h₁₄, _, h₁₅, _, h₁₆, rfl⟩
    exact ⟨h₁, h₂, h₃, h₄, h₅, h₆, h₇, h₈, h₉, h₁₀, h₁₁, h₁₂, h₁₃, h₁₄, h₁₅, h₁₆⟩
  · rintro ⟨h₁, h₂, h₃, h₄, h₅, h₆, h₇, h₈, h₉, h₁₀, h₁₁, h₁₂, h₁₃, h₁₄, h₁₅, h₁₆⟩
    exact ⟨_, h₁, _, h₂, _, h₃, _, h₄, _, h₅, _, h₆, _, h₇, _, h₈, _, h₉, _, h₁₀, _, h₁₁, _, h₁₂,
      _, h₁₃, _, h₁₄, _, h₁₅, _, h₁₆, rfl⟩

/-! ## Policies -/

variable {kind : CertificateKind}

/-- The table has these fields, and makes this policy but for the lifetime. -/
def Settles (kind : CertificateKind) (t : PolicyTable) (f : PolicyFields) (q : SigningPolicy) :
    Prop :=
  HasFields t f ∧ ∃ base, basePolicy kind f = .ok base ∧ t.otherEntries.foldlM addEntry base = .ok q

theorem toPolicy_eq_ok_iff {p : SigningPolicy} :
    t.toPolicy kind = .ok p ↔
      ∃ f q, Settles kind t f q ∧ ∃ ttl, ttlOf f = .ok ttl ∧ { q with ttl } = p := by
  simp only [toPolicy, Settles, Outcome.bind_eq_ok_iff, Outcome.except_mapError_eq_ok_iff,
    readFields_eq_ok_iff, pure, Except.pure, Except.ok.injEq]
  constructor
  · rintro ⟨f, hf, base, hbase, q, hq, hp⟩
    exact ⟨f, q, ⟨hf, base, hbase, hq⟩, hp⟩
  · rintro ⟨f, q, ⟨hf, base, hbase, hq⟩, hp⟩
    exact ⟨f, hf, base, hbase, q, hq, hp⟩

/-- A step that may be refused is not abandoned itself. -/
theorem mapError_bind_eq_abandon_iff {ε δ α β : Type} {x : Except ε α} {f : ε → Fault δ}
    (hf : ∀ e, f e ≠ .abandoned) {g : α → Outcome δ β} :
    (x.mapError f >>= g) = Outcome.abandon ↔ ∃ a, x = .ok a ∧ g a = Outcome.abandon := by
  have hne : x.mapError f ≠ Outcome.abandon := by
    cases x with
    | error e => exact fun h => hf e (Except.error.inj h)
    | ok a => exact Outcome.ok_ne_abandon a
  simp only [Outcome.bind_eq_abandon_iff, hne, false_or, Outcome.except_mapError_eq_ok_iff]

theorem toPolicy_eq_abandon_iff :
    t.toPolicy kind = Outcome.abandon ↔
      ∃ f q, Settles kind t f q ∧ ttlOf f = Outcome.abandon := by
  have hlast (q : SigningPolicy) (f : PolicyFields) :
      (ttlOf f >>= fun ttl => pure { q with ttl }) = Outcome.abandon ↔ ttlOf f = Outcome.abandon := by
    rw [Outcome.bind_eq_abandon_iff]
    refine or_iff_left ?_
    rintro ⟨ttl, -, h⟩
    exact Outcome.ok_ne_abandon _ h
  rw [toPolicy, mapError_bind_eq_abandon_iff nofun]
  simp only [mapError_bind_eq_abandon_iff (f := Fault.error) nofun, readFields_eq_ok_iff, hlast,
    Settles]
  constructor
  · rintro ⟨f, hf, base, hbase, q, hq, habandon⟩
    exact ⟨f, q, ⟨hf, base, hbase, hq⟩, habandon⟩
  · rintro ⟨f, q, ⟨hf, base, hbase, hq⟩, habandon⟩
    exact ⟨f, hf, base, hbase, q, hq, habandon⟩

/-! ## Lifetimes -/

/-- The seconds that a value says, as a number or as a text. -/
inductive IsSeconds : Json → Nat → Prop
  | number (n : Nat) : IsSeconds (.int n) n
  | text {s : String} {n : Nat} (h : Duration.Denotes s n) : IsSeconds (.str s) n

/-- The table says this lifetime, in seconds: that of `ttl`, else that of the days it has. -/
inductive HasLifetime (t : PolicyTable) : Option Nat → Prop
  | ttl {j : Json} {n : Nat} (ttl : t.lookup "ttl" = some j) (seconds : IsSeconds j n) :
      HasLifetime t (some n)
  | days {n : Nat} (ttl : t.lookup "ttl" = none) (days : t.lookup "days_valid" = some (.int n)) :
      HasLifetime t (some (n * 86400))
  | none (ttl : t.lookup "ttl" = none) (days : t.lookup "days_valid" = none) : HasLifetime t none

/-- The table without what it has under a name. -/
def without (t : PolicyTable) (name : String) : PolicyTable := t.filter fun (k, _) => k ≠ name

theorem asU64_eq_ok_iff {j : Json} {n : Nat} :
    Json.asU64 j = .ok n ↔ j = .int n ∧ n < Duration.bound := by
  cases j with
  | int m =>
    rw [Json.asU64, Json.asNatBelow, Json.int.injEq, Duration.bound]
    split
    · rw [Except.ok.injEq]
      omega
    · simp only [Json.mismatch, reduceCtorEq, false_iff]
      omega
  | _ => simp [Json.asU64, Json.asNatBelow, Json.mismatch]

theorem durationRead_eq_ok_iff {j : Json} {d : Duration} :
    Duration.read j = .ok d ↔ d.seconds < Duration.bound ∧ IsSeconds j d.seconds := by
  cases j with
  | int n =>
    simp only [Duration.read, Outcome.map_eq_ok_iff, asU64_eq_ok_iff]
    constructor
    · rintro ⟨m, ⟨hm, hlt⟩, rfl⟩
      exact ⟨hlt, hm ▸ .number m⟩
    · rintro ⟨hlt, hd⟩
      generalize hm : d.seconds = m at hlt hd
      cases hd
      exact ⟨m, ⟨rfl, hlt⟩, by rw [← hm]⟩
  | str s =>
    have hparse : Duration.read (.str s) = .ok d ↔ Duration.parse s = .ok d := by
      rw [Duration.read]
      cases Duration.parse s <;> simp
    rw [hparse, Duration.parse_eq_ok_iff]
    exact and_congr_right' ⟨.text, fun | .text h => h⟩
  | _ =>
    constructor
    · rintro ⟨⟩
    · rintro ⟨-, ⟨⟩⟩

theorem IsSeconds.unique {j : Json} {n m : Nat} (hn : IsSeconds j n) (hm : IsSeconds j m) :
    n = m := by
  cases hn with
  | number =>
    generalize hj : Json.int n = j at hm
    cases hm with
    | number => exact Int.ofNat.inj (Json.int.inj hj)
    | text => cases hj
  | text hn =>
    cases hm with
    | text hm => exact hn.unique hm

theorem HasLifetime.unique {a b : Option Nat} (ha : HasLifetime t a) (hb : HasLifetime t b) :
    a = b := by
  cases ha with
  | ttl ha hn =>
    cases hb with
    | ttl hb hm =>
      obtain rfl := Option.some.inj (ha.symm.trans hb)
      rw [hn.unique hm]
    | days hb _ | none hb _ => cases ha.symm.trans hb
  | days ha hn =>
    cases hb with
    | ttl hb _ => cases ha.symm.trans hb
    | days _ hm => rw [Int.ofNat.inj (Json.int.inj (Option.some.inj (hn.symm.trans hm)))]
    | none _ hm => cases hn.symm.trans hm
  | none ha hn =>
    cases hb with
    | ttl hb _ => cases ha.symm.trans hb
    | days _ hm => cases hn.symm.trans hm
    | none => rfl

theorem HasFields.hasLifetime {f : PolicyFields} {ttl : Option Nat} (hf : HasFields t f)
    (h : ttlOf f = .ok ttl) : HasLifetime t ttl ∧ ∀ n ∈ ttl, n < Duration.bound := by
  have httl := hf.ttl
  have hdays := hf.daysValid
  cases hl : t.lookup "ttl" with
  | some j =>
    rw [hl, isOptional_some] at httl
    obtain ⟨d, hd, hsome⟩ := httl
    rw [ttlOf, ← hsome] at h
    obtain rfl := Except.ok.inj h
    obtain ⟨hlt, hseconds⟩ := durationRead_eq_ok_iff.1 hd
    exact ⟨.ttl hl hseconds, fun n hn => Option.some.inj hn ▸ hlt⟩
  | none =>
    rw [hl, isOptional_none] at httl
    cases hd : t.lookup "days_valid" with
    | none =>
      rw [hd, isOptional_none] at hdays
      rw [ttlOf, httl, hdays] at h
      obtain rfl := Except.ok.inj h
      exact ⟨.none hl hd, nofun⟩
    | some j =>
      rw [hd, isOptional_some] at hdays
      obtain ⟨days, hj, hsome⟩ := hdays
      obtain ⟨rfl, -⟩ := asU64_eq_ok_iff.1 hj
      rw [ttlOf, httl, ← hsome] at h
      dsimp only at h
      split at h
      · rename_i hlt
        obtain rfl := Except.ok.inj h
        exact ⟨.days hl hd, fun n hn => Option.some.inj hn ▸ hlt⟩
      · cases h

theorem ttlOf_eq_abandon_iff {f : PolicyFields} :
    ttlOf f = Outcome.abandon ↔
      f.ttl = none ∧ ∃ days, f.daysValid = some days ∧ Duration.bound ≤ days * 86400 := by
  unfold ttlOf
  cases f.ttl with
  | some d => exact ⟨nofun, nofun⟩
  | none =>
    cases f.daysValid with
    | none => exact ⟨nofun, nofun⟩
    | some days =>
      dsimp only
      split
      · rename_i hlt
        refine ⟨nofun, ?_⟩
        rintro ⟨-, _, ⟨⟩, hle⟩
        exact absurd hlt (Nat.not_lt.2 hle)
      · rename_i hle
        exact ⟨fun _ => ⟨rfl, days, rfl, Nat.not_lt.1 hle⟩, fun _ => rfl⟩

/-! ### A table without one of its names -/

theorem lookup_without (t : PolicyTable) (name key : String) :
    (t.without name).lookup key = if key = name then none else t.lookup key := by
  have hfilter : (t.without name).lookup key =
      if decide (key ≠ name) = true then t.lookup key else none :=
    Json.lookup_filter_keys (fun k => decide (k ≠ name)) t key
  rw [hfilter]
  simp

theorem otherEntries_without (t : PolicyTable) (name : String) :
    (t.without name).otherEntries = t.otherEntries.without name := by
  simp only [otherEntries, without, List.filter_filter, Bool.and_comm]

/-- The entries that are not fields do not have the name of one. -/
theorem otherEntries_without_field (t : PolicyTable) {name : String} (h : name ∈ fieldNames) :
    (t.without name).otherEntries = t.otherEntries := by
  rw [otherEntries_without, without, List.filter_eq_self]
  intro e he
  have hother := (List.mem_filter.1 he).2
  refine decide_eq_true ?_
  rintro rfl
  simp [h] at hother

/-- Nothing else depends on the days. -/
theorem settles_without_iff {f : PolicyFields} {q : SigningPolicy}
    (hdays : IsOptional Json.asU64 (t.lookup "days_valid") f.daysValid) :
    Settles kind (t.without "days_valid") { f with daysValid := none } q ↔ Settles kind t f q := by
  have hfields : HasFields (t.without "days_valid") { f with daysValid := none } ↔
      HasFields t f := by
    simp [hasFields_iff, hasOverrides_iff, lookup_without, isOptional_none, hdays]
  rw [Settles, Settles, hfields, otherEntries_without_field t (by decide)]
  rfl

/-- **A lifetime is what the table says, but a number of days may be too long.**

A policy has the lifetime of its table: the seconds that its `ttl` says, else 86400 for each of its
days, else none. This lifetime is a number of 64 bits that was not wrapped.

Days are not compared with that limit before they are multiplied. So a table that has no `ttl` and
so many days that they exceed it is not refused. The computation is abandoned just for the tables of
this kind from which only the days would have to be taken to make them a policy. -/
theorem lifetime_exact_or_abandoned (kind : CertificateKind) (t : PolicyTable) :
    (∀ p, t.toPolicy kind = .ok p →
      (∀ ttl, t.HasLifetime ttl ↔ p.ttl = ttl) ∧ ∀ n ∈ p.ttl, n < bitLimit 64) ∧
    (t.toPolicy kind = Outcome.abandon ↔
      (∃ p, (t.without "days_valid").toPolicy kind = .ok p) ∧ t.lookup "ttl" = none ∧
        ∃ days : Nat, t.lookup "days_valid" = some (.int days) ∧ days < bitLimit 64 ∧
          bitLimit 64 ≤ days * 86400) := by
  refine ⟨fun p hp => ?_, ?_, ?_⟩
  · obtain ⟨f, q, ⟨hf, -⟩, ttl, httl, rfl⟩ := toPolicy_eq_ok_iff.1 hp
    obtain ⟨hhas, hlt⟩ := hf.hasLifetime httl
    exact ⟨fun ttl => ⟨hhas.unique, fun h => h ▸ hhas⟩, hlt⟩
  · intro habandon
    obtain ⟨f, q, hsettles, hf⟩ := toPolicy_eq_abandon_iff.1 habandon
    obtain ⟨httl, days, hdays, hle⟩ := ttlOf_eq_abandon_iff.1 hf
    have hread := hsettles.1.daysValid
    have hnone := hsettles.1.ttl
    rw [httl, isOptional_eq_none] at hnone
    refine ⟨⟨{ q with ttl := none }, toPolicy_eq_ok_iff.2
      ⟨_, q, (settles_without_iff hread).2 hsettles, none, ?_, rfl⟩⟩, hnone, days, ?_⟩
    · simp [ttlOf, httl]
    · rw [hdays, isOptional_eq_some] at hread
      obtain ⟨j, hj, hread⟩ := hread
      obtain ⟨rfl, hlt⟩ := asU64_eq_ok_iff.1 hread
      exact ⟨hj, hlt, hle⟩
  · rintro ⟨⟨p, hp⟩, hnone, days, hdays, hlt, hle⟩
    obtain ⟨f, q, hsettles, -⟩ := toPolicy_eq_ok_iff.1 hp
    have httl := hsettles.1.ttl
    have hfnone := hsettles.1.daysValid
    rw [lookup_without, if_neg (by decide), hnone, isOptional_none] at httl
    rw [lookup_without, if_pos rfl, isOptional_none] at hfnone
    have hread : IsOptional Json.asU64 (t.lookup "days_valid") (some days) :=
      isOptional_eq_some.2 ⟨_, hdays, asU64_eq_ok_iff.2 ⟨rfl, hlt⟩⟩
    refine toPolicy_eq_abandon_iff.2 ⟨{ f with daysValid := some days }, q,
      (settles_without_iff hread).1 ?_, ttlOf_eq_abandon_iff.2 ⟨httl, days, rfl, hle⟩⟩
    rwa [← hfnone]

/-- So many days are not refused, though they are more seconds than 64 bits can hold. -/
theorem long_days_abandon :
    ∃ t, ofToml? (.table [("days_valid", .integer 213503982334602)]) = some t ∧
      ∀ kind, t.toPolicy kind = Outcome.abandon :=
  ⟨[("days_valid", .int 213503982334602)], rfl, fun _ => rfl⟩

end CertAuthority.PolicyTable
