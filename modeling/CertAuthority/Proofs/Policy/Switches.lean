import CertAuthority.Proofs.Policy.Restrictions

/-!
# Extensions that are set to true or false

An extension among the fields of a table is forced with the text of its value. Of the two values that
a switch has, `true` is the bare flag of an OpenSSH entry. `false` is a text like any other, so it
forces the entry as well.

* `foldlM_force` : forcing an extension goes past the entries of other names;
* `toPolicy_eq_ok_iff_without` : an extension among the fields is forced, and makes no other
  difference to the policy;
* `false_is_forced` : so an extension that is set to false is requested of every certificate.
-/

namespace CertAuthority

theorem ExtensionSet.insertRaw_comm (s : ExtensionSet) {k l : ExtensionKind} (h : k ≠ l)
    (raw other : String) :
    (s.insertRaw k raw).insertRaw l other = (s.insertRaw l other).insertRaw k raw := by
  ext1 j
  simp only [insertRaw, get?_insert]
  by_cases hl : j = l
  · rw [if_pos hl, if_neg fun hk => h (hk.symm.trans hl), if_pos hl]
  · rw [if_neg hl, if_neg hl]

namespace PolicyTable

variable {t : PolicyTable} {p q : SigningPolicy} {k : ExtensionKind} {j : Json} {s : String}
  {kind : CertificateKind}

/-! ## One entry after another -/

theorem force_comm (p : SigningPolicy) {k l : ExtensionKind} (h : k ≠ l) (s other : String) :
    force (force p k s) l other = force (force p l other) k s := by
  unfold force
  split <;> split <;> simp only [ExtensionSet.insertRaw_comm _ h]

theorem addEntry_extension (p : SigningPolicy) (hs : textOf? j = some s) :
    addEntry p (k.name, j) = .ok (force p k s) := by
  rw [addEntry]
  dsimp only
  rw [hs, ofShortName?_name, ExtensionKind.ofName?_name]
  rfl

/-- Forcing an extension goes past an entry of another name. -/
theorem addEntry_force (p : SigningPolicy) (s : String) {e : String × Json} (h : e.1 ≠ k.name) :
    addEntry (force p k s) e = (addEntry p e).map (force · k s) := by
  rw [addEntry, addEntry]
  cases textOf? e.2 with
  | none => rfl
  | some other =>
    cases NameAttribute.ofShortName? e.1 with
    | some a => by_cases hk : k.section? = some .criticalOption <;> simp [force, hk, Except.map]
    | none =>
      cases hl : ExtensionKind.ofName? e.1 with
      | none => rfl
      | some l =>
        have hne : k ≠ l := by
          rintro rfl
          exact h (ExtensionKind.ofName?_eq_some_iff.1 hl).symm
        exact congrArg Except.ok (force_comm p hne s other)

theorem foldlM_force (p : SigningPolicy) (s : String) {entries : PolicyTable}
    (h : ∀ e ∈ entries, e.1 ≠ k.name) :
    entries.foldlM addEntry (force p k s) = (entries.foldlM addEntry p).map (force · k s) := by
  induction entries generalizing p with
  | nil => rfl
  | cons e entries ih =>
    rw [List.forall_mem_cons] at h
    rw [List.foldlM_cons, List.foldlM_cons, addEntry_force p s h.1]
    cases addEntry p e with
    | error why => rfl
    | ok next => exact ih next h.2

/-! ## A table with and without an extension -/

/-- A key stands at one place in a table. -/
theorem exists_around {key : String} (horder : Json.InKeyOrder t) (h : t.lookup key = some j) :
    ∃ before after, t = before ++ (key, j) :: after ∧ t.without key = before ++ after ∧
      ∀ e ∈ before ++ after, e.1 ≠ key := by
  obtain ⟨before, after, rfl⟩ := List.append_of_mem (Text.mem_of_lookup h)
  obtain ⟨-, hcons, hacross⟩ := List.pairwise_append.1 horder
  have hbefore : ∀ e ∈ before, e.1 ≠ key := fun e he =>
    String.ne_of_lt (hacross e he (key, j) List.mem_cons_self)
  have hafter : ∀ e ∈ after, e.1 ≠ key := fun e he =>
    (String.ne_of_lt ((List.pairwise_cons.1 hcons).1 e he)).symm
  have hothers : ∀ e ∈ before ++ after, e.1 ≠ key :=
    List.forall_mem_append.2 ⟨hbefore, hafter⟩
  refine ⟨before, after, rfl, ?_, hothers⟩
  have hkept : (before ++ after).filter (fun e => decide (e.1 ≠ key)) = before ++ after :=
    List.filter_eq_self.2 fun e he => decide_eq_true (hothers e he)
  rw [← hkept, List.filter_append, without, List.filter_append, List.filter_cons_of_neg (by simp)]

theorem hasFields_without_iff {f : PolicyFields} {key : String} (h : key ∉ fieldNames) :
    HasFields (t.without key) f ↔ HasFields t f := by
  have hlookup (name : String) (hname : name ∈ fieldNames) :
      (t.without key).lookup name = t.lookup name := by
    rw [lookup_without, if_neg]
    rintro rfl
    exact h hname
  rw [hasFields_iff, hasFields_iff, hasOverrides_iff, hasOverrides_iff]
  simp (disch := decide) only [hlookup]

/-- An entry of an extension adds that it is forced to what the other entries make. -/
theorem foldlM_otherEntries (horder : Json.InKeyOrder t) (hj : t.lookup k.name = some j)
    (hs : textOf? j = some s) (p : SigningPolicy) :
    t.otherEntries.foldlM addEntry p =
      ((t.without k.name).otherEntries.foldlM addEntry p).map (force · k s) := by
  have hother : t.otherEntries.lookup k.name = some j := by
    rw [lookup_otherEntries (name_notMem_fieldNames k), hj]
  have hentries : Json.InKeyOrder t.otherEntries := horder.filter _
  obtain ⟨before, after, hentries, hwithout, hothers⟩ := exists_around hentries hother
  have hafter : ∀ e ∈ after, e.1 ≠ k.name := fun e he => hothers e (List.mem_append_right _ he)
  rw [otherEntries_without, hwithout, hentries, List.foldlM_append, List.foldlM_append]
  cases before.foldlM addEntry p with
  | error why => rfl
  | ok next =>
    show (((k.name, j) :: after).foldlM addEntry next) = (after.foldlM addEntry next).map _
    rw [List.foldlM_cons, addEntry_extension next hs]
    exact foldlM_force next s hafter

theorem settles_iff_without {f : PolicyFields} (horder : Json.InKeyOrder t)
    (hj : t.lookup k.name = some j) (hs : textOf? j = some s) :
    Settles kind t f p ↔ ∃ q, Settles kind (t.without k.name) f q ∧ force q k s = p := by
  have hmap (base : SigningPolicy) : t.otherEntries.foldlM addEntry base = .ok p ↔
      ∃ q, (t.without k.name).otherEntries.foldlM addEntry base = .ok q ∧ force q k s = p := by
    rw [foldlM_otherEntries horder hj hs]
    exact Outcome.map_eq_ok_iff
  simp only [Settles, hasFields_without_iff (name_notMem_fieldNames k), hmap]
  constructor
  · rintro ⟨hf, base, hbase, q, hq, hp⟩
    exact ⟨q, ⟨hf, base, hbase, hq⟩, hp⟩
  · rintro ⟨q, ⟨hf, base, hbase, hq⟩, hp⟩
    exact ⟨hf, base, hbase, q, hq, hp⟩

/-- An extension among the fields is forced with its text, and makes no other difference. -/
theorem toPolicy_eq_ok_iff_without (horder : Json.InKeyOrder t)
    (hj : t.lookup k.name = some j) (hs : textOf? j = some s) :
    t.toPolicy kind = .ok p ↔
      ∃ q, (t.without k.name).toPolicy kind = .ok q ∧ force q k s = p := by
  have hforce (q : SigningPolicy) (ttl : Option Nat) :
      { force q k s with ttl } = force { q with ttl } k s := by
    by_cases hk : k.section? = some .criticalOption <;> simp [force, hk]
  simp only [toPolicy_eq_ok_iff, settles_iff_without horder hj hs]
  constructor
  · rintro ⟨f, _, ⟨q, hq, rfl⟩, ttl, httl, rfl⟩
    exact ⟨{ q with ttl }, ⟨f, q, hq, ttl, httl, rfl⟩, (hforce q ttl).symm⟩
  · rintro ⟨_, ⟨f, q, hq, ttl, httl, rfl⟩, rfl⟩
    exact ⟨f, force q k s, ⟨q, hq, rfl⟩, ttl, httl, hforce q ttl⟩

/-! ## Switches -/

/-- As a value, `false` is a text for every kind. -/
theorem parseValue_false (k : ExtensionKind) :
    k.parseValue "false" = ⟨isOption k, .text "false"⟩ := by
  have hall : ∀ k ∈ ExtensionKind.all, k.parseValue "false" = ⟨isOption k, .text "false"⟩ := by
    decide +kernel
  exact hall k (ExtensionKind.mem_all k)

/-- **An extension that is set to false is forced.**

A table with an extension among its fields that is set to `false` is a policy if and only if it is one
without this entry. It is the same policy, but that it forces the extension, with the text `false` as
its value. So whatever is requested under the policy, it is requested with this extension. -/
theorem false_is_forced {entry : Toml} (kind : CertificateKind) (ht : ofToml? entry = some t)
    (hfalse : t.lookup k.name = some (.bool false)) :
    (∀ p, t.toPolicy kind = .ok p ↔
      ∃ q, (t.without k.name).toPolicy kind = .ok q ∧ force q k "false" = p) ∧
    ∀ p, t.toPolicy kind = .ok p →
      (forcedAmong (isOption k) p).get? k = some ⟨isOption k, .text "false"⟩ ∧
      ∀ r, (givenAmong (isOption k) p r).get? k = some ⟨isOption k, .text "false"⟩ := by
  have hpolicy (p : SigningPolicy) : t.toPolicy kind = .ok p ↔
      ∃ q, (t.without k.name).toPolicy kind = .ok q ∧ force q k "false" = p :=
    toPolicy_eq_ok_iff_without (of_ofToml?_eq_some ht).1 hfalse rfl
  refine ⟨hpolicy, fun p hp => ?_⟩
  obtain ⟨q, -, rfl⟩ := (hpolicy p).1 hp
  have hforced : (forcedAmong (isOption k) (force q k "false")).get? k =
      some ⟨isOption k, .text "false"⟩ := by
    rw [get?_force, if_pos ⟨rfl, rfl⟩, parseValue_false]
  exact ⟨hforced, givenAmong_of_forcedAmong hforced⟩

/-- The terminal is set to true in a first table and to false in a second one. -/
def terminalEntry : Toml := .list [
  .table [("force-command", .text "/bin/first"), ("permit-pty", .boolean true)],
  .table [("permit-pty", .boolean false), ("ttl", .text "1h")]]

def terminalTable : PolicyTable :=
  [("force-command", .str "/bin/first"), ("permit-pty", .bool false), ("ttl", .str "1h")]

theorem false_is_forced_terminal :
    ofToml? terminalEntry = some terminalTable ∧
      terminalTable.lookup ExtensionKind.permitPty.name = some (.bool false) ∧
      ∃ p, terminalTable.toPolicy .ssh = .ok p ∧
        (forcedAmong false p).get? .permitPty = some ⟨false, .text "false"⟩ ∧
        ∀ r, (givenAmong false p r).get? .permitPty = some ⟨false, .text "false"⟩ := by
  have htable : ofToml? terminalEntry = some terminalTable := rfl
  have hfalse : terminalTable.lookup ExtensionKind.permitPty.name = some (.bool false) := rfl
  obtain ⟨p, hp⟩ := Outcome.exists_eq_ok_of_isOk (x := terminalTable.toPolicy .ssh)
    (by decide +kernel)
  exact ⟨htable, hfalse, p, hp, (false_is_forced .ssh htable hfalse).2 p hp⟩

/-- A policy that says no more than that there is to be no terminal gives one to every request. -/
theorem false_switches_on :
    ∃ t p, ofToml? (.table [("permit-pty", .boolean false)]) = some t ∧
      t.toPolicy .ssh = .ok p ∧
      p.forcedExtensions.contains .permitPty = true ∧
      (p.resolve { kind := .ssh }).extensions.contains .permitPty = true := by
  refine ⟨[("permit-pty", .bool false)], _, rfl, rfl, ?_, ?_⟩ <;> decide +kernel

end PolicyTable
end CertAuthority
