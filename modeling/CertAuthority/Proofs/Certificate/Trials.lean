import CertAuthority.Certificate.Backend

/-!
# Loading by trial

An artifact of unknown encoding is tried in one encoding after another. An encoding that is refused
says nothing of those after it, but that a passphrase is missing or wrong is remembered, so that a
locked file is not taken for a broken one.

* `Backend.RefusesWith`, `Backend.Reports` : what an encoding comes to that does not end the trial;
* `Backend.loadFrom_append` : encodings that are refused only change what is remembered
  (`Backend.pendingAfter`), which is what was reported last (`Backend.pendingAfter_eq_some_iff`);
* `Backend.all_refused_or_settles` : either all encodings are refused, or the first that is not
  refused settles the trial;
* `Backend.load_by_trial` : what loading comes to, for each of the ways in which it can end.
-/

namespace CertAuthority

/-- A passphrase is missing or wrong. -/
def BackendError.IsLock (why : BackendError) : Prop := why = .encrypted ∨ why = .wrongPassphrase

instance : DecidablePred BackendError.IsLock := fun why =>
  inferInstanceAs (Decidable (why = .encrypted ∨ why = .wrongPassphrase))

namespace Backend

section

variable (b : Backend) (data : Bytes) (passphrase : Option String)

def RefusesWith (e : Encoding) (why : BackendError) : Prop :=
  b.decode data e passphrase = Outcome.fail why

def Refuses (e : Encoding) : Prop := ∃ why, b.RefusesWith data passphrase e why

/-- The encoding is refused for want of the right passphrase. -/
def Reports (e : Encoding) : Prop := ∃ why, b.RefusesWith data passphrase e why ∧ why.IsLock

/-- The passphrase problem that was reported last. -/
def ReportsLast (encodings : List Encoding) (why : BackendError) : Prop :=
  ∃ before e after, encodings = before ++ e :: after ∧
    b.RefusesWith data passphrase e why ∧ why.IsLock ∧ ∀ f ∈ after, ¬ b.Reports data passphrase f

/-- The first encoding that is not refused comes to this. -/
def Settles (encodings : List Encoding) (o : BackendResult LoadedArtifact) : Prop :=
  ∃ before e after, encodings = before ++ e :: after ∧
    b.decode data e passphrase = o ∧ ∀ f ∈ before, b.Refuses data passphrase f

/-- The passphrase problem that the encoding reports. -/
def lock? (e : Encoding) : Option BackendError :=
  match b.decode data e passphrase with
  | .error (.error why) => if why.IsLock then some why else none
  | _ => none

/-- What is remembered after these encodings were refused. -/
def pendingAfter (pending : Option BackendError) (encodings : List Encoding) :
    Option BackendError :=
  encodings.reverse.findSome? (b.lock? data passphrase) <|> pending

/-- The ways in which a trial ends. -/
inductive Ends : BackendResult LoadedArtifact → Prop
  | decoded {a : LoadedArtifact} (settles : b.Settles data passphrase b.loadOrder (.ok a)) :
      Ends (.ok a)
  | abandoned (settles : b.Settles data passphrase b.loadOrder Outcome.abandon) :
      Ends Outcome.abandon
  | locked {why : BackendError} (refused : ∀ e ∈ b.loadOrder, b.Refuses data passphrase e)
      (last : b.ReportsLast data passphrase b.loadOrder why) : Ends (Outcome.fail why)
  | unrecognized (refused : ∀ e ∈ b.loadOrder, b.Refuses data passphrase e)
      (unreported : ∀ e ∈ b.loadOrder, ¬ b.Reports data passphrase e) :
      Ends (Outcome.fail (.unrecognized "certificate"))

end

variable {b : Backend} {data : Bytes} {passphrase : Option String} {encodings : List Encoding}

/-! ## Encodings that are refused -/

theorem lock?_eq_some_iff {e : Encoding} {why : BackendError} :
    b.lock? data passphrase e = some why ↔ b.RefusesWith data passphrase e why ∧ why.IsLock := by
  unfold lock? RefusesWith Outcome.fail
  split
  · rename_i found hfound
    rw [hfound, Except.error.injEq, Fault.error.injEq]
    split
    · rename_i hlock
      rw [Option.some.injEq]
      exact ⟨fun h => ⟨h, h ▸ hlock⟩, And.left⟩
    · rename_i hlock
      refine ⟨nofun, ?_⟩
      rintro ⟨rfl, h⟩
      exact absurd h hlock
  · rename_i hother
    exact ⟨nofun, fun h => absurd h.1 (hother why)⟩

theorem lock?_eq_none_iff {e : Encoding} :
    b.lock? data passphrase e = none ↔ ¬ b.Reports data passphrase e := by
  rw [Option.eq_none_iff_forall_ne_some, Reports, not_exists]
  exact forall_congr' fun why => not_congr lock?_eq_some_iff

theorem pendingAfter_none : b.pendingAfter data passphrase none encodings =
    encodings.reverse.findSome? (b.lock? data passphrase) := by
  rw [pendingAfter]
  cases encodings.reverse.findSome? (b.lock? data passphrase) <;> rfl

theorem pendingAfter_eq_some_iff {why : BackendError} :
    b.pendingAfter data passphrase none encodings = some why ↔
      b.ReportsLast data passphrase encodings why := by
  rw [pendingAfter_none, List.findSome?_eq_some_iff]
  constructor
  · rintro ⟨after, e, before, hreverse, hlock, hafter⟩
    obtain ⟨hrefuses, hwhy⟩ := lock?_eq_some_iff.1 hlock
    refine ⟨before.reverse, e, after.reverse, ?_, hrefuses, hwhy, fun f hf => ?_⟩
    · rw [← List.reverse_reverse encodings, hreverse]
      simp
    · exact lock?_eq_none_iff.1 (hafter f (List.mem_reverse.1 hf))
  · rintro ⟨before, e, after, rfl, hrefuses, hwhy, hafter⟩
    refine ⟨after.reverse, e, before.reverse, by simp, lock?_eq_some_iff.2 ⟨hrefuses, hwhy⟩,
      fun f hf => ?_⟩
    exact lock?_eq_none_iff.2 (hafter f (List.mem_reverse.1 hf))

theorem pendingAfter_eq_none_iff :
    b.pendingAfter data passphrase none encodings = none ↔
      ∀ e ∈ encodings, ¬ b.Reports data passphrase e := by
  rw [pendingAfter_none, List.findSome?_eq_none_iff]
  simp only [List.mem_reverse, lock?_eq_none_iff]

/-- A refusal only changes what is remembered. -/
theorem loadFrom_cons {e : Encoding} (h : b.Refuses data passphrase e)
    (pending : Option BackendError) (rest : List Encoding) :
    b.loadFrom data passphrase pending (e :: rest) =
      b.loadFrom data passphrase (b.lock? data passphrase e <|> pending) rest := by
  obtain ⟨why, hwhy⟩ := h
  unfold RefusesWith Outcome.fail at hwhy
  rw [loadFrom, lock?, hwhy]
  cases why <;> rfl

theorem loadFrom_append {before : List Encoding} (h : ∀ e ∈ before, b.Refuses data passphrase e)
    (pending : Option BackendError) (after : List Encoding) :
    b.loadFrom data passphrase pending (before ++ after) =
      b.loadFrom data passphrase (b.pendingAfter data passphrase pending before) after := by
  induction before generalizing pending with
  | nil => rfl
  | cons e before ih =>
    rw [List.forall_mem_cons] at h
    have hpending : b.pendingAfter data passphrase (b.lock? data passphrase e <|> pending) before =
        b.pendingAfter data passphrase pending (e :: before) := by
      simp only [pendingAfter, List.reverse_cons, List.findSome?_append, List.findSome?_singleton]
      cases before.reverse.findSome? (b.lock? data passphrase) <;> rfl
    rw [List.cons_append, loadFrom_cons h.1, ih h.2, hpending]

/-! ## How a trial ends -/

theorem all_refused_or_settles (b : Backend) (data : Bytes) (passphrase : Option String)
    (encodings : List Encoding) :
    (∀ e ∈ encodings, b.Refuses data passphrase e) ∨
      (∃ a, b.Settles data passphrase encodings (.ok a)) ∨
      b.Settles data passphrase encodings Outcome.abandon := by
  induction encodings with
  | nil => exact .inl nofun
  | cons e rest ih =>
    have hlater {o : BackendResult LoadedArtifact} (he : b.Refuses data passphrase e)
        (h : b.Settles data passphrase rest o) : b.Settles data passphrase (e :: rest) o := by
      obtain ⟨before, f, after, rfl, hf, hbefore⟩ := h
      exact ⟨e :: before, f, after, rfl, hf, List.forall_mem_cons.2 ⟨he, hbefore⟩⟩
    rcases hdecode : b.decode data e passphrase with (why | _) | a
    · have he : b.Refuses data passphrase e := ⟨why, hdecode⟩
      obtain hrest | ⟨a, ha⟩ | habandon := ih
      · exact .inl (List.forall_mem_cons.2 ⟨he, hrest⟩)
      · exact .inr (.inl ⟨a, hlater he ha⟩)
      · exact .inr (.inr (hlater he habandon))
    · exact .inr (.inr ⟨[], e, rest, rfl, hdecode, nofun⟩)
    · exact .inr (.inl ⟨a, [], e, rest, rfl, hdecode, nofun⟩)

theorem load_of_ends {o : BackendResult LoadedArtifact} (h : b.Ends data passphrase o) :
    b.load data passphrase = o := by
  have hrefused (h : ∀ e ∈ b.loadOrder, b.Refuses data passphrase e) : b.load data passphrase =
      b.loadFrom data passphrase (b.pendingAfter data passphrase none b.loadOrder) [] := by
    rw [← loadFrom_append h none [], List.append_nil, load]
  cases h with
  | decoded settles =>
    obtain ⟨before, e, after, horder, hdecode, hbefore⟩ := settles
    rw [load, horder, loadFrom_append hbefore, loadFrom, hdecode]
  | abandoned settles =>
    obtain ⟨before, e, after, horder, hdecode, hbefore⟩ := settles
    rw [load, horder, loadFrom_append hbefore, loadFrom, hdecode]
    rfl
  | locked refused last =>
    rw [hrefused refused, pendingAfter_eq_some_iff.2 last]
    rfl
  | unrecognized refused unreported =>
    rw [hrefused refused, pendingAfter_eq_none_iff.2 unreported]
    rfl

theorem exists_ends (b : Backend) (data : Bytes) (passphrase : Option String) :
    ∃ o, b.Ends data passphrase o := by
  obtain hrefused | ⟨a, ha⟩ | habandon := b.all_refused_or_settles data passphrase b.loadOrder
  · cases hpending : b.pendingAfter data passphrase none b.loadOrder with
    | none => exact ⟨_, .unrecognized hrefused (pendingAfter_eq_none_iff.1 hpending)⟩
    | some why => exact ⟨_, .locked hrefused (pendingAfter_eq_some_iff.1 hpending)⟩
  · exact ⟨_, .decoded ha⟩
  · exact ⟨_, .abandoned habandon⟩

/-- A trial ends in one way, since one of them is always open and each tells what is loaded. -/
theorem load_eq_iff {o : BackendResult LoadedArtifact} :
    b.load data passphrase = o ↔ b.Ends data passphrase o := by
  refine ⟨?_, load_of_ends⟩
  rintro rfl
  obtain ⟨o, ho⟩ := b.exists_ends data passphrase
  exact load_of_ends ho ▸ ho

/-- What is loaded was decoded in one of the encodings. -/
theorem exists_of_load {a : LoadedArtifact} (h : b.load data passphrase = .ok a) :
    ∃ e ∈ b.loadOrder, b.decode data e passphrase = .ok a := by
  cases load_eq_iff.1 h with
  | decoded settles =>
    obtain ⟨before, e, after, horder, hdecode, -⟩ := settles
    exact ⟨e, horder ▸ List.mem_append_right _ List.mem_cons_self, hdecode⟩

/-- **Loading comes to what the encodings say, and a locked file is told from a broken one.**

The artifact is that of the first encoding that decodes, also where an encoding before it reported a
passphrase problem. If all encodings are refused, the failure is the passphrase problem that was
reported last. It is that nothing was recognized if and only if no encoding reported one, and it is
never anything else. Loading is abandoned just where an encoding abandons its decoding, and all
encodings before that one are refused. -/
theorem load_by_trial (b : Backend) (data : Bytes) (passphrase : Option String) :
    (∀ a, b.load data passphrase = .ok a ↔
      ∃ before e after, b.loadOrder = before ++ e :: after ∧
        b.decode data e passphrase = .ok a ∧ ∀ f ∈ before, b.Refuses data passphrase f) ∧
    (∀ why, b.load data passphrase = Outcome.fail why ↔
      (∀ e ∈ b.loadOrder, b.Refuses data passphrase e) ∧
        (b.ReportsLast data passphrase b.loadOrder why ∨
          why = .unrecognized "certificate" ∧
            ∀ e ∈ b.loadOrder, ¬ b.Reports data passphrase e)) ∧
    (b.load data passphrase = Outcome.abandon ↔
      ∃ before e after, b.loadOrder = before ++ e :: after ∧
        b.decode data e passphrase = Outcome.abandon ∧
          ∀ f ∈ before, b.Refuses data passphrase f) := by
  simp only [load_eq_iff]
  refine ⟨fun a => ⟨?_, .decoded⟩, fun why => ⟨?_, ?_⟩, ?_, .abandoned⟩
  · rintro ⟨⟩
    assumption
  · rintro ⟨⟩
    · exact ⟨‹_›, .inl ‹_›⟩
    · exact ⟨‹_›, .inr ⟨rfl, ‹_›⟩⟩
  · rintro ⟨hrefused, hlast | ⟨rfl, hunreported⟩⟩
    · exact .locked hrefused hlast
    · exact .unrecognized hrefused hunreported
  · rintro ⟨⟩
    assumption

end Backend
end CertAuthority
