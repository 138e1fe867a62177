import Mathlib.Data.List.Induction
import CertAuthority.Proofs.Issue.Steps

/-!
# Lookups of remote policies

Lookups share one cache and are served one after another. Each may fetch, and what a fetch comes to
depends on a world that the fetches change. A run of lookups is followed through its answers: what
was fetched, what was returned, and the caches before and after.

* `Lookup.perform`, `performAll` : lookups with a record of their fetches;
* `firstFetched?` : the description that was fetched first for a key. The cache holds just these
  (`knows_of_performAll`);
* `IsAnswer` : what comes of a lookup after others;
* `fetched_once` : the fetches and answers of a whole run.
-/

namespace CertAuthority.PolicyCache

theorem get?_insert {known : PolicyCache} {key : PolicyKey} (d : PolicyDescription)
    (h : known.get? key = none) : (known.insert key d).get? key = some d := by
  have hnone : known.entries.lookup key = none := h
  simp [insert, get?, List.lookup_append, hnone]

theorem get?_insert_of_ne {c : PolicyCache} {k j : PolicyKey} (d : PolicyDescription)
    (h : j ≠ k) : (c.insert k d).get? j = c.get? j := by
  simp [insert, get?, List.lookup_append, List.lookup_cons, beq_false_of_ne h]

/-! ## Answers -/

/-- A key, and how its description is fetched. -/
structure Lookup (σ ε : Type) where
  key : PolicyKey
  fetch : StateM σ (Except ε PolicyDescription)

structure Answer (ε : Type) where
  key : PolicyKey
  /-- What the fetch came to, where there was one -/
  fetched : Option (Except ε PolicyDescription)
  result : Except ε PolicyDescription
  /-- The cache as the lookup found it and left it -/
  found : PolicyCache
  left : PolicyCache

variable {σ ε : Type}

/-- A fetch that records what it came to. -/
def recorded (fetch : StateM σ (Except ε PolicyDescription)) :
    StateT (Option (Except ε PolicyDescription)) (StateM σ) (Except ε PolicyDescription) := do
  let result ← fetch
  set (some result)
  return result

def Lookup.perform (l : Lookup σ ε) (c : PolicyCache) : StateM σ (Answer ε) := do
  let ((result, left), fetched) ← (c.getOrFetch l.key (recorded l.fetch)).run none
  return { key := l.key, fetched, result, found := c, left }

/-- Lookups in the order in which they get hold of the cache. -/
def performAll (c : PolicyCache) : List (Lookup σ ε) → StateM σ (List (Answer ε))
  | [] => return []
  | l :: rest => do
    let a ← l.perform c
    return a :: (← performAll a.left rest)

theorem run_perform (l : Lookup σ ε) (c : PolicyCache) (w : σ) :
    (l.perform c).run w =
      match c.get? l.key with
      | some d => (⟨l.key, none, .ok d, c, c⟩, w)
      | none =>
        match l.fetch.run w with
        | (.ok d, w') => (⟨l.key, some (.ok d), .ok d, c, c.insert l.key d⟩, w')
        | (.error e, w') => (⟨l.key, some (.error e), .error e, c, c⟩, w') := by
  unfold Lookup.perform getOrFetch
  cases c.get? l.key with
  | some d => rfl
  | none =>
    have hrecorded : ((recorded l.fetch).run none).run w =
        (((l.fetch.run w).1, some (l.fetch.run w).1), (l.fetch.run w).2) := rfl
    simp only [StateT.run_bind, hrecorded]
    obtain ⟨_ | d, w'⟩ := l.fetch.run w <;> rfl

theorem key_perform (l : Lookup σ ε) (c : PolicyCache) (w : σ) :
    ((l.perform c).run w).1.key = l.key := by
  rw [run_perform]
  cases c.get? l.key with
  | some d => rfl
  | none => obtain ⟨_ | d, _⟩ := l.fetch.run w <;> rfl

/-- Recording changes nothing. -/
theorem getOrFetch_eq_perform (l : Lookup σ ε) (c : PolicyCache) :
    c.getOrFetch l.key l.fetch = (fun a => (a.result, a.left)) <$> l.perform c := by
  refine StateT.ext fun w => ?_
  rw [StateT.run_map, run_perform, getOrFetch]
  cases c.get? l.key with
  | some d => rfl
  | none =>
    dsimp only
    rw [StateT.run_bind]
    obtain ⟨_ | d, w'⟩ := l.fetch.run w <;> rfl

/-- A run that wants to know a policy looks it up in its own cache. -/
theorem run_knownPolicy_eq_perform (k : PolicyKey) (fetch : Run σ PolicyDescription)
    (s : RunState σ) :
    (Run.knownPolicy k fetch).run.run s =
      let (a, t) := (Lookup.perform ⟨k, fetch.run⟩ s.policies).run s
      (a.result, { t with policies := a.left }) := by
  rw [Run.run_knownPolicy, run_perform]
  cases s.policies.get? k with
  | some d => rfl
  | none =>
    dsimp only
    obtain ⟨_ | d, t⟩ := fetch.run.run s <;> rfl

/-! ## One lookup after others -/

variable {k : PolicyKey} {a : Answer ε} {as earlier : List (Answer ε)} {l : Lookup σ ε}
  {c c' : PolicyCache} {w w' : σ}

/-- The description that the lookup fetched for this key. -/
def Answer.fetchedFor? (k : PolicyKey) (a : Answer ε) : Option PolicyDescription :=
  match a.fetched with
  | some (.ok d) => if a.key = k then some d else none
  | _ => none

def firstFetched? (k : PolicyKey) (as : List (Answer ε)) : Option PolicyDescription :=
  as.findSome? (·.fetchedFor? k)

theorem firstFetched?_concat :
    firstFetched? k (as ++ [a]) = (firstFetched? k as).or (a.fetchedFor? k) := by
  simp [firstFetched?, List.findSome?_append]

/-- The cache holds what was fetched first for each key. -/
def Knows (c : PolicyCache) (as : List (Answer ε)) : Prop := ∀ k, c.get? k = firstFetched? k as

/-- What comes of a lookup after the others. -/
structure IsAnswer (earlier : List (Answer ε)) (a : Answer ε) : Prop where
  found : Knows a.found earlier
  left : Knows a.left (earlier ++ [a])
  known : ∀ d, firstFetched? a.key earlier = some d → a.fetched = none ∧ a.result = .ok d
  unknown : firstFetched? a.key earlier = none → a.fetched = some a.result
  failed : ∀ e, a.fetched = some (.error e) → a.left = a.found

theorem isAnswer_perform (h : Knows c earlier) (hrun : (l.perform c).run w = (a, w')) :
    IsAnswer earlier a := by
  rw [run_perform] at hrun
  cases hget : c.get? l.key with
  | some d =>
    rw [hget] at hrun
    obtain ⟨rfl, -⟩ := Prod.mk.inj hrun
    have hfirst : firstFetched? l.key earlier = some d := (h l.key).symm.trans hget
    refine ⟨h, fun k => ?_, fun d' hd' => ⟨rfl, ?_⟩, fun hnone => ?_, nofun⟩
    · rw [firstFetched?_concat, h k]
      exact (Option.or_none).symm
    · rw [hfirst] at hd'
      rw [Option.some.inj hd']
    · rw [hfirst] at hnone
      cases hnone
  | none =>
    rw [hget] at hrun
    have hfirst : firstFetched? l.key earlier = none := (h l.key).symm.trans hget
    have hnone (d : PolicyDescription) : firstFetched? l.key earlier ≠ some d := by
      rw [hfirst]
      exact nofun
    cases hfetch : l.fetch.run w with
    | mk result w'' =>
      rw [hfetch] at hrun
      cases result with
      | ok d =>
        obtain ⟨rfl, -⟩ := Prod.mk.inj hrun
        refine ⟨h, fun k => ?_, fun d' hd' => absurd hd' (hnone d'), fun _ => rfl, nofun⟩
        rw [firstFetched?_concat]
        by_cases hk : l.key = k
        · subst hk
          rw [hfirst, get?_insert d hget]
          simp [Answer.fetchedFor?]
        · rw [get?_insert_of_ne d (Ne.symm hk), h k]
          simp [Answer.fetchedFor?, hk]
      | error e =>
        obtain ⟨rfl, -⟩ := Prod.mk.inj hrun
        refine ⟨h, fun k => ?_, fun d' hd' => absurd hd' (hnone d'), fun _ => rfl,
          fun _ _ => rfl⟩
        rw [firstFetched?_concat, h k]
        exact (Option.or_none).symm

namespace IsAnswer

theorem of_ok (h : IsAnswer earlier a) {d : PolicyDescription} (hd : a.result = .ok d) :
    firstFetched? a.key (earlier ++ [a]) = some d := by
  rw [firstFetched?_concat]
  cases hfirst : firstFetched? a.key earlier with
  | some d' =>
    obtain ⟨-, hresult⟩ := h.known d' hfirst
    rw [hresult] at hd
    rw [Except.ok.inj hd]
    rfl
  | none =>
    have hfetched := h.unknown hfirst
    rw [hd] at hfetched
    simp [Answer.fetchedFor?, hfetched]

theorem error_iff (h : IsAnswer earlier a) (e : ε) :
    a.result = .error e ↔ a.fetched = some (.error e) := by
  cases hfirst : firstFetched? a.key earlier with
  | some d =>
    obtain ⟨hfetched, hresult⟩ := h.known d hfirst
    rw [hfetched, hresult]
    exact ⟨nofun, nofun⟩
  | none =>
    rw [h.unknown hfirst]
    exact ⟨fun h => h ▸ rfl, Option.some.inj⟩

/-- The cache does not change for other keys. -/
theorem get?_left (h : IsAnswer earlier a) (hk : k ≠ a.key) :
    a.left.get? k = a.found.get? k := by
  have hother : a.fetchedFor? k = none := by
    unfold Answer.fetchedFor?
    split
    · exact if_neg hk.symm
    · rfl
  rw [h.left k, h.found k, firstFetched?_concat, hother]
  exact Option.or_none

end IsAnswer

/-! ## A run of lookups -/

theorem run_performAll_cons (l : Lookup σ ε) (rest : List (Lookup σ ε)) (c : PolicyCache) (w : σ) :
    ((performAll c (l :: rest)).run w).1 =
      let out := (l.perform c).run w
      out.1 :: ((performAll out.1.left rest).run out.2).1 := rfl

theorem isAnswer_performAll (h : Knows c earlier) (calls : List (Lookup σ ε)) (w : σ) :
    ((performAll c calls).run w).1.map (·.key) = calls.map (·.key) ∧
    ∀ before a after, ((performAll c calls).run w).1 = before ++ a :: after →
      IsAnswer (earlier ++ before) a := by
  induction calls generalizing c earlier w with
  | nil =>
    refine ⟨rfl, fun before a after hsplit => ?_⟩
    cases before <;> cases hsplit
  | cons l rest ih =>
    cases hrun : (l.perform c).run w with
    | mk a w' =>
      have ha : IsAnswer earlier a := isAnswer_perform h hrun
      have hkey : a.key = l.key := by rw [← key_perform l c w, hrun]
      obtain ⟨hkeys, hrest⟩ := ih ha.left w'
      rw [run_performAll_cons, hrun]
      refine ⟨by rw [List.map_cons, List.map_cons, hkey, hkeys], fun before b after hsplit => ?_⟩
      cases before with
      | nil =>
        obtain ⟨rfl, -⟩ := List.cons.inj hsplit
        rw [List.append_nil]
        exact ha
      | cons first before =>
        obtain ⟨rfl, htail⟩ := List.cons.inj hsplit
        have hb := hrest before b after htail
        rwa [List.append_assoc] at hb

/-- No other fetch for a key succeeds than the first one that does. -/
theorem filterMap_fetchedFor? (h : ∀ before a after, as = before ++ a :: after →
    IsAnswer before a) (k : PolicyKey) :
    as.filterMap (·.fetchedFor? k) = (firstFetched? k as).toList := by
  induction as using List.reverseRecOn with
  | nil => rfl
  | append_singleton as a ih =>
    have ha : IsAnswer as a := h as a [] rfl
    rw [List.filterMap_append, firstFetched?_concat, ih fun before b after hsplit =>
      h before b (after ++ [a]) (by rw [hsplit, List.append_assoc, List.cons_append])]
    cases hfirst : firstFetched? k as with
    | none => cases hfetched : a.fetchedFor? k <;> simp [hfetched]
    | some d =>
      have hnone : a.fetchedFor? k = none := by
        by_cases hk : a.key = k
        · obtain ⟨hfetched, -⟩ := ha.known d (hk ▸ hfirst)
          simp [Answer.fetchedFor?, hfetched]
        · unfold Answer.fetchedFor?
          split
          · exact if_neg hk
          · rfl
      simp [hnone]

/-! ## Lookups of one key among others -/

/-- What a requester and its peer see of a lookup. -/
def Answer.seen (a : Answer ε) : Option (Except ε PolicyDescription) × Except ε PolicyDescription :=
  (a.fetched, a.result)

theorem seen_perform (hfixed : ∃ r, ∀ w, (l.fetch.run w).1 = r)
    (h : c.get? l.key = c'.get? l.key) (w w' : σ) :
    ((l.perform c).run w).1.seen = ((l.perform c').run w').1.seen ∧
      ((l.perform c).run w).1.left.get? l.key = ((l.perform c').run w').1.left.get? l.key := by
  obtain ⟨r, hr⟩ := hfixed
  rw [run_perform, run_perform, h]
  cases hget : c'.get? l.key with
  | some d => exact ⟨rfl, h⟩
  | none =>
    obtain ⟨hw, hw'⟩ := And.intro (hr w) (hr w')
    generalize l.fetch.run w = out at hw
    generalize l.fetch.run w' = out' at hw'
    obtain ⟨result, v⟩ := out
    obtain ⟨result', v'⟩ := out'
    obtain rfl : result = result' := hw.trans hw'.symm
    cases result with
    | ok d => exact ⟨rfl, by rw [get?_insert d (h.trans hget), get?_insert d hget]⟩
    | error e => exact ⟨rfl, h⟩

theorem get?_left_perform (hk : k ≠ l.key) (c : PolicyCache) (w : σ) :
    ((l.perform c).run w).1.left.get? k = c.get? k := by
  rw [run_perform]
  cases c.get? l.key with
  | some d => rfl
  | none =>
    obtain ⟨_ | d, w'⟩ := l.fetch.run w
    · rfl
    · exact get?_insert_of_ne d hk

/-- The lookups of a key are answered as if there were no others. -/
theorem seen_performAll_filter {calls : List (Lookup σ ε)}
    (hfixed : ∀ l ∈ calls, l.key = k → ∃ r, ∀ w, (l.fetch.run w).1 = r)
    (h : c.get? k = c'.get? k) (w w' : σ) :
    (((performAll c calls).run w).1.filter (·.key = k)).map Answer.seen =
      ((performAll c' (calls.filter (·.key = k))).run w').1.map Answer.seen := by
  induction calls generalizing c c' w w' with
  | nil => rfl
  | cons l rest ih =>
    have hrest := fun l' hl' => hfixed l' (List.mem_cons_of_mem l hl')
    rw [run_performAll_cons]
    by_cases hk : l.key = k
    · subst hk
      obtain ⟨hseen, hleft⟩ := seen_perform (hfixed l List.mem_cons_self rfl) h w w'
      rw [List.filter_cons_of_pos (by simp [key_perform]), List.filter_cons_of_pos (by simp),
        run_performAll_cons, List.map_cons, List.map_cons, hseen, ih hrest hleft]
    · have hleft := (get?_left_perform (Ne.symm hk) c w).trans h
      rw [List.filter_cons_of_neg (by simp [key_perform, hk]), List.filter_cons_of_neg (by simp [hk])]
      exact ih hrest hleft _ _

/-! ## Whole runs -/

/-- **A policy is fetched once, and all that ask for it are told the same.** Take a run of lookups
that starts with an empty cache, with any keys and any fetches.

For each key at most one fetch succeeds. The cache holds, at each point, the descriptions that were
fetched first. A lookup that succeeds returns the description that was fetched first for its key. A
lookup fails just if it fetched and the fetch failed; it returns that error and leaves the cache as
it was. No lookup changes what the cache holds for another key, and if the fetches of a key do not
depend on the world, its lookups go as if there were no others. -/
theorem fetched_once (calls : List (Lookup σ ε)) (w : σ) :
    let as := ((performAll {} calls).run w).1
    as.map (·.key) = calls.map (·.key) ∧
    (∀ k, (as.filterMap (·.fetchedFor? k)).length ≤ 1) ∧
    (∀ earlier a later, as = earlier ++ a :: later →
      (∀ k, a.found.get? k = firstFetched? k earlier) ∧
      (∀ d, a.result = .ok d → firstFetched? a.key (earlier ++ [a]) = some d) ∧
      (∀ e, (a.result = .error e ↔ a.fetched = some (.error e)) ∧
        (a.result = .error e → a.left = a.found)) ∧
      ∀ k ≠ a.key, a.left.get? k = a.found.get? k) ∧
    ∀ k, (∀ l ∈ calls, l.key = k → ∃ r, ∀ w, (l.fetch.run w).1 = r) →
      ∀ w', (as.filter (·.key = k)).map (·.seen) =
        ((performAll {} (calls.filter (·.key = k))).run w').1.map (·.seen) := by
  intro as
  have hstart : Knows {} ([] : List (Answer ε)) := fun _ => rfl
  obtain ⟨hkeys, hanswers⟩ := isAnswer_performAll hstart calls w
  refine ⟨hkeys, fun k => ?_, fun earlier a later hsplit => ?_, fun k hfixed w' => ?_⟩
  · rw [filterMap_fetchedFor? hanswers k]
    cases firstFetched? k as <;> simp
  · have ha : IsAnswer earlier a := hanswers earlier a later hsplit
    refine ⟨ha.found, fun d => ha.of_ok, fun e => ⟨ha.error_iff e, fun he => ?_⟩, fun k hk => ?_⟩
    · exact ha.failed e ((ha.error_iff e).1 he)
    · exact ha.get?_left hk
  · exact seen_performAll_filter hfixed rfl w w'

end CertAuthority.PolicyCache
