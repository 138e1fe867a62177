import CertAuthority.Proofs.Issue.Steps

/-!
# Runs that are repeated

A run that is started again from the same files, at the same time and with the same policies known,
gets other random bytes.

* `RunState.Agrees` : states that such runs start from;
* `Run.Steady` : a run that comes to the same from all of them;
* `Run.Foretells` : a run that succeeds where another one does, with a related value.
-/

namespace CertAuthority

/-- The same files at the same time, and the same policies known. Random bytes can differ. -/
structure RunState.Agrees {σ : Type} (s t : RunState σ) : Prop where
  files : s.world.files = t.world.files
  now : s.world.now = t.world.now
  policies : s.policies = t.policies

theorem RunState.Agrees.refl {σ : Type} (s : RunState σ) : s.Agrees s := ⟨rfl, rfl, rfl⟩

namespace Run

variable {σ α β γ δ : Type}

/-- From states that agree the run comes to the same, and leaves states that agree. -/
def Steady (x : Run σ α) : Prop :=
  ∀ s t : RunState σ, s.Agrees t →
    (x.run.run s).1 = (x.run.run t).1 ∧ (x.run.run s).2.Agrees (x.run.run t).2

namespace Steady

variable {x : Run σ α} {f : α → Run σ β}

theorem of_looks (h : Looks x) : Steady x := by
  intro s t hst
  refine ⟨by rw [h.value, h.value, h.files hst.files], ?_, ?_, ?_⟩
  · rw [h.world, h.world, hst.files]
  · rw [h.world, h.world, hst.now]
  · rw [h.policies, h.policies, hst.policies]

theorem pure (a : α) : Steady (Pure.pure a : Run σ α) := fun _ _ h => ⟨rfl, h⟩

theorem bind (hx : Steady x) (hf : ∀ a, Steady (f a)) : Steady (x >>= f) := by
  intro s t hst
  obtain ⟨hvalue, hstates⟩ := hx s t hst
  rw [run_bind, run_bind]
  generalize x.run.run s = out at hvalue hstates
  generalize x.run.run t = out' at hvalue hstates
  obtain ⟨result, s'⟩ := out
  obtain ⟨_, t'⟩ := out'
  obtain rfl := hvalue
  cases result with
  | ok a => exact hf a s' t' hstates
  | error fault => exact ⟨rfl, hstates⟩

theorem ofOutcome (o : Outcome Error α) : Steady (Run.ofOutcome o : Run σ α) := by
  intro s t hst
  rw [run_ofOutcome, run_ofOutcome]
  exact ⟨rfl, hst⟩

theorem atStage (stage : Stage) (hx : Steady x) : Steady (Run.atStage stage x) := by
  intro s t hst
  obtain ⟨hvalue, hstates⟩ := hx s t hst
  exact ⟨congrArg (Outcome.mapError (Error.atStage stage)) hvalue, hstates⟩

theorem backendAt (stage : Stage) (r : BackendResult α) :
    Steady (Run.backendAt stage r : Run σ α) :=
  atStage stage (ofOutcome _)

theorem note (e : Event) : Steady (Run.note e : Run σ Unit) :=
  fun _ _ h => ⟨rfl, h.files, h.now, h.policies⟩

theorem onWorld {act : StateM (World σ) α}
    (h : ∀ w w' : World σ, w.files = w'.files → w.now = w'.now →
      (act.run w).1 = (act.run w').1 ∧ (act.run w).2.files = (act.run w').2.files ∧
        (act.run w).2.now = (act.run w').2.now) : Steady (Run.onWorld act) := by
  intro s t hst
  obtain ⟨hvalue, hfiles, hnow⟩ := h s.world t.world hst.files hst.now
  rw [run_onWorld, run_onWorld]
  exact ⟨congrArg Except.ok hvalue, hfiles, hnow, hst.policies⟩

/-- A step that uses the time, and no random bytes. -/
theorem moment_bind {f : Moment → Run σ α} (hf : ∀ m, Steady (f m))
    (hsame : ∀ m m' : Moment, m.now = m'.now → f m = f m') : Steady (Run.moment >>= f) := by
  intro s t hst
  let m (u : RunState σ) : Moment := ⟨u.world.now, u.world.seed ++ Bytes.ofWord32 u.world.moments⟩
  let next (u : RunState σ) : RunState σ :=
    { u with world := { u.world with moments := u.world.moments + 1 } }
  have hrun (u : RunState σ) : (Run.moment >>= f).run.run u = (f (m u)).run.run (next u) := rfl
  rw [hrun, hrun, hsame (m s) (m t) hst.now]
  exact hf _ _ _ ⟨hst.files, hst.now, hst.policies⟩

/-- A step that looks at the files, the time or the known policies. -/
theorem get_bind {f : RunState σ → Run σ α} (hf : ∀ s, Steady (f s))
    (hsame : ∀ s t : RunState σ, s.Agrees t → f s = f t) :
    Steady ((get : Run σ (RunState σ)) >>= f) := by
  intro s t hst
  have hrun (u : RunState σ) :
      ((get : Run σ (RunState σ)) >>= f).run.run u = (f u).run.run u := rfl
  rw [hrun, hrun, hsame s t hst]
  exact hf t s t hst

theorem knownPolicy {key : PolicyKey} {fetch : Run σ PolicyDescription} (h : Steady fetch) :
    Steady (Run.knownPolicy key fetch) := by
  intro s t hst
  rw [run_knownPolicy, run_knownPolicy, hst.policies]
  cases t.policies.get? key with
  | some d => exact ⟨rfl, hst⟩
  | none =>
    obtain ⟨hvalue, hstates⟩ := h s t hst
    generalize fetch.run.run s = out at hvalue hstates
    generalize fetch.run.run t = out' at hvalue hstates
    obtain ⟨result, s'⟩ := out
    obtain ⟨_, t'⟩ := out'
    obtain rfl := hvalue
    cases result <;> exact ⟨rfl, hstates.files, hstates.now, rfl⟩

theorem ofOption_bind {e : Error} {o : Option α} (hf : ∀ a ∈ o, Steady (f a)) :
    Steady (Run.ofOption e o >>= f) := by
  cases o with
  | none => exact ofOutcome (Outcome.fail e)
  | some a => exact hf a rfl

end Steady

/-- Wherever the second run succeeds, so does the first from a state that agrees, with a related
value and in states that agree. -/
def Foretells (R : α → β → Prop) (x : Run σ α) (y : Run σ β) : Prop :=
  ∀ s t : RunState σ, s.Agrees t → ∀ b v, y.run.run t = (.ok b, v) →
    ∃ a u, x.run.run s = (.ok a, u) ∧ R a b ∧ u.Agrees v

namespace Foretells

variable {R : α → β → Prop} {S : γ → δ → Prop} {x : Run σ α} {y : Run σ β}

theorem of_steady {x : Run σ α} (h : Steady x) : Foretells (· = ·) x x := by
  intro s t hst a v hy
  obtain ⟨hvalue, hstates⟩ := h s t hst
  rw [hy] at hvalue hstates
  exact ⟨a, (x.run.run s).2, Prod.ext hvalue rfl, rfl, hstates⟩

theorem pure {a : α} {b : β} (h : R a b) :
    Foretells R (Pure.pure a : Run σ α) (Pure.pure b : Run σ β) := by
  intro s t hst _ _ hy
  obtain ⟨rfl, rfl⟩ := pure_eq_ok_iff.1 hy
  exact ⟨a, s, rfl, h, hst⟩

theorem bind {f : α → Run σ γ} {g : β → Run σ δ} (hx : Foretells R x y)
    (hf : ∀ a b, R a b → Foretells S (f a) (g b)) : Foretells S (x >>= f) (y >>= g) := by
  intro s t hst d v hy
  obtain ⟨b, t', hb, hrest⟩ := bind_eq_ok_iff.1 hy
  obtain ⟨a, s', ha, hab, hstates⟩ := hx s t hst b t' hb
  obtain ⟨c, u, hc, hcd, hend⟩ := hf a b hab s' t' hstates d v hrest
  exact ⟨c, u, bind_eq_ok_iff.2 ⟨a, s', ha, hc⟩, hcd, hend⟩

/-- The same step first. -/
theorem bind_steady {z : Run σ α} {f : α → Run σ γ} {g : α → Run σ δ} (hz : Steady z)
    (hf : ∀ a, Foretells S (f a) (g a)) : Foretells S (z >>= f) (z >>= g) :=
  (of_steady hz).bind fun a _ hab => hab ▸ hf a

end Foretells
end Run
end CertAuthority
