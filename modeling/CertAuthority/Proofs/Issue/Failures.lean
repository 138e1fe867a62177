import CertAuthority.Proofs.Error.Stages
import CertAuthority.Proofs.Issue.Journal

/-!
# Failures of a run can be told

A requester is told of a failure in messages. Every failure of issuing has at least one, since none
is the report of another authority that named none.

* `Error.HasMessages` : the failures that are told;
* `Run.Ends` : a run comes only to such values, and fails with a failure that is told;
* `Site.ends_issue` : issuing does, with each of its parts.
-/

namespace CertAuthority

namespace Error

/-- Not the report of an authority that named no error. -/
def HasMessages (e : Error) : Prop := e.root ≠ .transport (.remoteError [])

theorem hasMessages_backend (e : BackendError) : (Error.backend e).HasMessages := by
  simp [HasMessages, root]

theorem hasMessages_file (e : FileError) : (Error.file e).HasMessages := by
  simp [HasMessages, root]

theorem hasMessages_policy (e : PolicyError) : (Error.policy e).HasMessages := by
  simp [HasMessages, root]

theorem hasMessages_missingSigningKey : Error.missingSigningKey.HasMessages := by
  simp [HasMessages, root]

theorem remoteMessages_ne_nil {e : Error} (h : e.HasMessages) : e.remoteMessages ≠ [] := by
  unfold remoteMessages
  split
  · rename_i messages hroot
    rintro rfl
    exact h hroot
  all_goals first
    | split <;> exact List.cons_ne_nil _ _
    | exact List.cons_ne_nil _ _

theorem HasMessages.atStage {e : Error} (h : e.HasMessages) (stage : Stage) :
    (e.atStage stage).HasMessages := by
  rw [HasMessages, root_atStage]
  exact h

end Error

/-- A failure is one that can be told. -/
def Outcome.IsTold {α : Type} (o : Outcome Error α) : Prop :=
  ∀ why, o = .error (.error why) → why.HasMessages

namespace Outcome.IsTold

variable {ε α : Type}

theorem ok (a : α) : IsTold (.ok a) := nofun

theorem fail {e : Error} (h : e.HasMessages) : IsTold (Outcome.fail e : Outcome Error α) := by
  rintro why hwhy
  cases hwhy
  exact h

theorem bind {β : Type} {o : Outcome Error α} {f : α → Outcome Error β} (ho : IsTold o)
    (hf : ∀ a, IsTold (f a)) : IsTold (o >>= f) := by
  cases o with
  | error fault => exact fun why hwhy => ho why (congrArg Except.error (Except.error.inj hwhy))
  | ok a => exact hf a

theorem mapError {f : ε → Error} (h : ∀ e, (f e).HasMessages) (o : Outcome ε α) :
    IsTold (Outcome.mapError f o) := by
  obtain (e | _) | a := o
  · exact fail (h e)
  · exact nofun
  · exact ok a

theorem ofExcept {f : ε → Error} (h : ∀ e, (f e).HasMessages) (x : Except ε α) :
    IsTold (x.mapError fun e => .error (f e)) := by
  cases x with
  | error e => exact fail (h e)
  | ok a => exact ok a

theorem ofOption {e : Error} (h : e.HasMessages) (a : Option α) :
    IsTold (Outcome.ofOption e a) := by
  cases a with
  | none => exact fail h
  | some a => exact ok a

theorem atStage {o : Outcome Error α} (h : IsTold o) (stage : Stage) :
    IsTold (Outcome.mapError (·.atStage stage) o) := by
  obtain (e | _) | a := o
  · exact fail ((h e rfl).atStage stage)
  · exact nofun
  · exact ok a

end Outcome.IsTold

/-! ## Runs -/

namespace Run

variable {σ α β : Type} {Q Q' : α → Prop} {R : β → Prop} {x : Run σ α}

/-- From every state the run comes only to values `Q`, and a failure is one that can be told. -/
structure Ends (x : Run σ α) (Q : α → Prop) : Prop where
  value : ∀ s a, (x.run.run s).1 = .ok a → Q a
  failure : ∀ s, Outcome.IsTold (x.run.run s).1

namespace Ends

theorem mono (h : Ends x Q) (hq : ∀ a, Q a → Q' a) : Ends x Q' :=
  ⟨fun s a ha => hq a (h.value s a ha), h.failure⟩

/-- What a run comes to does not matter. -/
theorem any (h : Ends x Q) : Ends x fun _ => True := h.mono fun _ _ => trivial

theorem pure {a : α} (h : Q a) : Ends (Pure.pure a : Run σ α) Q :=
  ⟨fun _ _ ha => Except.ok.inj ha ▸ h, fun _ => .ok a⟩

theorem bind {f : α → Run σ β} (hx : Ends x Q) (hf : ∀ a, Q a → Ends (f a) R) :
    Ends (x >>= f) R := by
  constructor
  · intro s b hb
    rw [run_bind] at hb
    cases hrun : x.run.run s with
    | mk result t =>
      rw [hrun] at hb
      cases result with
      | error fault => cases hb
      | ok a => exact (hf a (hx.value s a (by rw [hrun]))).value t b hb
  · intro s why hwhy
    rw [run_bind] at hwhy
    cases hrun : x.run.run s with
    | mk result t =>
      rw [hrun] at hwhy
      cases result with
      | error fault =>
        have hfault : fault = .error why := Except.error.inj hwhy
        exact hx.failure s why (by rw [hrun, hfault])
      | ok a => exact (hf a (hx.value s a (by rw [hrun]))).failure t why hwhy

theorem map (f : α → β) (hx : Ends x Q) (hf : ∀ a, Q a → R (f a)) : Ends (f <$> x) R := by
  rw [map_eq_pure_bind]
  exact hx.bind fun a ha => pure (hf a ha)

theorem ofOutcome {o : Outcome Error α} (h : Outcome.IsTold o) :
    Ends (Run.ofOutcome o : Run σ α) fun _ => True := by
  cases o <;> exact ⟨fun _ _ _ => trivial, fun _ => h⟩

theorem atStage (stage : Stage) (h : Ends x Q) : Ends (Run.atStage stage x) Q :=
  ⟨fun s a ha => h.value s a (Outcome.mapError_eq_ok_iff.1 ha),
    fun s => (h.failure s).atStage stage⟩

theorem backendAt (stage : Stage) (r : BackendResult α) :
    Ends (Run.backendAt stage r : Run σ α) fun _ => True :=
  atStage stage (ofOutcome (.mapError Error.hasMessages_backend r))

theorem note (e : Event) : Ends (Run.note e : Run σ Unit) fun _ => True :=
  ⟨fun _ _ _ => trivial, fun _ => .ok ()⟩

theorem world : Ends (get : Run σ (RunState σ)) fun _ => True :=
  ⟨fun _ _ _ => trivial, fun s => .ok s⟩

theorem moment : Ends (Run.moment : Run σ Moment) fun _ => True :=
  ⟨fun _ _ _ => trivial, fun _ => .ok _⟩

theorem changeFiles (act : σ → Outcome FileError α × σ) :
    Ends (Site.changeFiles act) fun _ => True :=
  bind (Q := fun _ => True) ⟨fun _ _ _ => trivial, fun _ => .ok _⟩ fun _ _ =>
    ofOutcome (.mapError Error.hasMessages_file _)

end Ends
end Run

/-! ## Issuing -/

namespace Site

variable {σ : Type} (s : Site σ) (r : CertificateRequest)

open Run (Ends)

theorem ends_material (stage : Stage) (m : Material) :
    Ends (s.material stage m) fun _ => True := by
  cases m with
  | inline b => exact .pure trivial
  | path path =>
    refine .atStage stage ((Ends.note _).bind fun _ _ => Ends.world.bind fun _ _ => ?_)
    exact .ofOutcome (.mapError Error.hasMessages_file _)

theorem ends_signingCertificate : Ends (s.signingCertificate r) fun _ => True := by
  unfold signingCertificate
  split
  · refine Ends.bind (Q := fun _ => True) ?_ fun _ _ => .pure trivial
    exact (s.ends_material _ _).bind fun _ _ => .backendAt _ _
  · exact .pure trivial

theorem ends_signer : Ends (s.signer r) fun _ => True := by
  unfold signer
  split
  · exact .pure trivial
  · exact (s.ends_material _ _).bind fun _ _ => (Ends.backendAt _ _).bind fun _ _ =>
      (Ends.backendAt _ _).bind fun _ _ => (s.ends_signingCertificate r).bind fun _ _ =>
        .pure trivial

theorem ends_signerIdentity : Ends (s.signerIdentity r) fun _ => True := by
  refine (s.ends_signingCertificate r).bind fun certificate _ => ?_
  split
  · exact (s.ends_material _ _).bind fun _ _ => (Ends.backendAt _ _).bind fun _ _ => .pure trivial
  · exact .pure trivial

theorem ends_subjectKey (authority : PublicKey) :
    Ends (s.subjectKey r authority) fun _ => True := by
  unfold subjectKey
  split
  · exact (s.ends_material _ _).bind fun _ _ => (Ends.backendAt _ _).bind fun _ _ => .pure trivial
  · exact (s.ends_material _ _).bind fun _ _ => (Ends.backendAt _ _).bind fun _ _ =>
      (Ends.backendAt _ _).bind fun _ _ => .pure trivial
  · exact (s.ends_material _ _).bind fun _ _ => (Ends.backendAt _ _).bind fun _ _ => .pure trivial
  · exact .pure trivial

theorem ends_encodePlain (stage : Stage) (kind : CertificateKind) (c : Certificate) :
    Ends (s.encodePlain stage kind c) fun _ => True :=
  Ends.moment.bind fun _ _ => .backendAt _ _

theorem ends_keepCopy (c : Certificate) : Ends (s.keepCopy r c) fun _ => True := by
  unfold keepCopy
  split
  · exact .pure trivial
  · refine Ends.bind (Q := fun _ => True) ?_ fun _ _ => .pure trivial
    dsimp only [writeCopy]
    split
    · refine (s.ends_encodePlain _ _ _).bind fun _ _ => Ends.bind (Q := fun _ => True) ?_
        fun _ _ => .pure trivial
      exact .atStage _ ((Ends.note _).bind fun _ _ => .changeFiles _)
    · exact .ofOutcome (.fail ((Error.hasMessages_file _).atStage _))

theorem ends_signCertificate (d : Draft) (key : PrivateKey) :
    Ends (s.signCertificate d key) fun _ => True := by
  refine Ends.bind (Q := fun _ => True) ?_ fun c _ =>
    (s.ends_keepCopy _ c).bind fun _ _ => .pure trivial
  exact (Ends.note _).bind fun _ _ => Ends.moment.bind fun _ _ => .backendAt _ _

theorem ends_issue : Ends (s.issue r) fun _ => True := by
  refine Ends.bind (Q := fun _ => True) ?_ fun signing _ => ?_
  · exact (s.ends_signer r).bind fun _ _ => .ofOutcome (.ofOption Error.hasMessages_missingSigningKey _)
  · refine (s.ends_subjectKey r _).bind fun subject _ => ?_
    refine Ends.bind (Q := fun _ => True) ?_ fun d _ => s.ends_signCertificate d _
    exact Ends.moment.bind fun _ _ => .backendAt _ _

end Site
end CertAuthority
