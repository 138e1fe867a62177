import CertAuthority.Proofs.Issue.Twins

/-!
# What a run that succeeds has done

A run that comes to a value did so in each of its steps. The steps of one run are opened one after
the other, and those of issuing once and for all.

* `Run.bind_eq_ok_iff` and the lemmas after it : when a step comes to a value, and in which state;
* `Run.Keeps` : what a run adds to the journal, and what it keeps of the files and of the policies
  that are known, for each part of a run;
* `Site.Drafts` : the drafts that issuing from a request can make in a world;
* `Site.drafts_of_mem_journal`, `Site.of_issue` : no other draft is signed, and what is issued was
  signed from one. `Site.exists_issue` : what can be drafted and signed is issued.
-/

namespace CertAuthority

namespace Run

variable {σ α β : Type} {x : Run σ α} {f : α → Run σ β} {s t u : RunState σ} {a a' : α} {b : β}

/-! ## Steps -/

theorem bind_eq_ok_iff :
    (x >>= f).run.run s = (.ok b, t) ↔
      ∃ a u, x.run.run s = (.ok a, u) ∧ (f a).run.run u = (.ok b, t) := by
  rw [run_bind]
  cases x.run.run s with
  | mk result u =>
    cases result with
    | error fault =>
      constructor
      · intro h
        cases h
      · rintro ⟨_, _, h, -⟩
        cases h
    | ok a =>
      constructor
      · exact fun h => ⟨a, u, rfl, h⟩
      · rintro ⟨_, _, h, hrest⟩
        cases h
        exact hrest

theorem pure_eq_ok_iff : (pure a : Run σ α).run.run s = (.ok a', t) ↔ a = a' ∧ s = t := by
  constructor
  · intro h
    cases h
    exact ⟨rfl, rfl⟩
  · rintro ⟨rfl, rfl⟩
    rfl

theorem map_eq_ok_iff {g : α → β} :
    (g <$> x).run.run s = (.ok b, t) ↔ ∃ a, x.run.run s = (.ok a, t) ∧ g a = b := by
  rw [map_eq_pure_bind, bind_eq_ok_iff]
  constructor
  · rintro ⟨a, _, hx, hpure⟩
    obtain ⟨hb, rfl⟩ := pure_eq_ok_iff.1 hpure
    exact ⟨a, hx, hb⟩
  · rintro ⟨a, hx, hb⟩
    exact ⟨a, t, hx, pure_eq_ok_iff.2 ⟨hb, rfl⟩⟩

theorem ofOutcome_eq_ok_iff {o : Outcome Error α} :
    (ofOutcome o : Run σ α).run.run s = (.ok a, t) ↔ o = .ok a ∧ s = t := by
  rw [run_ofOutcome]
  exact Prod.ext_iff

theorem ofOption_eq_ok_iff {e : Error} {o : Option α} :
    (ofOption e o : Run σ α).run.run s = (.ok a, t) ↔ o = some a ∧ s = t := by
  rw [ofOption, ofOutcome_eq_ok_iff, Outcome.ofOption_eq_ok_iff]

theorem atStage_eq_ok_iff {stage : Stage} :
    (atStage stage x).run.run s = (.ok a, t) ↔ x.run.run s = (.ok a, t) := by
  show (Outcome.mapError (Error.atStage stage) (x.run.run s).1, (x.run.run s).2) = (.ok a, t) ↔ _
  rw [Prod.ext_iff, Prod.ext_iff]
  exact and_congr_left' Outcome.mapError_eq_ok_iff

theorem backendAt_eq_ok_iff {stage : Stage} {r : BackendResult α} :
    (backendAt stage r : Run σ α).run.run s = (.ok a, t) ↔ r = .ok a ∧ s = t := by
  rw [backendAt, atStage_eq_ok_iff, ofBackend, ofOutcome_eq_ok_iff, Outcome.mapError_eq_ok_iff]

theorem note_eq_ok_iff {e : Event} {u : Unit} :
    (note e : Run σ Unit).run.run s = (.ok u, t) ↔ { s with journal := s.journal ++ [e] } = t := by
  rw [run_note]
  exact Prod.ext_iff.trans (and_iff_right rfl)

theorem of_moment {m : Moment} (h : (moment : Run σ Moment).run.run s = (.ok m, t)) :
    m.now = s.world.now ∧ t.world.files = s.world.files ∧ t.world.now = s.world.now := by
  cases h
  exact ⟨rfl, rfl, rfl⟩

theorem exists_moment (s : RunState σ) :
    ∃ m t, (moment : Run σ Moment).run.run s = (.ok m, t) ∧ m.now = s.world.now ∧
      t.world.files = s.world.files ∧ t.world.now = s.world.now :=
  ⟨_, _, rfl, rfl, rfl, rfl⟩

/-- A run comes to one value, and to one state. -/
theorem ok_inj (h : x.run.run s = (.ok a, t)) (h' : x.run.run s = (.ok a', u)) :
    a = a' ∧ t = u := by
  rw [h] at h'
  cases h'
  exact ⟨rfl, rfl⟩

theorem Looks.of_eq_ok (h : Looks x) (hx : x.run.run s = (.ok a, t)) :
    x.result s.world = .ok a ∧ t.world = s.world := by
  rw [← h.value s, ← h.world s, hx]
  exact ⟨rfl, rfl⟩

theorem Looks.policies_eq (h : Looks x) (hx : x.run.run s = (.ok a, t)) :
    t.policies = s.policies := by
  rw [← h.policies s, hx]

theorem policies_of_moment {m : Moment} (h : (moment : Run σ Moment).run.run s = (.ok m, t)) :
    t.policies = s.policies := by
  cases h
  rfl

theorem Looks.mapM {γ : Type} {g : γ → Run σ α} (h : ∀ c, Looks (g c)) (cs : List γ) :
    Looks (cs.mapM g) := by
  induction cs with
  | nil => exact .pure []
  | cons c cs ih =>
    rw [List.mapM_cons]
    exact (h c).bind fun _ => ih.bind fun _ => .pure _

theorem run_knownPolicy {key : PolicyKey} {fetch : Run σ PolicyDescription} : (knownPolicy key fetch).run.run s =
      match s.policies.get? key with
      | some d => (.ok d, s)
      | none =>
        match fetch.run.run s with
        | (.ok d, t) => (.ok d, { t with policies := s.policies.insert key d })
        | (.error why, t) => (.error why, { t with policies := s.policies }) := by
  have hrun : (knownPolicy key fetch).run.run s =
      let result := (s.policies.getOrFetch key fetch.run).run s
      (result.1.1, { result.2 with policies := result.1.2 }) := rfl
  rw [hrun, PolicyCache.getOrFetch]
  cases s.policies.get? key with
  | some d => rfl
  | none =>
    dsimp only
    rw [StateT.run_bind]
    obtain ⟨_ | d, t⟩ := fetch.run.run s <;> rfl

/-! ## Journals -/

theorem mem_journal_bind {e : Event} (h : e ∈ ((x >>= f).run.run s).2.journal) :
    e ∈ (x.run.run s).2.journal ∨
      ∃ a u, x.run.run s = (.ok a, u) ∧ e ∈ ((f a).run.run u).2.journal := by
  rw [run_bind] at h
  cases hx : x.run.run s with
  | mk result u =>
    rw [hx] at h
    cases result with
    | error fault => exact .inl h
    | ok a => exact .inr ⟨a, u, rfl, h⟩

section

variable {P : Event → Prop} {Q : α → Prop} {y : Run σ α} {e : Event}

theorem Alike.mem_journal (h : Alike P x y Q) (he : ¬ P e) (hmem : e ∈ (x.run.run s).2.journal) :
    e ∈ s.journal := by
  obtain ⟨added, hjournal, hadded⟩ := h.journal s
  rw [hjournal] at hmem
  exact (List.mem_append.1 hmem).resolve_right fun hnew => he (hadded e hnew)

/-- A first step that adds no such event. -/
theorem Alike.mem_journal_bind (h : Alike P x y Q) (he : ¬ P e)
    (hmem : e ∈ ((x >>= f).run.run s).2.journal) :
    e ∈ s.journal ∨ ∃ a u, x.run.run s = (.ok a, u) ∧ (e ∈ u.journal → e ∈ s.journal) ∧
      e ∈ ((f a).run.run u).2.journal := by
  refine (Run.mem_journal_bind hmem).imp (h.mem_journal he) ?_
  rintro ⟨a, u, hx, hmem⟩
  exact ⟨a, u, hx, fun hold => h.mem_journal he (by rwa [hx]), hmem⟩

/-- What was in the journal stays there. -/
theorem Alike.subset_journal (h : Alike P x y Q) (s : RunState σ) :
    s.journal ⊆ (x.run.run s).2.journal := by
  obtain ⟨added, hjournal, -⟩ := h.journal s
  rw [hjournal]
  exact List.subset_append_left _ _

end

/-! ## What is added, and what is kept -/

/-- The run adds only events `P` to the journal, and what is seen of the files and of the known
policies stays the same. -/
structure Keeps {γ : Type} (P : Event → Prop) (see : σ → PolicyCache → γ) (x : Run σ α) :
    Prop where
  journal : ∀ s, ∃ added, (x.run.run s).2.journal = s.journal ++ added ∧ ∀ e ∈ added, P e
  seen : ∀ s, see (x.run.run s).2.world.files (x.run.run s).2.policies =
    see s.world.files s.policies

/-- The run adds only events `P` to the journal, and learns no policy. -/
abbrev Adds (P : Event → Prop) (x : Run σ α) : Prop := Keeps P (fun _ known => known) x

namespace Keeps

variable {γ : Type} {P P' : Event → Prop} {see : σ → PolicyCache → γ}

theorem mono (h : Keeps P see x) (hp : ∀ e, P e → P' e) : Keeps P' see x :=
  ⟨fun s => (h.journal s).imp fun _ ⟨hj, he⟩ => ⟨hj, fun e hm => hp e (he e hm)⟩, h.seen⟩

theorem seen_eq {result : Outcome Error α} (h : Keeps P see x) (hx : x.run.run s = (result, t)) :
    see t.world.files t.policies = see s.world.files s.policies := by
  rw [← h.seen s, hx]

theorem of_eq (hj : ∀ s, (x.run.run s).2.journal = s.journal)
    (hf : ∀ s, (x.run.run s).2.world.files = s.world.files)
    (hp : ∀ s, (x.run.run s).2.policies = s.policies) : Keeps P see x :=
  ⟨fun s => ⟨[], by simp [hj], by simp⟩, fun s => by rw [hf, hp]⟩

theorem bind (hx : Keeps P see x) (hf : ∀ a, Keeps P see (f a)) : Keeps P see (x >>= f) := by
  refine ⟨fun s => ?_, fun s => ?_⟩
  · obtain ⟨first, hj, hp⟩ := hx.journal s
    rw [run_bind]
    cases hrun : x.run.run s with
    | mk result t =>
      rw [hrun] at hj
      cases result with
      | error fault => exact ⟨first, hj, hp⟩
      | ok a =>
        obtain ⟨added, hj', hp'⟩ := (hf a).journal t
        refine ⟨first ++ added, by rw [hj', hj, List.append_assoc], fun e he => ?_⟩
        exact (List.mem_append.1 he).elim (hp e) (hp' e)
  · have hfirst := hx.seen s
    rw [run_bind]
    cases hrun : x.run.run s with
    | mk result t =>
      rw [hrun] at hfirst
      cases result with
      | error fault => exact hfirst
      | ok a => exact ((hf a).seen t).trans hfirst

/-- Later steps that add no such event. -/
theorem of_mem_journal_bind {e : Event} (hf : ∀ a, Keeps P see (f a)) (he : ¬ P e)
    (hmem : e ∈ ((x >>= f).run.run s).2.journal) : e ∈ (x.run.run s).2.journal := by
  rcases mem_journal_bind hmem with h | ⟨a, t, hx, h⟩
  · exact h
  · obtain ⟨added, hjournal, hadded⟩ := (hf a).journal t
    rw [hjournal] at h
    rw [hx]
    exact (List.mem_append.1 h).resolve_right fun hnew => he (hadded e hnew)

theorem pure (a : α) : Keeps P see (Pure.pure a : Run σ α) :=
  of_eq (fun _ => rfl) (fun _ => rfl) fun _ => rfl

theorem ofOutcome (o : Outcome Error α) : Keeps P see (Run.ofOutcome o : Run σ α) := by
  cases o <;> exact of_eq (fun _ => rfl) (fun _ => rfl) fun _ => rfl

theorem atStage (stage : Stage) (h : Keeps P see x) : Keeps P see (Run.atStage stage x) :=
  ⟨h.journal, h.seen⟩

theorem backendAt (stage : Stage) (r : BackendResult α) :
    Keeps P see (Run.backendAt stage r : Run σ α) :=
  atStage stage (ofOutcome _)

theorem note {e : Event} (h : P e) : Keeps P see (Run.note e : Run σ Unit) :=
  ⟨fun s => ⟨[e], rfl, by simpa using h⟩, fun _ => rfl⟩

theorem world : Keeps P see (get : Run σ (RunState σ)) :=
  of_eq (fun _ => rfl) (fun _ => rfl) fun _ => rfl

theorem moment : Keeps P see (Run.moment : Run σ Moment) :=
  of_eq (fun _ => rfl) (fun _ => rfl) fun _ => rfl

theorem onWorld {act : StateM (World σ) α}
    (h : ∀ w known, see (act.run w).2.files known = see w.files known) :
    Keeps P see (Run.onWorld act) :=
  ⟨fun s => ⟨[], (List.append_nil s.journal).symm, by simp⟩, fun s => h s.world s.policies⟩

theorem ofOption_bind {β : Type} {e : Error} {o : Option β} {g : β → Run σ α}
    (h : ∀ b ∈ o, Keeps P see (g b)) : Keeps P see (Run.ofOption e o >>= g) := by
  cases o with
  | none => exact ofOutcome (Outcome.fail e)
  | some b => exact h b rfl

theorem backendAt_bind {β : Type} {stage : Stage} {r : BackendResult β} {g : β → Run σ α}
    (h : ∀ b, r = .ok b → Keeps P see (g b)) : Keeps P see (Run.backendAt stage r >>= g) := by
  cases r with
  | ok b => exact h b rfl
  | error fault =>
    cases fault with
    | error e => exact ofOutcome (Outcome.fail (.atStage stage (.backend e)))
    | abandoned => exact ofOutcome Outcome.abandon

/-- What is known of policies can be more afterwards. -/
theorem knownPolicy {look : σ → γ} {key : PolicyKey} {fetch : Run σ PolicyDescription}
    (h : Keeps P (fun files _ => look files) fetch) :
    Keeps P (fun files _ => look files) (Run.knownPolicy key fetch) := by
  refine ⟨fun s => ?_, fun s => ?_⟩
  all_goals rw [run_knownPolicy]
  · cases s.policies.get? key with
    | some d => exact ⟨[], by simp, by simp⟩
    | none =>
      have hjournal := h.journal s
      generalize fetch.run.run s = out at hjournal
      obtain ⟨_ | d, t⟩ := out <;> exact hjournal
  · cases s.policies.get? key with
    | some d => rfl
    | none =>
      have hseen := h.seen s
      generalize fetch.run.run s = out at hseen
      obtain ⟨_ | d, t⟩ := out <;> exact hseen

theorem mapM {β : Type} {g : β → Run σ α} (h : ∀ b, Keeps P see (g b)) (bs : List β) :
    Keeps P see (bs.mapM g) := by
  induction bs with
  | nil => exact pure []
  | cons b bs ih =>
    rw [List.mapM_cons]
    exact (h b).bind fun _ => ih.bind fun _ => pure _

end Keeps

theorem Adds.policies_eq {P : Event → Prop} (h : Adds P x) (hx : x.run.run s = (.ok a, t)) :
    t.policies = s.policies := h.seen_eq hx

end Run

/-- An act that asks nobody else. -/
def Event.IsLocal : Event → Prop
  | .ask _ _ _ => False
  | _ => True

/-- Replacing what is at the path is allowed, and makes no difference to what is seen. -/
def FileSystem.Spares {σ γ : Type} (f : FileSystem σ) (P : Event → Prop)
    (see : σ → PolicyCache → γ) (path : String) : Prop :=
  ∀ data mode, P (.replace path data mode) ∧
    ∀ files known, see (f.replace files path data mode).2 known = see files known

namespace Site

open Run (Keeps)

variable {σ γ : Type} {s : Site σ} {r : CertificateRequest} {P : Event → Prop}
  {see : σ → PolicyCache → γ}

theorem keeps_changeFiles {α : Type} {act : σ → Outcome FileError α × σ}
    (h : ∀ files known, see (act files).2 known = see files known) :
    Keeps P see (changeFiles act) :=
  (Keeps.onWorld fun w known => h w.files known).bind fun _ => .ofOutcome _

theorem keeps_replace {path : String} (h : s.files.Spares P see path) (data : Bytes) (mode : Nat) :
    Keeps P see (s.replace path data mode) :=
  (Keeps.note (h data mode).1).bind fun _ => keeps_changeFiles (h data mode).2

theorem run_replace (path : String) (data : Bytes) (mode : Nat) (u : RunState σ) :
    (s.replace path data mode).run.run u =
      (Outcome.mapError .file (s.files.replace u.world.files path data mode).1,
        { u with
          world := { u.world with files := (s.files.replace u.world.files path data mode).2 }
          journal := u.journal ++ [.replace path data mode] }) := by
  show (Run.ofOutcome _ : Run σ Unit).run.run _ = _
  rw [Run.run_ofOutcome]

theorem run_atStage_replace (stage : Stage) (path : String) (data : Bytes) (mode : Nat)
    (u : RunState σ) : (Run.atStage stage (s.replace path data mode)).run.run u =
      (Outcome.mapError (Error.atStage stage)
        (Outcome.mapError .file (s.files.replace u.world.files path data mode).1),
        { u with
          world := { u.world with files := (s.files.replace u.world.files path data mode).2 }
          journal := u.journal ++ [.replace path data mode] }) := by
  show (Outcome.mapError (Error.atStage stage) ((s.replace path data mode).run.run u).1,
    ((s.replace path data mode).run.run u).2) = _
  rw [run_replace]

theorem keeps_has (path : String) : Keeps P see (s.has path) := Keeps.world.bind fun _ => .pure _

theorem keeps_isLink (path : String) : Keeps P see (s.isLink path) :=
  Keeps.world.bind fun _ => .pure _

theorem keeps_encode (stage : Stage) (kind : CertificateKind) (c : Certificate)
    (encoding : Encoding) (o : EncodeOptions) : Keeps P see (s.encode stage kind c encoding o) :=
  Keeps.moment.bind fun _ => .backendAt _ _

theorem keeps_draft (artifact : ArtifactKind) (subject : PublicKey) (signer : SignerIdentity) :
    Keeps P see (s.draft artifact r subject signer) :=
  Keeps.moment.bind fun _ => .backendAt _ _

theorem keeps_sign {d : Draft} (h : P (.sign d)) (key : PrivateKey) :
    Keeps P see (s.sign d key) :=
  (Keeps.note h).bind fun _ => Keeps.moment.bind fun _ => .backendAt _ _

theorem keeps_keepCopy (h : ∀ dir ∈ r.copypath, ∀ name, Path.isPlain name = true →
    s.files.Spares P see (Path.join dir name)) (c : Certificate) :
    Keeps P see (s.keepCopy r c) := by
  unfold keepCopy
  split
  · exact .pure _
  · rename_i dir hdir
    refine Keeps.bind ?_ fun _ => .pure _
    dsimp only [writeCopy]
    split
    · rename_i hplain
      exact (keeps_encode _ _ _ _ _).bind fun _ =>
        (Keeps.atStage _ (keeps_replace (h dir hdir _ hplain) _ _)).bind fun _ => .pure _
    · exact .ofOutcome _

theorem keeps_signCertificate {d : Draft} (hsign : P (.sign d))
    (hcopy : ∀ dir ∈ d.request.copypath, ∀ name, Path.isPlain name = true →
      s.files.Spares P see (Path.join dir name)) (key : PrivateKey) :
    Keeps P see (s.signCertificate d key) :=
  (keeps_sign hsign key).bind fun c => (keeps_keepCopy hcopy c).bind fun _ => .pure _

section

variable (hread : ∀ path, P (.read path))
include hread

theorem keeps_read (path : String) : Keeps P see (s.read path) :=
  (Keeps.note (hread path)).bind fun _ => Keeps.world.bind fun _ => .ofOutcome _

theorem keeps_material (stage : Stage) (m : Material) : Keeps P see (s.material stage m) := by
  cases m with
  | inline b => exact .pure b
  | path path => exact (keeps_read hread path).atStage stage

theorem keeps_loadMaterial (kind : CertificateKind) (stage : Stage) (m : Material) :
    Keeps P see (s.loadMaterial kind stage m) :=
  (keeps_material hread stage m).bind fun _ => .backendAt _ _

theorem keeps_signingCertificate : Keeps P see (s.signingCertificate r) := by
  unfold signingCertificate
  split
  · exact (keeps_loadMaterial hread _ _ _).bind fun _ => .pure _
  · exact .pure _

theorem keeps_signer : Keeps P see (s.signer r) := by
  unfold signer
  split
  · exact .pure _
  · exact (keeps_material hread _ _).bind fun _ => (Keeps.backendAt _ _).bind fun _ =>
      (Keeps.backendAt _ _).bind fun _ => (keeps_signingCertificate hread).bind fun _ => .pure _

theorem keeps_signerIdentity : Keeps P see (s.signerIdentity r) := by
  refine (keeps_signingCertificate hread).bind fun certificate => ?_
  split
  · exact (keeps_material hread _ _).bind fun _ => (Keeps.backendAt _ _).bind fun _ => .pure _
  · exact .pure _

theorem keeps_requireSigner : Keeps P see (s.requireSigner r) :=
  (keeps_signer hread).bind fun _ => .ofOutcome _

theorem keeps_subjectKey (authority : PublicKey) : Keeps P see (s.subjectKey r authority) := by
  unfold subjectKey
  split
  · exact (keeps_material hread _ _).bind fun _ => (Keeps.backendAt _ _).bind fun _ => .pure _
  · exact (keeps_material hread _ _).bind fun _ => (Keeps.backendAt _ _).bind fun _ =>
      (Keeps.backendAt _ _).bind fun _ => .pure _
  · exact (keeps_material hread _ _).bind fun _ => (Keeps.backendAt _ _).bind fun _ => .pure _
  · exact .pure _

theorem keeps_chain : Keeps P see (s.chain r) := by
  refine (Keeps.mapM (fun m => ?_) r.appendCerts).bind fun _ => .pure _
  exact (keeps_loadMaterial hread _ _ m).bind fun _ => .pure _

end

end Site

/-! ## Issuing -/

namespace Site

open Run

variable {σ : Type} {s : Site σ} {r : CertificateRequest} {t u : RunState σ} {d : Draft}
  {c : Certificate}

/-- A draft for the request, from the material that there is in the world. -/
structure Drafts (s : Site σ) (r : CertificateRequest) (w : World σ) (signing : SigningMaterial)
    (d : Draft) : Prop where
  signer : (s.signer r).result w = .ok (some signing)
  drafted : ∃ subject m, (s.subjectKey r signing.identity.publicKey).result w = .ok subject ∧
    m.now = w.now ∧
    (s.backend r.kind).buildDraft m .certificate r subject.publicKey signing.identity = .ok d

theorem requireSigner_eq_ok_iff {signing : SigningMaterial} :
    (s.requireSigner r).run.run t = (.ok signing, u) ↔
      (s.signer r).run.run t = (.ok (some signing), u) := by
  simp only [requireSigner, bind_eq_ok_iff, ofOption_eq_ok_iff]
  constructor
  · rintro ⟨_, _, h, rfl, rfl⟩
    exact h
  · exact fun h => ⟨_, _, h, rfl, rfl⟩

/-- The steps up to the draft. -/
theorem drafts_of_steps {signing : SigningMaterial} {subject : SubjectKey}
    {t₁ t₂ t₃ : RunState σ} (hsigner : (s.requireSigner r).run.run t = (.ok signing, t₁))
    (hsubject : (s.subjectKey r signing.identity.publicKey).run.run t₁ = (.ok subject, t₂))
    (hdraft : (s.draft .certificate r subject.publicKey signing.identity).run.run t₂ =
      (.ok d, t₃)) : s.Drafts r t.world signing d := by
  obtain ⟨hvalue, hworld⟩ := looks_signer.of_eq_ok (requireSigner_eq_ok_iff.1 hsigner)
  obtain ⟨hkey, hworld'⟩ := (looks_subjectKey _).of_eq_ok hsubject
  simp only [draft, bind_eq_ok_iff, backendAt_eq_ok_iff] at hdraft
  obtain ⟨m, _, hmoment, hdraft, -⟩ := hdraft
  refine ⟨hvalue, subject, m, by rw [← hworld]; exact hkey, ?_, hdraft⟩
  rw [(of_moment hmoment).1, hworld', hworld]

/-- What is issued was signed from a draft. -/
theorem of_issue (h : (s.issue r).run.run t = (.ok c, u)) :
    ∃ signing d m, s.Drafts r t.world signing d ∧
      (s.backend d.request.kind).sign m d signing.key d.request.digest = .ok c ∧
      Event.sign d ∈ u.journal := by
  simp only [issue, bind_eq_ok_iff] at h
  obtain ⟨signing, _, hsigner, subject, _, hsubject, d, t₃, hdraft, h⟩ := h
  simp only [signCertificate, sign, bind_eq_ok_iff, note_eq_ok_iff, backendAt_eq_ok_iff,
    pure_eq_ok_iff] at h
  obtain ⟨c, _, ⟨_, _, hnote, m, t₄, hmoment, hsign, rfl⟩, _, _, hcopy, rfl, rfl⟩ := h
  refine ⟨signing, d, m, drafts_of_steps hsigner hsubject hdraft, hsign, ?_⟩
  have hcopies : Alike (fun _ => True) (s.keepCopy d.request c) _ fun _ => True :=
    alike_keepCopy (.refl s.files _) (fun _ _ => trivial) c
  have hkept := hcopies.subset_journal t₄
  rw [hcopy] at hkept
  cases hnote
  cases hmoment
  exact hkept (List.mem_append_right _ (List.mem_singleton_self _))

/-- No other draft is signed. -/
theorem drafts_of_mem_journal (h : Event.sign d ∈ ((s.issue r).run.run t).2.journal) :
    Event.sign d ∈ t.journal ∨ ∃ signing, s.Drafts r t.world signing d := by
  -- only one step signs anything
  let P (e : Event) : Prop := e ≠ .sign d
  have hp : ¬ P (.sign d) := fun h => h rfl
  have hown : s.files.Agree s.files P := .refl _ _
  have hsigner : Alike P (s.requireSigner r) (s.requireSigner r) fun _ => True :=
    (alike_signer hown fun _ _ => nofun).bind fun _ _ => (Alike.ofOutcome _).any
  rcases hsigner.mem_journal_bind hp h with hold | ⟨signing, t₁, hrun, hback, h⟩
  · exact .inl hold
  have hsubject := alike_subjectKey hown signing.identity.publicKey (r := r) fun _ _ => nofun
  rcases hsubject.mem_journal_bind hp h with hold | ⟨subject, t₂, hrun', hback', h⟩
  · exact .inl (hback hold)
  have hdraft : Alike P (s.draft .certificate r subject.publicKey signing.identity) _
      fun _ => True := Alike.moment.bind fun _ _ => (Alike.backendAt _ _).any
  rcases hdraft.mem_journal_bind hp h with hold | ⟨d', t₃, hrun'', hback'', h⟩
  · exact .inl (hback (hback' hold))
  by_cases hd : d' = d
  · exact .inr ⟨signing, hd ▸ drafts_of_steps hrun hrun' hrun''⟩
  · have hother : P (.sign d') := fun heq => hd (Event.sign.inj heq)
    have hsign := alike_signCertificate hown hother (fun _ _ => nofun) signing.key
    exact .inl (hback (hback' (hback'' (hsign.mem_journal hp h))))

/-- What can be drafted and signed at all is issued. -/
theorem exists_issue {signing : SigningMaterial} {subject : SubjectKey}
    (hsigner : (s.signer r).result t.world = .ok (some signing))
    (hsubject : (s.subjectKey r signing.identity.publicKey).result t.world = .ok subject)
    (hdraft : ∀ m : Moment, m.now = t.world.now → (s.backend r.kind).buildDraft m .certificate r
      subject.publicKey signing.identity = .ok d)
    (hsign : ∀ m, (s.backend d.request.kind).sign m d signing.key d.request.digest = .ok c)
    (hcopy : d.request.copypath = none) :
    ∃ u, (s.issue r).run.run t = (.ok c, u) ∧ u.world.files = t.world.files ∧
      u.world.now = t.world.now := by
  obtain ⟨t₁, hrun₁, hworld₁⟩ := looks_signer.run_eq t
  rw [hsigner] at hrun₁
  obtain ⟨t₂, hrun₂, hworld₂⟩ := (looks_subjectKey signing.identity.publicKey).run_eq t₁
  rw [hworld₁, hsubject] at hrun₂
  obtain ⟨m, t₃, hmoment, hnow, hfiles₃, hnow₃⟩ := exists_moment t₂
  obtain ⟨m', t₄, hmoment', -, hfiles₄, hnow₄⟩ :=
    exists_moment { t₃ with journal := t₃.journal ++ [.sign d] }
  rw [hworld₂, hworld₁] at hnow hfiles₃ hnow₃
  refine ⟨t₄, ?_, hfiles₄.trans hfiles₃, hnow₄.trans hnow₃⟩
  have hkept : (s.keepCopy d.request c).run.run t₄ = (.ok (), t₄) := by
    unfold keepCopy
    rw [hcopy]
    rfl
  simp only [issue, requireSigner, draft, signCertificate, sign, bind_eq_ok_iff,
    ofOption_eq_ok_iff, backendAt_eq_ok_iff, note_eq_ok_iff, pure_eq_ok_iff]
  exact ⟨signing, t₁, ⟨_, t₁, hrun₁, rfl, rfl⟩, subject, t₂, hrun₂, d, t₃,
    ⟨m, t₃, hmoment, hdraft m hnow, rfl⟩, c, t₄,
    ⟨(), _, rfl, m', t₄, hmoment', hsign m', rfl⟩, (), t₄, hkept, rfl, rfl⟩

end Site
end CertAuthority
