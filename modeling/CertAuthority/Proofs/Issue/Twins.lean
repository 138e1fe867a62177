import CertAuthority.Proofs.Issue.Journal
import CertAuthority.Proofs.X509.RequestedRevocations

/-!
# Runs that cannot be told apart

What a run is answered with must not depend on how its signing key is named. Two runs are compared
from states of one world: what they come to, and the world they leave. Their journals may differ,
since one may read a file where the other has the bytes at hand.

* `Run.Looks` : a run that only looks, and sees nothing but the files;
* `Run.Twins` : two runs that come to related values or to one fault, in one world;
* `CertificateRequest.withKey` : the same request with another signing key;
* `Backend.KeyBlind` : drafts and signatures do not depend on how the key was named;
* `Site.twins_issue` : issuing does not either, as long as the keys that are loaded are the same.
-/

namespace CertAuthority

/-! ## Runs -/

/-- Both end with related values, or with the same fault. -/
inductive Outcome.Related {ε α β : Type} (R : α → β → Prop) : Outcome ε α → Outcome ε β → Prop
  | ok {a : α} {b : β} (h : R a b) : Related R (.ok a) (.ok b)
  | error (why : Fault ε) : Related R (.error why) (.error why)

namespace Outcome.Related

variable {ε δ α β : Type} {R : α → β → Prop}

theorem of_eq {x y : Outcome ε α} (h : x = y) : Related (· = ·) x y := by
  rw [h]
  cases y with
  | ok a => exact .ok rfl
  | error why => exact .error why

theorem eq {x y : Outcome ε α} (h : Related (· = ·) x y) : x = y := by
  cases h with
  | ok hab => rw [hab]
  | error why => rfl

theorem mapError {x : Outcome ε α} {y : Outcome ε β} (f : ε → δ) (h : Related R x y) :
    Related R (Outcome.mapError f x) (Outcome.mapError f y) := by
  cases h with
  | ok hab => exact .ok hab
  | error why => cases why <;> exact .error _

theorem map_right (x : Outcome ε α) (f : α → β) : Related (fun a b => b = f a) x (f <$> x) := by
  cases x with
  | ok a => exact .ok rfl
  | error why => exact .error why

end Outcome.Related

namespace Run

variable {σ α β γ δ : Type} {w : World σ} {x : Run σ α} {y : Run σ β}

/-- What the run comes to in a world. -/
def result (x : Run σ α) (w : World σ) : Outcome Error α := (x.run.run ⟨w, [], {}⟩).1

/-- The run leaves the world as it is, and what it comes to depends on nothing but the files. -/
structure Looks (x : Run σ α) : Prop where
  value : ∀ s, (x.run.run s).1 = x.result s.world
  world : ∀ s, (x.run.run s).2.world = s.world
  files : ∀ {w w'}, w.files = w'.files → x.result w = x.result w'
  policies : ∀ s, (x.run.run s).2.policies = s.policies

theorem run_ofOutcome (o : Outcome Error α) (s : RunState σ) :
    (ofOutcome o : Run σ α).run.run s = (o, s) := by
  cases o <;> rfl

theorem run_note (e : Event) (s : RunState σ) :
    (note e : Run σ Unit).run.run s = (.ok (), { s with journal := s.journal ++ [e] }) := rfl

theorem run_onWorld (act : StateM (World σ) α) (s : RunState σ) :
    (onWorld act).run.run s = (.ok (act.run s.world).1, { s with world := (act.run s.world).2 }) :=
  rfl

namespace Looks

theorem run_eq (h : Looks x) (s : RunState σ) :
    ∃ t, x.run.run s = (x.result s.world, t) ∧ t.world = s.world :=
  ⟨(x.run.run s).2, Prod.ext (h.value s) rfl, h.world s⟩

theorem run_bind_eq {f : α → Run σ γ} (hx : Looks x) (s : RunState σ) :
    ∃ t, t.world = s.world ∧ (x >>= f).run.run s =
      match x.result s.world with
      | .ok a => (f a).run.run t
      | .error why => (.error why, t) := by
  obtain ⟨t, hrun, hworld⟩ := hx.run_eq s
  refine ⟨t, hworld, ?_⟩
  rw [run_bind, hrun]
  cases x.result s.world <;> rfl

theorem value_bind {f : α → Run σ γ} (hx : Looks x) (hf : ∀ a, Looks (f a)) (s : RunState σ) :
    ((x >>= f).run.run s).1 = x.result s.world >>= fun a => (f a).result s.world := by
  obtain ⟨t, hworld, hrun⟩ := hx.run_bind_eq (f := f) s
  rw [hrun]
  cases x.result s.world with
  | ok a => exact ((hf a).value t).trans (by rw [hworld]; rfl)
  | error why => rfl

theorem result_bind {f : α → Run σ γ} (hx : Looks x) (hf : ∀ a, Looks (f a)) (w : World σ) :
    (x >>= f).result w = x.result w >>= fun a => (f a).result w :=
  hx.value_bind hf ⟨w, [], {}⟩

theorem bind {f : α → Run σ γ} (hx : Looks x) (hf : ∀ a, Looks (f a)) : Looks (x >>= f) := by
  refine ⟨fun s => (hx.value_bind hf s).trans (hx.result_bind hf s.world).symm, fun s => ?_,
    fun {w w'} hfiles => ?_, fun s => ?_⟩
  · obtain ⟨t, hworld, hrun⟩ := hx.run_bind_eq (f := f) s
    rw [hrun]
    cases x.result s.world with
    | ok a => exact ((hf a).world t).trans hworld
    | error why => exact hworld
  · rw [hx.result_bind hf, hx.result_bind hf, hx.files hfiles]
    exact bind_congr fun a => (hf a).files hfiles
  · have hfirst := hx.policies s
    rw [run_bind]
    generalize x.run.run s = out at hfirst
    obtain ⟨why | a, t⟩ := out
    · exact hfirst
    · exact ((hf a).policies t).trans hfirst

theorem pure (a : α) : Looks (Pure.pure a : Run σ α) :=
  ⟨fun _ => rfl, fun _ => rfl, fun _ => rfl, fun _ => rfl⟩

theorem map (f : α → γ) (hx : Looks x) : Looks (f <$> x) := by
  rw [map_eq_pure_bind]
  exact hx.bind fun _ => pure _

theorem ofOutcome (o : Outcome Error α) : Looks (Run.ofOutcome o : Run σ α) := by
  cases o <;> exact ⟨fun _ => rfl, fun _ => rfl, fun _ => rfl, fun _ => rfl⟩

theorem atStage (stage : Stage) (hx : Looks x) : Looks (Run.atStage stage x) :=
  ⟨fun s => congrArg (Outcome.mapError (Error.atStage stage)) (hx.value s), hx.world,
    fun hfiles => congrArg (Outcome.mapError (Error.atStage stage)) (hx.files hfiles), hx.policies⟩

theorem backendAt (stage : Stage) (r : BackendResult α) :
    Looks (Run.backendAt stage r : Run σ α) :=
  atStage stage (ofOutcome _)

end Looks

theorem result_atStage (stage : Stage) (x : Run σ α) (w : World σ) :
    (atStage stage x).result w = Outcome.mapError (Error.atStage stage) (x.result w) := rfl

theorem result_backendAt (stage : Stage) (r : BackendResult α) (w : World σ) :
    (backendAt stage r : Run σ α).result w =
      Outcome.mapError (Error.atStage stage) (Outcome.mapError .backend r) := by
  rw [backendAt, result_atStage, ofBackend, result, run_ofOutcome]

/-- From states of this world the runs end with related values or with one fault, and leave one
world. -/
def Twins (w : World σ) (R : α → β → Prop) (x : Run σ α) (y : Run σ β) : Prop :=
  ∀ s t : RunState σ, s.world = w → t.world = w →
    Outcome.Related R (x.run.run s).1 (y.run.run t).1 ∧
      (x.run.run s).2.world = (y.run.run t).2.world

namespace Twins

variable {R : α → β → Prop} {S : γ → δ → Prop}

theorem of_looks (hx : Looks x) (hy : Looks y)
    (h : Outcome.Related R (x.result w) (y.result w)) : Twins w R x y := by
  intro s t hs ht
  rw [hx.value, hy.value, hx.world, hy.world, hs, ht]
  exact ⟨h, rfl⟩

/-- A run that only looks is a twin of itself. -/
theorem refl_of_looks (hx : Looks x) : Twins w (· = ·) x x := of_looks hx hx (.of_eq rfl)

theorem ofOutcome {o : Outcome Error α} {o' : Outcome Error β} (h : Outcome.Related R o o') :
    Twins w R (Run.ofOutcome o : Run σ α) (Run.ofOutcome o') := by
  intro s t hs ht
  rw [run_ofOutcome, run_ofOutcome]
  exact ⟨h, hs.trans ht.symm⟩

theorem backendAt (stage : Stage) {o : BackendResult α} {o' : BackendResult β}
    (h : Outcome.Related R o o') :
    Twins w R (Run.backendAt stage o : Run σ α) (Run.backendAt stage o') := by
  intro s t hs ht
  have hboth := ofOutcome (w := w) (h.mapError Error.backend) s t hs ht
  exact ⟨hboth.1.mapError (Error.atStage stage), hboth.2⟩

theorem pure {a : α} {b : β} (h : R a b) :
    Twins w R (Pure.pure a : Run σ α) (Pure.pure b : Run σ β) :=
  fun _ _ hs ht => ⟨.ok h, hs.trans ht.symm⟩

theorem bind {f : α → Run σ γ} {g : β → Run σ δ} (hx : Twins w R x y)
    (hf : ∀ w a b, R a b → Twins w S (f a) (g b)) : Twins w S (x >>= f) (y >>= g) := by
  intro s t hs ht
  obtain ⟨hvalue, hworld⟩ := hx s t hs ht
  rw [run_bind, run_bind]
  generalize x.run.run s = xs at hvalue hworld
  generalize y.run.run t = yt at hvalue hworld
  obtain ⟨_, s'⟩ := xs
  obtain ⟨_, t'⟩ := yt
  cases hvalue with
  | ok hab => exact hf _ _ _ hab s' t' hworld rfl
  | error why => exact ⟨.error why, hworld⟩

/-- The same steps after one value. -/
theorem bind_eq {x' : Run σ α} {f : α → Run σ γ} {g : α → Run σ δ} (hx : Twins w (· = ·) x x')
    (hf : ∀ w a, Twins w S (f a) (g a)) : Twins w S (x >>= f) (x' >>= g) :=
  hx.bind fun w a _ hab => hab ▸ hf w a

theorem atStage (stage : Stage) (hx : Twins w R x y) :
    Twins w R (Run.atStage stage x) (Run.atStage stage y) := by
  intro s t hs ht
  obtain ⟨hvalue, hworld⟩ := hx s t hs ht
  exact ⟨hvalue.mapError (Error.atStage stage), hworld⟩

theorem note (e e' : Event) :
    Twins w (fun _ _ => True) (Run.note e : Run σ Unit) (Run.note e') :=
  fun _ _ hs ht => ⟨.ok trivial, hs.trans ht.symm⟩

theorem moment : Twins w (· = ·) (Run.moment : Run σ Moment) Run.moment := by
  rintro ⟨_, _, _⟩ ⟨_, _, _⟩ rfl rfl
  exact ⟨.ok rfl, rfl⟩

theorem changeFiles (act : σ → Outcome FileError α × σ) :
    Twins w (· = ·) (Site.changeFiles act) (Site.changeFiles act) := by
  have hact : Twins w (· = ·)
      (Run.onWorld fun v : World σ => ((act v.files).1, { v with files := (act v.files).2 }))
      (Run.onWorld fun v : World σ => ((act v.files).1, { v with files := (act v.files).2 })) := by
    rintro ⟨_, _, _⟩ ⟨_, _, _⟩ rfl rfl
    exact ⟨.ok rfl, rfl⟩
  exact hact.bind_eq fun _ _ => refl_of_looks (.ofOutcome _)

/-- What the runs come to in the world itself. -/
theorem eq_of_start {x' : Run σ α} (h : Twins w (· = ·) x x') :
    x.result w = x'.result w ∧
      (x.run.run ⟨w, [], {}⟩).2.world = (x'.run.run ⟨w, [], {}⟩).2.world := by
  obtain ⟨hvalue, hworld⟩ := h ⟨w, [], {}⟩ ⟨w, [], {}⟩ rfl rfl
  exact ⟨hvalue.eq, hworld⟩

end Twins

/-- From this world the run ends with the fault, and leaves the world as it was. -/
def FailsIn (w : World σ) (fault : Fault Error) (x : Run σ α) : Prop :=
  ∃ t, x.run.run ⟨w, [], {}⟩ = (.error fault, t) ∧ t.world = w

namespace FailsIn

variable {fault : Fault Error}

theorem of_looks (hx : Looks x) (h : x.result w = .error fault) : FailsIn w fault x := by
  obtain ⟨t, hrun, hworld⟩ := hx.run_eq ⟨w, [], {}⟩
  exact ⟨t, by rw [hrun, h], hworld⟩

theorem bind (hx : FailsIn w fault x) (f : α → Run σ γ) : FailsIn w fault (x >>= f) := by
  obtain ⟨t, hrun, hworld⟩ := hx
  exact ⟨t, by rw [run_bind, hrun], hworld⟩

theorem map (f : α → γ) (hx : FailsIn w fault x) : FailsIn w fault (f <$> x) := by
  rw [map_eq_pure_bind]
  exact hx.bind _

end FailsIn
end Run

/-! ## Requests with another signing key -/

/-- The request, signed with the key that is named so. -/
def CertificateRequest.withKey (r : CertificateRequest) (key : Option Material)
    (passphrase : Option String) : CertificateRequest :=
  { r with signingPrivateKey := key, signingPrivateKeyPassphrase := passphrase }

def Draft.withKey (d : Draft) (key : Option Material) (passphrase : Option String) : Draft :=
  { d with request := d.request.withKey key passphrase }

/-- A draft takes over how its request names the key, and nothing else depends on that. -/
structure Backend.KeyBlind (b : Backend) : Prop where
  buildDraft : ∀ m artifact r subject signer key passphrase,
    b.buildDraft m artifact (r.withKey key passphrase) subject signer =
      (·.withKey key passphrase) <$> b.buildDraft m artifact r subject signer
  sign : ∀ m d key digest named passphrase,
    b.sign m (d.withKey named passphrase) key digest = b.sign m d key digest

theorem OpenSsh.keyBlind : Backend.ssh.KeyBlind where
  buildDraft m artifact r subject signer key passphrase := by
    show OpenSsh.buildDraft _ _ _ _ _ = _ <$> OpenSsh.buildDraft _ _ _ _ _
    simp only [OpenSsh.buildDraft, map_bind]
    rfl
  sign _ _ _ _ _ _ := rfl

theorem X509.keyBlind : Backend.x509.KeyBlind where
  buildDraft m artifact r subject signer key passphrase := by
    show X509.buildDraft _ _ _ _ _ = _ <$> X509.buildDraft _ _ _ _ _
    simp only [X509.buildDraft, map_bind]
    have hrevoked (now : Instant) :
        X509.revocationsOf (r.withKey key passphrase) now = X509.revocationsOf r now :=
      X509.revocationsFrom_congr rfl
    have hrender (k : X509.SubjectKey) :
        X509.render m artifact (r.withKey key passphrase) k subject.algorithm signer =
          X509.render m artifact r k subject.algorithm signer := by
      cases artifact with
      | certificate | csr => rfl
      | crl =>
        simp only [X509.render, hrevoked]
        rfl
    simp only [hrender]
    rfl
  sign _ d _ _ _ _ := by
    show X509.signDraft _ _ _ = X509.signDraft _ _ _
    rfl

theorem CertificateKind.keyBlind (k : CertificateKind) : k.backend.KeyBlind := by
  cases k with
  | x509 => exact X509.keyBlind
  | ssh => exact OpenSsh.keyBlind

/-! ## Looking at material -/

namespace Site

open Run (Looks Twins)

variable {σ : Type} {w : World σ} {s : Site σ} {r : CertificateRequest}

theorem run_read (path : String) (t : RunState σ) :
    (s.read path).run.run t =
      ((s.files.read t.world.files path).mapError .file,
        { t with journal := t.journal ++ [.read path] }) := by
  show (Run.ofOutcome _ : Run σ Bytes).run.run _ = _
  rw [Run.run_ofOutcome]

theorem looks_read (path : String) : Looks (s.read path) :=
  ⟨fun t => by rw [run_read, Run.result, run_read], fun t => by rw [run_read],
    fun hfiles => by rw [Run.result, Run.result, run_read, run_read, hfiles],
    fun t => by rw [run_read]⟩

theorem looks_material (stage : Stage) (m : Material) : Looks (s.material stage m) := by
  cases m with
  | inline b => exact .pure b
  | path path => exact (looks_read path).atStage stage

theorem looks_signingCertificate : Looks (s.signingCertificate r) := by
  unfold signingCertificate
  split
  · exact ((looks_material _ _).bind fun _ => .backendAt _ _).bind fun _ => .pure _
  · exact .pure none

/-- The key that a request signs with, as its signer loads it. -/
def signingKey (s : Site σ) (r : CertificateRequest) : Run σ (Option PrivateKey) :=
  match r.signingPrivateKey with
  | none => pure none
  | some m => do
    return some (← Run.backendAt .loadingSigningKey
      ((s.backend r.kind).loadPrivateKey (← s.material .loadingSigningKey m)
        r.signingPrivateKeyPassphrase))

theorem looks_signingKey : Looks (s.signingKey r) := by
  unfold signingKey
  split
  · exact .pure none
  · exact (looks_material _ _).bind fun _ => (Looks.backendAt _ _).bind fun _ => .pure _

theorem result_signingKey {m : Material} (h : r.signingPrivateKey = some m) (w : World σ) :
    (s.signingKey r).result w =
      (s.material .loadingSigningKey m).result w >>= fun b =>
        some <$> Outcome.mapError (Error.atStage .loadingSigningKey) (Outcome.mapError .backend
          ((s.backend r.kind).loadPrivateKey b r.signingPrivateKeyPassphrase)) := by
  have hload (b : Bytes) : Looks (do
      return some (← Run.backendAt .loadingSigningKey
        ((s.backend r.kind).loadPrivateKey b r.signingPrivateKeyPassphrase)) :
          Run σ (Option PrivateKey)) :=
    (Looks.backendAt _ _).bind fun _ => .pure _
  unfold signingKey
  rw [h]
  refine ((looks_material _ m).result_bind hload w).trans (bind_congr fun b => ?_)
  rw [(Looks.backendAt _ _).result_bind fun _ => .pure _, Run.result_backendAt, map_eq_pure_bind]
  rfl

/-- The signer of a request, from its key on. -/
def signerOf (s : Site σ) (r : CertificateRequest) :
    Option PrivateKey → Run σ (Option SigningMaterial)
  | none => pure none
  | some key => do
    let publicKey ← Run.backendAt .derivingPublicKey ((s.backend r.kind).derivePublicKey key)
    return some ⟨key, publicKey, ← s.signingCertificate r⟩

theorem signer_eq : s.signer r = s.signingKey r >>= s.signerOf r := by
  unfold signer signingKey
  cases r.signingPrivateKey with
  | none => rfl
  | some m =>
    simp only [bind_assoc, pure_bind]
    rfl

theorem looks_signerOf (key : Option PrivateKey) : Looks (s.signerOf r key) := by
  cases key with
  | none => exact .pure none
  | some key =>
    exact (Looks.backendAt _ _).bind fun _ => looks_signingCertificate.bind fun _ => .pure _

theorem looks_signer : Looks (s.signer r) := by
  rw [signer_eq]
  exact looks_signingKey.bind looks_signerOf

theorem looks_signerIdentity : Looks (s.signerIdentity r) := by
  refine looks_signingCertificate.bind fun certificate => ?_
  split
  · exact (looks_material _ _).bind fun _ => (Looks.backendAt _ _).bind fun _ => .pure _
  · exact .pure _

/-- A request whose key does not load has no signer. -/
theorem failsIn_signer {fault : Fault Error} (h : (s.signingKey r).result w = .error fault) :
    Run.FailsIn w fault (s.signer r) := by
  rw [signer_eq]
  exact (Run.FailsIn.of_looks looks_signingKey h).bind _

theorem looks_subjectKey (authority : PublicKey) : Looks (s.subjectKey r authority) := by
  unfold subjectKey
  split
  · exact (looks_material _ _).bind fun _ => (Looks.backendAt _ _).bind fun _ => .pure _
  · exact (looks_material _ _).bind fun _ => (Looks.backendAt _ _).bind fun _ =>
      (Looks.backendAt _ _).bind fun _ => .pure _
  · exact (looks_material _ _).bind fun _ => (Looks.backendAt _ _).bind fun _ => .pure _
  · exact .pure _

/-! ## Issuing -/

variable {key : Option Material} {passphrase : Option String}

theorem twins_signer
    (hkey : (s.signingKey r).result w = (s.signingKey (r.withKey key passphrase)).result w) :
    Twins w (· = ·) (s.signer r) (s.signer (r.withKey key passphrase)) := by
  rw [signer_eq, signer_eq]
  refine (Twins.of_looks looks_signingKey looks_signingKey (.of_eq hkey)).bind_eq fun _ found => ?_
  have hsame : s.signerOf (r.withKey key passphrase) found = s.signerOf r found := by
    cases found <;> rfl
  rw [hsame]
  exact .refl_of_looks (looks_signerOf found)

theorem twins_encodePlain (stage : Stage) (kind : CertificateKind) (c : Certificate) :
    Twins w (· = ·) (s.encodePlain stage kind c) (s.encodePlain stage kind c) :=
  Twins.moment.bind_eq fun _ _ => .refl_of_looks (.backendAt _ _)

theorem twins_writeCopy (kind : CertificateKind) (dir : String) (c : Certificate)
    (prependCn : Bool) :
    Twins w (· = ·) (s.writeCopy kind dir c prependCn) (s.writeCopy kind dir c prependCn) := by
  dsimp only [writeCopy]
  split
  · refine (twins_encodePlain _ _ _).bind_eq fun _ data => ?_
    refine Twins.bind_eq ?_ fun _ _ => .pure rfl
    exact Twins.atStage _ ((Twins.note _ _).bind fun _ _ _ _ => Twins.changeFiles _)
  · exact .refl_of_looks (.ofOutcome _)

theorem twins_keepCopy (c : Certificate) :
    Twins w (· = ·) (s.keepCopy r c) (s.keepCopy (r.withKey key passphrase) c) := by
  show Twins w (· = ·) (s.keepCopy r c) (s.keepCopy r c)
  unfold keepCopy
  split
  · exact .pure rfl
  · exact (twins_writeCopy _ _ _ _).bind_eq fun _ _ => .pure rfl

section

variable (hs : ∀ kind, (s.backend kind).KeyBlind)
include hs

theorem twins_draft (artifact : ArtifactKind) (subject : PublicKey) (signer : SignerIdentity) :
    Twins w (fun d d' => d' = d.withKey key passphrase) (s.draft artifact r subject signer)
      (s.draft artifact (r.withKey key passphrase) subject signer) := by
  refine Twins.moment.bind_eq fun _ m => Twins.backendAt _ ?_
  rw [(hs _).buildDraft]
  exact .map_right _ _

theorem twins_signCertificate (d : Draft) (k : PrivateKey) :
    Twins w (· = ·) (s.signCertificate d k) (s.signCertificate (d.withKey key passphrase) k) := by
  refine Twins.bind_eq ?_ fun _ c => (twins_keepCopy c).bind_eq fun _ _ => .pure rfl
  refine (Twins.note _ _).bind fun _ _ _ _ => Twins.moment.bind_eq fun _ m => Twins.backendAt _ ?_
  exact .of_eq ((hs _).sign _ _ _ _ _ _).symm

/-- Issuing with the same key goes the same way, however the key is named. -/
theorem twins_issue
    (hkey : (s.signingKey r).result w = (s.signingKey (r.withKey key passphrase)).result w) :
    Twins w (· = ·) (s.issue r) (s.issue (r.withKey key passphrase)) := by
  refine Twins.bind_eq ?_ fun _ signing => ?_
  · exact (twins_signer hkey).bind_eq fun _ _ => .refl_of_looks (.ofOutcome _)
  · refine (Twins.refl_of_looks (looks_subjectKey _)).bind_eq fun _ subject => ?_
    refine (twins_draft hs _ _ _).bind fun _ d d' hd => ?_
    rw [hd]
    exact twins_signCertificate hs d _

end

end Site
end CertAuthority
