import CertAuthority.Managed.Certificate
import CertAuthority.Proofs.Certificate.Drafts
import CertAuthority.Proofs.Issue.Steps

/-!
# What a run for a certificate decides on

A run for a certificate first finds out what is wanted and what is there. That changes no file.
Then it decides, and acts on the decision.

* `Node.Plan`, `Node.plan` : what is found out;
* `Node.carryOut` : the rest of the run, and `certificate_eq` : the run is these two;
* `Node.of_plan` : what is known of a plan;
* `carryOut_of_keep`, `of_carryOut_of_issue`, `issued_of_carryOut` : what comes of the decision.
-/

namespace CertAuthority

open Run (Looks Keeps bind_eq_ok_iff backendAt_eq_ok_iff pure_eq_ok_iff
  atStage_eq_ok_iff note_eq_ok_iff ofOutcome_eq_ok_iff)

/-! ## Looking -/

namespace Site

variable {σ : Type} {s : Site σ}

theorem looks_has (path : String) : Looks (s.has path) :=
  ⟨fun _ => rfl, fun _ => rfl, fun h => congrArg (fun files => Except.ok (s.files.has files path)) h,
    fun _ => rfl⟩

theorem looks_isLink (path : String) : Looks (s.isLink path) :=
  ⟨fun _ => rfl, fun _ => rfl,
    fun h => congrArg (fun files => Except.ok (s.files.isLink files path)) h, fun _ => rfl⟩

theorem looks_existing (path : String) (parse : Bytes → BackendResult LoadedArtifact) :
    Looks (s.existing path parse) := by
  refine (looks_has path).bind fun there => ?_
  split
  · exact .pure _
  · refine ((looks_read path).atStage _).bind fun data => ?_
    split
    · exact .pure _
    · exact .pure _
    · exact .ofOutcome _

section

variable {path : String} {parse : Bytes → BackendResult LoadedArtifact} {w : World σ}
  {data : Bytes} {a : LoadedArtifact}

theorem existing_of_missing (h : s.files.has w.files path = false) :
    (s.existing path parse).result w = .ok .missing := by
  have hrun : (s.existing path parse).run.run ⟨w, [], {}⟩ = (.ok .missing, ⟨w, [], {}⟩) := by
    simp only [existing, has, Run.bind_eq_ok_iff, Run.pure_eq_ok_iff]
    exact ⟨false, _, ⟨_, _, rfl, h, rfl⟩, rfl⟩
  exact congrArg Prod.fst hrun

theorem existing_of_loads (h : s.files.has w.files path = true)
    (hread : s.files.read w.files path = .ok data) (hparse : parse data = .ok a) :
    (s.existing path parse).result w = .ok (.loaded a) := by
  have hrun : (s.existing path parse).run.run ⟨w, [], {}⟩ =
      (.ok (.loaded a), ⟨w, [.read path], {}⟩) := by
    have hfound : (s.read path).run.run ⟨w, [], {}⟩ = (.ok data, ⟨w, [.read path], {}⟩) := by
      rw [run_read, hread]
      rfl
    simp only [existing, has, Run.bind_eq_ok_iff, Run.pure_eq_ok_iff]
    refine ⟨true, _, ⟨_, _, rfl, h, rfl⟩, ?_⟩
    rw [if_neg (by decide), Run.bind_eq_ok_iff]
    refine ⟨data, _, Run.atStage_eq_ok_iff.2 hfound, ?_⟩
    rw [hparse]
    rfl
  exact congrArg Prod.fst hrun

end

theorem looks_chain (r : CertificateRequest) : Looks (s.chain r) := by
  refine (Looks.mapM (fun m => ?_) r.appendCerts).bind fun _ => .pure _
  exact ((looks_material _ m).bind fun _ => .backendAt _ _).bind fun _ => .pure _

theorem looks_guardLink (t : Target) : Looks (s.guardLink t) := by
  refine (looks_isLink _).bind fun _ => ?_
  split
  · exact .ofOutcome _
  · exact .pure _

/-! ## Acting -/

/-- Writes what `make` gives to the target, unless that is only to be reported. -/
def write {χ α : Type} (s : Site σ) (t : Target) (report : Report χ α) (make : Run σ α)
    (encode : α → Run σ Bytes) : Run σ (Report χ α) := do
  s.guardLink t
  if t.dryRun then return report
  let a ← make
  let backup ← s.overwrite t (← encode a) report.reason
  return { report with written := true, backup, held := some a }

section

variable {χ α : Type} {t : Target} {same : χ} {d : Decision χ α} {issue make : Run σ α}
  {encode : α → Run σ Bytes} {report report' : Report χ α} {u v : RunState σ}

theorem settle_eq : s.settle t same d issue encode =
    let report : Report χ α :=
      { path := t.path, action := d.action, reason := d.reason?, changes := d.changes same }
    match d with
    | .keep a => pure { report with held := some a }
    | .reEncode a _ => s.write t report (pure a) encode
    | .issue _ _ => s.write t report issue encode := by
  cases d <;> rfl

theorem of_write (h : (s.write t report make encode).run.run u = (.ok report', v)) :
    report'.action = report.action ∧ report'.reason = report.reason ∧
      report'.changes = report.changes ∧ ∀ a, report'.held = some a → report.held = none →
        ∃ u' v', u'.world = u.world ∧ make.run.run u' = (.ok a, v') := by
  simp only [write, bind_eq_ok_iff] at h
  obtain ⟨_, u', hlink, h⟩ := h
  have hworld := ((looks_guardLink t).of_eq_ok hlink).2
  split at h
  · cases h
    refine ⟨rfl, rfl, rfl, fun a ha hnone => ?_⟩
    rw [hnone] at ha
    cases ha
  · simp only [bind_eq_ok_iff, pure_eq_ok_iff] at h
    obtain ⟨a, v', hmake, _, _, -, _, _, -, rfl, rfl⟩ := h
    refine ⟨rfl, rfl, rfl, fun _ ha _ => ?_⟩
    obtain rfl := Option.some.inj ha
    exact ⟨u', v', hworld, hmake⟩

/-- The decision is reported as it was made, and an artifact that was issued comes from a run. -/
theorem of_settle (h : (s.settle t same d issue encode).run.run u = (.ok report, v)) :
    report.action = d.action ∧ report.reason = d.reason? ∧ report.changes = d.changes same ∧
      ∀ a, report.action = .issue → report.held = some a →
        ∃ u' v', u'.world = u.world ∧ issue.run.run u' = (.ok a, v') := by
  rw [settle_eq] at h
  cases d with
  | keep a =>
    cases h
    exact ⟨rfl, rfl, rfl, nofun⟩
  | reEncode a changes =>
    obtain ⟨haction, hreason, hchanges, -⟩ := of_write h
    refine ⟨haction, hreason, hchanges, fun _ hissue => ?_⟩
    rw [haction] at hissue
    cases hissue
  | issue reason changes =>
    obtain ⟨haction, hreason, hchanges, hmake⟩ := of_write h
    exact ⟨haction, hreason, hchanges, fun a _ ha => hmake a ha rfl⟩

theorem exists_overwrite (why : Option Reason) {data : Bytes} {files : σ}
    (hbackup : t.backup = false)
    (hwrite : s.files.replace u.world.files t.path data t.mode = (.ok (), files)) :
    ∃ v, (s.overwrite t data why).run.run u = (.ok none, v) ∧ v.world.files = files ∧
      v.world.now = u.world.now := by
  let after : RunState σ :=
    { u with
      world := { u.world with files }, journal := u.journal ++ [.replace t.path data t.mode] }
  have hrun : (s.replace t.path data t.mode).run.run u = (.ok (), after) := by
    simp only [replace, changeFiles, bind_eq_ok_iff, note_eq_ok_iff, ofOutcome_eq_ok_iff]
    refine ⟨(), _, rfl, .ok (), after, ?_, rfl, rfl⟩
    show (Except.ok (s.files.replace u.world.files t.path data t.mode).1,
      { u with
        world := { u.world with
          files := (s.files.replace u.world.files t.path data t.mode).2 }
        journal := u.journal ++ [Event.replace t.path data t.mode] }) = _
    rw [hwrite]
  refine ⟨after, ?_, rfl, rfl⟩
  simp only [overwrite, hbackup, Bool.false_and, if_neg Bool.false_ne_true, bind_eq_ok_iff,
    atStage_eq_ok_iff, pure_eq_ok_iff]
  exact ⟨none, u, ⟨rfl, rfl⟩, (), after, hrun, rfl, rfl⟩

/-- What can be made, encoded and written is in its place afterwards. -/
theorem exists_write {a : α} {data : Bytes} {files : σ}
    (hplain : t.backup = false ∧ t.dryRun = false)
    (hlink : s.files.isLink u.world.files t.path = false)
    (hmake : ∃ v, make.run.run u = (.ok a, v) ∧ v.world.files = u.world.files ∧
      v.world.now = u.world.now)
    (hencode : ∀ v : RunState σ, ∃ v', (encode a).run.run v = (.ok data, v') ∧
      v'.world.files = v.world.files ∧ v'.world.now = v.world.now)
    (hwrite : s.files.replace u.world.files t.path data t.mode = (.ok (), files)) :
    ∃ v, (s.write t report make encode).run.run u =
        (.ok { report with written := true, backup := none, held := some a }, v) ∧
      v.world.files = files ∧ v.world.now = u.world.now := by
  obtain ⟨v, hmake, hfiles, hnow⟩ := hmake
  obtain ⟨v', hencode, hfiles', hnow'⟩ := hencode v
  have hguard : (s.guardLink t).run.run u = (.ok (), u) := by
    simp only [guardLink, isLink, bind_eq_ok_iff, pure_eq_ok_iff]
    exact ⟨_, u, ⟨u, u, rfl, rfl, rfl⟩, by rw [hlink, Bool.and_false]; rfl⟩
  rw [← hfiles, ← hfiles'] at hwrite
  obtain ⟨w, hwritten, hfiles'', hnow''⟩ := exists_overwrite report.reason hplain.1 hwrite
  refine ⟨w, ?_, hfiles'', hnow''.trans (hnow'.trans hnow)⟩
  simp only [write, hplain.2, bind_eq_ok_iff, if_neg Bool.false_ne_true, pure_eq_ok_iff]
  exact ⟨(), u, hguard, a, v, hmake, data, v', hencode, none, w, hwritten, rfl, rfl⟩

end

/-! ## What is kept -/

section

variable {γ χ α : Type} {P : Event → Prop} {see : σ → PolicyCache → γ} {t : Target} {same : χ}
  {d : Decision χ α} {issue make : Run σ α} {encode : α → Run σ Bytes} {report : Report χ α}

theorem keeps_existing (hread : ∀ path, P (.read path)) (path : String)
    (parse : Bytes → BackendResult LoadedArtifact) : Keeps P see (s.existing path parse) := by
  refine (keeps_has path).bind fun there => ?_
  split
  · exact .pure _
  · refine ((keeps_read hread path).atStage _).bind fun data => ?_
    split
    · exact .pure _
    · exact .pure _
    · exact .ofOutcome _

theorem keeps_guardLink (t : Target) : Keeps P see (s.guardLink t) := by
  refine (keeps_isLink _).bind fun _ => ?_
  split
  · exact .ofOutcome _
  · exact .pure _

/-- What is allowed in writing to a target. -/
structure MayWrite (s : Site σ) (P : Event → Prop) (see : σ → PolicyCache → γ) (path : String) :
    Prop where
  replace : s.files.Spares P see path
  backUp : P (.backUp path) ∧ ∀ files known, see (s.files.backUp files path).2 known =
    see files known

theorem keeps_backUp {path : String} (h : P (.backUp path) ∧ ∀ files known,
    see (s.files.backUp files path).2 known = see files known) : Keeps P see (s.backUp path) :=
  (Keeps.note h.1).bind fun _ => keeps_changeFiles h.2

theorem keeps_overwrite (h : s.MayWrite P see t.path) (data : Bytes) (why : Option Reason) :
    Keeps P see (s.overwrite t data why) := by
  have hreplace : Keeps P see (Run.atStage .writingArtifact (s.replace t.path data t.mode)) :=
    .atStage _ (keeps_replace h.replace _ _)
  unfold overwrite
  split
  · exact ((keeps_backUp h.backUp).atStage _).bind fun _ => hreplace.bind fun _ => .pure _
  · exact hreplace.bind fun _ => .pure _

theorem keeps_settle (h : s.MayWrite P see t.path) (hissue : Keeps P see issue)
    (hencode : ∀ a, Keeps P see (encode a)) : Keeps P see (s.settle t same d issue encode) := by
  have hwrite {make : Run σ α} (hmake : Keeps P see make) (report : Report χ α) :
      Keeps P see (s.write t report make encode) := by
    refine (keeps_guardLink t).bind fun _ => ?_
    split
    · exact .pure _
    · exact hmake.bind fun a => (hencode a).bind fun _ =>
        (keeps_overwrite h _ _).bind fun _ => .pure _
  rw [settle_eq]
  cases d with
  | keep a => exact .pure _
  | reEncode a changes => exact hwrite (.pure a) _
  | issue reason changes => exact hwrite hissue _

end

end Site

/-! ## Asking -/

/-- The envelope that asks for the description of a policy. -/
def PolicyKey.inquiry (k : PolicyKey) : RequestEnvelope where
  policyName := k.policy
  request := .new k.kind
  policyOnly := true

namespace Channel

variable {σ γ : Type} {P : Event → Prop} {see : σ → PolicyCache → γ} {c : Channel σ}
  {peer policy : String}

/-- A call that is allowed, and makes no difference to what is seen. -/
def Spares (c : Channel σ) (P : Event → Prop) (see : σ → PolicyCache → γ) (peer : String)
    (e : RequestEnvelope) : Prop :=
  P (.ask peer signProcedure e.toJson) ∧
    ∀ w known, see ((c peer signProcedure e.toJson).run w).2.files known = see w.files known

theorem keeps_request {e : RequestEnvelope} (h : c.Spares P see peer e) :
    Keeps P see (c.request peer e) :=
  (Keeps.note h.1).bind fun _ => (Keeps.onWorld h.2).bind fun _ => (Keeps.ofOutcome _).bind
    fun _ => .ofOutcome _

theorem keeps_sign {r : CertificateRequest}
    (h : c.Spares P see peer { policyName := policy, request := r.forRemote }) :
    Keeps P see (c.sign peer policy r) := by
  refine (keeps_request h).bind fun reply => ?_
  split
  · exact .pure _
  · exact .ofOutcome _

theorem keeps_policy {k : PolicyKey} (h : c.Spares P see k.peer k.inquiry) :
    Keeps P see (c.policy k) := by
  refine (keeps_request h).bind fun reply => ?_
  split
  · exact .pure _
  · exact .ofOutcome _

end Channel

namespace Node

variable {σ : Type}

/-- What a run knows before it decides. -/
structure Plan where
  request : CertificateRequest
  signer : Signer
  subject : SubjectKey
  existing : Existing
  desired : Desired

def plan (n : Node σ) (spec : CertificateSpec) : Run σ Plan := do
  let (request, signer) ← n.resolve spec
  let subject ← n.subjectFor request signer
  let existing ← n.site.existing spec.target.path
    ((n.site.backend request.kind).loadAs .certificate · request.pkcs12Passphrase)
  let draft ← n.site.draft .certificate request subject.publicKey signer.identity
  let chain ← n.site.chain request
  let desired : Desired :=
    { draft, encoding := request.encoding, chain
      friendlyName := request.pkcs12FriendlyName
      passphrase := request.pkcs12Passphrase }
  return { request, signer, subject, existing, desired }

/-- Remaining validity to renew at. -/
def thresholdFor (n : Node σ) (spec : CertificateSpec) (p : Plan) : Span :=
  spec.threshold.getD (n.config.renewalThreshold p.request.kind p.request.certType)

def carryOut (n : Node σ) (spec : CertificateSpec) (p : Plan) :
    Run σ (Report ChangeSet Certificate) :=
  n.settle spec.target p.existing p.desired (n.thresholdFor spec p)
    (if p.request.encoding = .pkcs12 then p.subject.privateKey else none)
    (n.issueFor spec.request p.desired.draft p.signer p.subject.publicKey)

theorem certificate_eq (n : Node σ) (spec : CertificateSpec) :
    n.certificate spec = n.plan spec >>= n.carryOut spec := by
  simp only [certificate, plan, bind_assoc, pure_bind]
  rfl

variable {n : Node σ} {spec : CertificateSpec} {p : Plan} {s t u v : RunState σ}

theorem subjectFor_peer (r : CertificateRequest) (name policy : String)
    (identity : SignerIdentity) :
    n.subjectFor r (.peer name policy identity) =
      if (r.publicKey.isNone && r.privateKey.isNone && r.csr.isNone) = true then
        (Run.fail noSubjectKey : Run σ Unit) >>= fun _ => n.site.subjectKey r identity.publicKey
      else n.site.subjectKey r identity.publicKey := rfl

theorem looks_subjectFor (r : CertificateRequest) (signer : Signer) :
    Looks (n.subjectFor r signer) := by
  cases signer with
  | here m => exact Site.looks_subjectKey _
  | peer name policy identity =>
    rw [subjectFor_peer]
    split
    · exact Looks.bind (.ofOutcome _) fun _ => Site.looks_subjectKey _
    · exact Site.looks_subjectKey _

theorem keeps_subjectFor {γ : Type} {P : Event → Prop} {see : σ → PolicyCache → γ}
    (hread : ∀ path, P (.read path)) (r : CertificateRequest) (signer : Signer) :
    Keeps P see (n.subjectFor r signer) := by
  cases signer with
  | here m => exact Site.keeps_subjectKey hread _
  | peer name policy identity =>
    rw [subjectFor_peer]
    split
    · exact (Keeps.ofOutcome _).bind fun _ => Site.keeps_subjectKey hread _
    · exact Site.keeps_subjectKey hread _

/-- Having a peer sign asks it once, for the key as it is encoded. -/
theorem keeps_issueRemote {γ : Type} {P : Event → Prop} {see : σ → PolicyCache → γ}
    {r : CertificateRequest} {subject : PublicKey} {peer policy : String}
    (hask : ∀ c ∈ n.channel, ∀ data,
      (n.site.backend r.kind).encodePublicKey subject = .ok data →
        c.Spares P see peer
          { policyName := policy
            request := { r with publicKey := some (.inline data), csr := none }.forRemote })
    (hcopy : ∀ dir ∈ r.copypath, ∀ name, Path.isPlain name = true →
      n.site.files.Spares P see (Path.join dir name)) :
    Keeps P see (n.issueRemote peer policy r subject) := by
  refine Keeps.ofOption_bind fun channel hchannel => Keeps.backendAt_bind fun data hencode => ?_
  let asked : CertificateRequest := { r with publicKey := some (.inline data), csr := none }
  have hsign : Keeps P see (channel.sign peer policy asked) :=
    channel.keeps_sign (hask channel hchannel data hencode)
  exact (hsign.atStage _).bind fun _ => (Keeps.backendAt _ _).bind fun _ =>
    (Site.keeps_keepCopy hcopy _).bind fun _ => .pure _

/-- What a plan was made from, once the request was resolved. -/
structure Plans (n : Node σ) (p : Plan) (w : World σ) : Prop where
  subject : (n.subjectFor p.request p.signer).result w = .ok p.subject
  draft : ∃ m : Moment, m.now = w.now ∧ (n.site.backend p.request.kind).buildDraft m .certificate
    p.request p.subject.publicKey p.signer.identity = .ok p.desired.draft

theorem of_plan (h : (n.plan spec).run.run s = (.ok p, u)) :
    ∃ t, (n.resolve spec).run.run s = (.ok (p.request, p.signer), t) ∧ n.Plans p t.world ∧
      u.world.files = t.world.files ∧ u.world.now = t.world.now ∧ u.policies = t.policies := by
  simp only [plan, bind_eq_ok_iff, pure_eq_ok_iff] at h
  obtain ⟨⟨r, signer⟩, t, hresolve, subject, t₁, hsubject, existing, t₂, hexisting, d, t₃, hdraft,
    chain, t₄, hchain, rfl, rfl⟩ := h
  obtain ⟨hkey, hworld₁⟩ := (looks_subjectFor r signer).of_eq_ok hsubject
  obtain ⟨-, hworld₂⟩ := (Site.looks_existing _ _).of_eq_ok hexisting
  obtain ⟨-, hworld₄⟩ := (Site.looks_chain r).of_eq_ok hchain
  have hbefore : t₂.world = t.world := hworld₂.trans hworld₁
  simp only [Site.draft, bind_eq_ok_iff, backendAt_eq_ok_iff] at hdraft
  obtain ⟨m, t₃, hmoment, hdraft, rfl⟩ := hdraft
  obtain ⟨hnow, hfiles₃, hnow₃⟩ := Run.of_moment hmoment
  rw [hbefore] at hnow hfiles₃ hnow₃
  have hpolicies : t₄.policies = t.policies :=
    calc t₄.policies = t₃.policies := (Site.looks_chain r).policies_eq hchain
      _ = t₂.policies := Run.policies_of_moment hmoment
      _ = t₁.policies := (Site.looks_existing _ _).policies_eq hexisting
      _ = t.policies := (looks_subjectFor r signer).policies_eq hsubject
  refine ⟨t, hresolve, ⟨hkey, m, hnow, hdraft⟩, ?_, ?_, hpolicies⟩
  · rw [hworld₄, hfiles₃]
  · rw [hworld₄, hnow₃]

/-- A plan is made where what it needs can be found, and drafted at whatever moment of that time. -/
theorem exists_plan {r : CertificateRequest} {signer : Signer} {subject : SubjectKey}
    {existing : Existing} {chain : List Certificate} {d : Draft}
    (hresolve : (n.resolve spec).run.run s = (.ok (r, signer), t))
    (hsubject : (n.subjectFor r signer).result t.world = .ok subject)
    (hexisting : (n.site.existing spec.target.path
      ((n.site.backend r.kind).loadAs .certificate · r.pkcs12Passphrase)).result t.world =
        .ok existing)
    (hdraft : ∀ m : Moment, m.now = t.world.now → (n.site.backend r.kind).buildDraft m .certificate
      r subject.publicKey signer.identity = .ok d)
    (hchain : ∀ w : World σ, w.files = t.world.files → (n.site.chain r).result w = .ok chain) :
    let desired : Desired :=
      { draft := d, encoding := r.encoding, chain
        friendlyName := r.pkcs12FriendlyName, passphrase := r.pkcs12Passphrase }
    ∃ u, (n.plan spec).run.run s = (.ok ⟨r, signer, subject, existing, desired⟩, u) ∧
      u.world.files = t.world.files ∧ u.world.now = t.world.now ∧ u.policies = t.policies := by
  intro desired
  obtain ⟨t₁, hrun₁, hworld₁⟩ := (looks_subjectFor r signer).run_eq t
  rw [hsubject] at hrun₁
  obtain ⟨t₂, hrun₂, hworld₂⟩ := (Site.looks_existing (s := n.site) spec.target.path
    ((n.site.backend r.kind).loadAs .certificate · r.pkcs12Passphrase)).run_eq t₁
  rw [hworld₁, hexisting] at hrun₂
  obtain ⟨m, t₃, hmoment, hnow, hfiles₃, hnow₃⟩ := Run.exists_moment t₂
  rw [hworld₂, hworld₁] at hnow hfiles₃ hnow₃
  obtain ⟨t₄, hrun₄, hworld₄⟩ := (Site.looks_chain (s := n.site) r).run_eq t₃
  rw [hchain _ hfiles₃] at hrun₄
  have hplan : (n.plan spec).run.run s = (.ok ⟨r, signer, subject, existing, desired⟩, t₄) := by
    simp only [plan, Site.draft, bind_eq_ok_iff, backendAt_eq_ok_iff, pure_eq_ok_iff]
    exact ⟨(r, signer), t, hresolve, subject, t₁, hrun₁, existing, t₂, hrun₂, d, t₃,
      ⟨m, t₃, hmoment, hdraft m hnow, rfl⟩, chain, t₄, hrun₄, rfl, rfl⟩
  obtain ⟨t', hresolve', -, -, -, hpolicies⟩ := of_plan hplan
  obtain ⟨-, rfl⟩ := Run.ok_inj hresolve hresolve'
  refine ⟨t₄, hplan, ?_, ?_, hpolicies⟩
  · rw [hworld₄, hfiles₃]
  · rw [hworld₄, hnow₃]

/-! ## Decisions -/

def decideOn (n : Node σ) (spec : CertificateSpec) (p : Plan) (now : Instant) :
    BackendResult (Decision ChangeSet Certificate) :=
  p.existing.decide (n.site.backend p.desired.draft.request.kind) p.desired now
    (n.thresholdFor spec p)

/-- The bytes of a certificate in the container that is wanted. -/
def encodeAs (n : Node σ) (p : Plan) (c : Certificate) : Run σ Bytes :=
  n.site.encode .encoding p.desired.draft.request.kind c p.desired.encoding
    { chain := p.desired.chain
      embedKey := if p.request.encoding = .pkcs12 then p.subject.privateKey else none
      passphrase := p.desired.passphrase
      friendlyName := p.desired.friendlyName }

theorem run_carryOut (n : Node σ) (spec : CertificateSpec) (p : Plan) (u : RunState σ) :
    (n.carryOut spec p).run.run u =
      (Run.ofBackend (n.decideOn spec p u.world.now) >>= fun decision =>
        n.site.settle spec.target {} decision
          (n.issueFor spec.request p.desired.draft p.signer p.subject.publicKey)
          (n.encodeAs p)).run.run u := by
  have hworld : (get : Run σ (RunState σ)).run.run u = (.ok u, u) := rfl
  unfold carryOut settle Node.decide
  rw [bind_assoc, Run.run_bind, hworld]
  rfl

theorem carryOut_of_keep {c : Certificate}
    (hdecide : n.decideOn spec p u.world.now = .ok (.keep c)) :
    (n.carryOut spec p).run.run u =
      (.ok { path := spec.target.path, action := .noOp, reason := none, changes := {}
             held := some c }, u) := by
  rw [run_carryOut, hdecide]
  rfl

/-- A report tells the decision, and a certificate that was issued comes from issuing it. -/
theorem of_carryOut {report : Report ChangeSet Certificate}
    (h : (n.carryOut spec p).run.run u = (.ok report, v)) :
    ∃ decision, n.decideOn spec p u.world.now = .ok decision ∧
      report.action = decision.action ∧ report.reason = decision.reason? ∧
      report.changes = decision.changes {} ∧
      ∀ c, report.action = .issue → report.held = some c → ∃ u' v', u'.world = u.world ∧
        (n.issueFor spec.request p.desired.draft p.signer p.subject.publicKey).run.run u' =
          (.ok c, v') := by
  rw [run_carryOut, bind_eq_ok_iff] at h
  obtain ⟨decision, _, hdecide, hsettle⟩ := h
  rw [Run.ofBackend, Run.ofOutcome_eq_ok_iff, Outcome.mapError_eq_ok_iff] at hdecide
  obtain ⟨hdecide, rfl⟩ := hdecide
  exact ⟨decision, hdecide, Site.of_settle hsettle⟩

/-- The certificate can be written to the target in the container that is wanted. -/
structure CanWrite (n : Node σ) (spec : CertificateSpec) (p : Plan) (u : RunState σ)
    (c : Certificate) (files : σ) : Prop where
  plain : spec.target.backup = false ∧ spec.target.dryRun = false
  free : n.site.files.isLink u.world.files spec.target.path = false
  written : ∃ data,
    (∀ m, (n.site.backend p.desired.draft.request.kind).encode m c p.desired.encoding
      { chain := p.desired.chain
        embedKey := if p.request.encoding = .pkcs12 then p.subject.privateKey else none
        passphrase := p.desired.passphrase
        friendlyName := p.desired.friendlyName } = .ok data) ∧
    n.site.files.replace u.world.files spec.target.path data spec.target.mode = (.ok (), files)

theorem CanWrite.exists_write {c : Certificate} {files : σ} {make : Run σ Certificate}
    {report : Report ChangeSet Certificate} (h : n.CanWrite spec p u c files)
    (hmake : ∃ v, make.run.run u = (.ok c, v) ∧ v.world.files = u.world.files ∧
      v.world.now = u.world.now) :
    ∃ v, (n.site.write spec.target report make (n.encodeAs p)).run.run u =
        (.ok { report with written := true, backup := none, held := some c }, v) ∧
      v.world.files = files ∧ v.world.now = u.world.now := by
  obtain ⟨data, hencode, hwrite⟩ := h.written
  refine Site.exists_write h.plain h.free hmake (fun v => ?_) hwrite
  obtain ⟨m, v', hmoment, -, hfiles, hnow⟩ := Run.exists_moment v
  refine ⟨v', ?_, hfiles, hnow⟩
  simp only [encodeAs, Site.encode, bind_eq_ok_iff, backendAt_eq_ok_iff]
  exact ⟨m, v', hmoment, hencode m, rfl⟩

/-- What is to be issued, can be, and can be written, is in its place afterwards. -/
theorem exists_carryOut_of_issue {reason : Reason} {changes : ChangeSet} {c : Certificate}
    {files : σ} (hdecide : n.decideOn spec p u.world.now = .ok (.issue reason changes))
    (hwrite : n.CanWrite spec p u c files)
    (hissue : ∃ v, (n.issueFor spec.request p.desired.draft p.signer
      p.subject.publicKey).run.run u = (.ok c, v) ∧ v.world.files = u.world.files ∧
        v.world.now = u.world.now) :
    ∃ v, (n.carryOut spec p).run.run u =
        (.ok { path := spec.target.path, action := .issue, reason := some reason, changes
               written := true, held := some c }, v) ∧
      v.world.files = files ∧ v.world.now = u.world.now := by
  obtain ⟨v, hwritten, hafter⟩ := hwrite.exists_write hissue
  refine ⟨v, ?_, hafter⟩
  rw [run_carryOut, hdecide, bind_eq_ok_iff]
  refine ⟨_, u, rfl, ?_⟩
  rw [Site.settle_eq]
  exact hwritten

/-- What is to be encoded again, can be, and can be written, is in its place afterwards. -/
theorem exists_carryOut_of_reEncode {changes : ChangeSet} {c : Certificate} {files : σ}
    (hdecide : n.decideOn spec p u.world.now = .ok (.reEncode c changes))
    (hwrite : n.CanWrite spec p u c files) :
    ∃ v, (n.carryOut spec p).run.run u =
        (.ok { path := spec.target.path, action := .reEncode, reason := some .changed, changes
               written := true, held := some c }, v) ∧
      v.world.files = files ∧ v.world.now = u.world.now := by
  obtain ⟨v, hwritten, hafter⟩ := hwrite.exists_write ⟨u, rfl, rfl, rfl⟩
  refine ⟨v, ?_, hafter⟩
  rw [run_carryOut, hdecide, bind_eq_ok_iff]
  refine ⟨_, u, rfl, ?_⟩
  rw [Site.settle_eq]
  exact hwritten

theorem keeps_carryOut {γ : Type} {P : Event → Prop} {see : σ → PolicyCache → γ}
    (h : n.site.MayWrite P see spec.target.path)
    (hissue : Keeps P see (n.issueFor spec.request p.desired.draft p.signer p.subject.publicKey)) :
    Keeps P see (n.carryOut spec p) := by
  refine Keeps.bind (Keeps.world.bind fun _ => .ofOutcome _) fun decision => ?_
  exact Site.keeps_settle h hissue fun c => Site.keeps_encode _ _ _ _ _

end Node
end CertAuthority
