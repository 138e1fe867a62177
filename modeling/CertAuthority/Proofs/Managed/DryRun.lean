import CertAuthority.Proofs.Certificate.Redrafts
import CertAuthority.Proofs.Issue.Repeats
import CertAuthority.Proofs.Managed.Operations
import CertAuthority.Proofs.Managed.Stability
import CertAuthority.Proofs.Peer.Admission
import CertAuthority.Proofs.Peer.Envelopes
import CertAuthority.Proofs.Peer.Secrecy

/-!
# Dry runs

A dry run finds out what there is to do, and does not do it. What it reports is what a run in earnest
does from the same files at the same time, though that one draws other random bytes.

* `Managed.withDryRun` : the same operation as a dry run or in earnest;
* `Node.PeersDescribe` : what other authorities tell of their policies stands in their files;
* `Node.foretells_prepare` : what is found out does not depend on random bytes;
* `Node.dry_run_foretells` : a dry run changes nothing, and foretells the run in earnest.
-/

namespace CertAuthority

open Run (Keeps Steady Foretells bind_eq_ok_iff)

namespace Managed

variable {χ α : Type}

def withDryRun (dryRun : Bool) : Managed χ α → Managed χ α
  | .certificate spec => .certificate { spec with target := { spec.target with dryRun } }
  | .signingRequest spec => .signingRequest { spec with target := { spec.target with dryRun } }
  | .privateKey spec => .privateKey { spec with target := { spec.target with dryRun } }
  | .revocationList spec => .revocationList { spec with target := { spec.target with dryRun } }

theorem target_withDryRun (a : Managed χ α) (dryRun : Bool) :
    (a.withDryRun dryRun).target = { a.target with dryRun } := by
  cases a <;> rfl

theorem same_withDryRun (a : Managed χ α) (dryRun : Bool) :
    (a.withDryRun dryRun).same = a.same := by
  cases a <;> rfl

end Managed

theorem Node.prepare_withDryRun {σ χ α : Type} (n : Node σ) (a : Managed χ α) (dryRun : Bool) :
    n.prepare (a.withDryRun dryRun) = n.prepare a := by
  cases a <;> rfl

/-! ## Doing nothing -/

/-- Reading a file, or asking for the description of a policy. -/
def Event.Inquires (e : Event) : Prop :=
  (∃ path, e = .read path) ∨ ∃ k : PolicyKey, e = .ask k.peer signProcedure k.inquiry.toJson

namespace Site

variable {σ γ χ α : Type} {s : Site σ} {t : Target} {P : Event → Prop}
  {see : σ → PolicyCache → γ}

theorem keeps_finish_of_dryRun (hdry : t.dryRun = true) (same : χ) (j : Job σ χ α) :
    Keeps P see (s.finish t same j) := by
  have hwrite (report : Report χ α) (make : Run σ α) (encode : α → Run σ Bytes) :
      Keeps P see (s.write t report make encode) := by
    refine (keeps_guardLink t).bind fun _ => ?_
    rw [hdry]
    exact .pure _
  rw [finish, settle_eq]
  cases j.decision with
  | keep a => exact .pure _
  | reEncode a changes => exact hwrite _ _ _
  | issue reason changes => exact hwrite _ _ _

/-- Where doing something succeeds, a dry run reports it. -/
theorem exists_finish_of_dryRun {same : χ} {j j' : Job σ χ α} {u v w : RunState σ}
    {real : Report χ α} (hdecision : j.decision = j'.decision) (huv : u.Agrees v)
    (hreal : (s.finish { t with dryRun := false } same j').run.run v = (.ok real, w)) :
    ∃ dry u', (s.finish { t with dryRun := true } same j).run.run u = (.ok dry, u') ∧
      dry.action = real.action ∧ dry.reason = real.reason ∧ dry.changes = real.changes := by
  obtain ⟨haction, hreason, hchanges, -⟩ := of_settle hreal
  rw [haction, hreason, hchanges, ← hdecision]
  have hguard {report : Report χ α} {make : Run σ α} {encode : α → Run σ Bytes}
      (hwrite : (s.write { t with dryRun := false } report make encode).run.run v = (.ok real, w))
      (report' : Report χ α) (make' : Run σ α) (encode' : α → Run σ Bytes) :
      ∃ u', (s.write { t with dryRun := true } report' make' encode').run.run u =
        (.ok report', u') := by
    obtain ⟨_, v', hpassed, -⟩ := bind_eq_ok_iff.1 hwrite
    obtain ⟨_, u', hpassed', -⟩ :=
      Foretells.of_steady (.of_looks (looks_guardLink t)) u v huv () v' hpassed
    exact ⟨u', bind_eq_ok_iff.2 ⟨(), u', hpassed', rfl⟩⟩
  rw [finish, settle_eq, ← hdecision] at hreal
  rw [finish, settle_eq]
  cases hd : j.decision with
  | keep a => exact ⟨_, u, rfl, rfl, rfl, rfl⟩
  | reEncode a changes =>
    rw [hd] at hreal
    obtain ⟨u', hdry⟩ := hguard hreal _ _ _
    exact ⟨_, u', hdry, rfl, rfl, rfl⟩
  | issue reason changes =>
    rw [hd] at hreal
    obtain ⟨u', hdry⟩ := hguard hreal _ _ _
    exact ⟨_, u', hdry, rfl, rfl, rfl⟩

end Site

/-! ## Finding out again -/

namespace Node

variable {σ χ α : Type} {n : Node σ}

/-- What other authorities tell of their policies stands in their files, and changes none. -/
structure PeersDescribe (n : Node σ) : Prop where
  files : ∀ c ∈ n.channel, ∀ (k : PolicyKey) (w : World σ),
    ((c k.peer signProcedure k.inquiry.toJson).run w).2.files = w.files
  steady : ∀ c ∈ n.channel, ∀ k : PolicyKey, Steady (c.policy k)

/-! ## Descriptions by authorities -/

end Node

namespace Authority

variable {σ γ : Type} {a : Authority σ} {P : Event → Prop} {see : σ → PolicyCache → γ}

theorem keeps_describe (hread : ∀ path, P (.read path)) (p : SigningPolicy) :
    Keeps P see (a.describe p) := by
  refine Keeps.bind ?_ fun identity => ?_
  · refine (Site.keeps_signer hread).bind fun signing => ?_
    cases signing with
    | some signing => exact .pure _
    | none => exact (Site.keeps_signerIdentity hread).bind fun _ => .ofOutcome _
  · refine (Keeps.backendAt _ _).bind fun _ => Keeps.bind ?_ fun _ => .pure _
    cases identity.certificate with
    | none => exact .pure none
    | some c => exact (Site.keeps_encode _ _ c _ _).bind fun _ => .pure _

theorem steady_encodePlain (hb : a.site.backend = CertificateKind.backend) (stage : Stage)
    (kind : CertificateKind) (c : Certificate) : Steady (a.site.encodePlain stage kind c) := by
  refine Steady.moment_bind (fun _ => .backendAt _ _) fun m m' _ => ?_
  rw [hb]
  cases kind <;> rfl

theorem steady_describe (hb : a.site.backend = CertificateKind.backend) (p : SigningPolicy) :
    Steady (a.describe p) := by
  refine (Steady.of_looks (looks_identity _)).bind fun identity => ?_
  refine (Steady.backendAt _ _).bind fun _ => Steady.bind ?_ fun _ => .pure _
  cases identity.certificate with
  | none => exact .pure none
  | some c => exact (steady_encodePlain hb _ _ c).bind fun _ => .pure _

theorem serve_of_not_authorize {e : RequestEnvelope} {fault : Fault Error}
    (h : a.authorize e = .error fault) : ∃ reply, ∀ w, a.serve e w = (reply, ⟨w, [], {}⟩) := by
  cases fault with
  | error why => exact ⟨refusal why, fun w => by rw [serve, h]⟩
  | abandoned => exact ⟨.ofErrors [internalError], fun w => by rw [serve, h]⟩

/-- An inquiry is served from the files and by the clock, and that changes no file. -/
theorem serve_inquiry (hb : a.site.backend = CertificateKind.backend) {e : RequestEnvelope}
    (he : e.policyOnly = true) (w w' : World σ) (hfiles : w.files = w'.files)
    (hnow : w.now = w'.now) :
    (a.serve e w).1 = (a.serve e w').1 ∧ (a.serve e w).2.world.files = w.files ∧
      (a.serve e w).2.world.now = (a.serve e w').2.world.now := by
  cases hq : a.authorize e with
  | error fault =>
    obtain ⟨reply, hreply⟩ := serve_of_not_authorize hq
    rw [hreply, hreply]
    exact ⟨rfl, rfl, hnow⟩
  | ok q =>
    have hperform : a.perform q e = a.describe q >>= fun d => pure (.policy d) := by
      rw [perform, if_pos he, map_eq_pure_bind]
    have hsteady : Steady (a.perform q e) :=
      hperform ▸ (steady_describe hb q).bind fun _ => .pure _
    have hkeeps : Keeps (fun _ => True) (fun files _ => files) (a.perform q e) :=
      hperform ▸ (keeps_describe (fun _ => trivial) q).bind fun _ => .pure _
    obtain ⟨hvalue, hstates⟩ := hsteady ⟨w, [], {}⟩ ⟨w', [], {}⟩ ⟨hfiles, hnow, rfl⟩
    rw [serve_of_authorize hq, serve_of_authorize hq]
    exact ⟨congrArg replyTo hvalue, hkeeps.seen ⟨w, [], {}⟩, hstates.now⟩

end Authority

namespace Node

variable {σ χ α : Type} {n : Node σ}

/-- Authorities with the backends of this library describe their policies so. -/
theorem peersDescribe_of_authorities {authorities : List (String × Authority σ)}
    {identity : Option String} (hchannel : n.channel = some (Authority.channel authorities identity))
    (hb : ∀ peer a, authorities.lookup peer = some a →
      a.site.backend = CertificateKind.backend) : n.PeersDescribe := by
  have hcall (k : PolicyKey) (w w' : World σ) (hfiles : w.files = w'.files) (hnow : w.now = w'.now) :
      let call := Authority.channel authorities identity k.peer signProcedure k.inquiry.toJson
      (call.run w).1 = (call.run w').1 ∧ (call.run w).2.files = w.files ∧
        (call.run w).2.now = (call.run w').2.now := by
    intro call
    cases ha : authorities.lookup k.peer with
    | none =>
      have hrun (v : World σ) : call.run v = (some [], v) := by
        simp only [call, Authority.channel, ha]
        rfl
      rw [hrun, hrun]
      exact ⟨rfl, rfl, hnow⟩
    | some a =>
      have hread : RequestEnvelope.read k.inquiry.toJson = .ok k.inquiry :=
        (RequestEnvelope.codes (CertificateRequest.isWritable_new k.kind)).read_write
      obtain ⟨hreply, hkept, htime⟩ := Authority.serve_inquiry (hb _ a ha)
        (show { k.inquiry with identity }.policyOnly = true from rfl) w w' hfiles hnow
      rw [Authority.channel_of_reads rfl ha hread, Authority.channel_of_reads rfl ha hread, hreply]
      exact ⟨rfl, hkept, htime⟩
  refine ⟨fun c hc k w => ?_, fun c hc k => ?_⟩
  all_goals obtain rfl := Option.some.inj (hchannel.symm.trans hc)
  · exact (hcall k w w rfl rfl).2.1
  · have hrequest : Steady ((Authority.channel authorities identity).request k.peer k.inquiry) := by
      refine (Steady.note _).bind fun _ => Steady.bind (.onWorld fun w w' hfiles hnow => ?_)
        fun _ => (Steady.ofOutcome _).bind fun _ => .ofOutcome _
      obtain ⟨hreply, hkept, htime⟩ := hcall k w w' hfiles hnow
      exact ⟨hreply, hkept.trans (hfiles.trans (hcall k w' w' rfl rfl).2.1.symm), htime⟩
    refine hrequest.bind fun reply => ?_
    cases reply with
    | policy d => exact .pure d
    | certificate b => exact Steady.ofOutcome (Outcome.fail (.transport .notPolicy))

/-- Two jobs come from one decision. -/
def SameDecision {σ χ α : Type} (j j' : Job σ χ α) : Prop := j.decision = j'.decision

theorem steady_remoteIdentity (kind : CertificateKind) (d : PolicyDescription) :
    Steady (n.remoteIdentity kind d) := by
  obtain ⟨_, key, certificate⟩ := d
  cases key with
  | inline data =>
    refine (Steady.backendAt _ _).bind fun publicKey => ?_
    rcases certificate with _ | path | data
    · exact .pure _
    · exact .ofOutcome _
    · exact (Steady.backendAt _ _).bind fun _ => .pure _
  | path path => exact Steady.ofOutcome (Outcome.fail (.staged .loadingPolicy notInline))

theorem steady_requireSigner (r : CertificateRequest) : Steady (n.site.requireSigner r) :=
  (Steady.of_looks Site.looks_signer).bind fun _ => .ofOutcome _

theorem steady_resolve (hpeers : n.PeersDescribe) (spec : CertificateSpec) :
    Steady (n.resolve spec) := by
  unfold resolve
  cases spec.authority with
  | none =>
    refine Steady.bind ?_ fun policy => (steady_requireSigner _).bind fun _ => .pure _
    cases spec.policy with
    | none => exact .pure none
    | some name =>
      refine Steady.bind (Steady.atStage _ ?_) fun _ => .pure _
      exact (Steady.ofOutcome _).bind fun _ => .ofOutcome _
  | some peer =>
    refine (Steady.ofOutcome _).bind fun name => Steady.ofOption_bind fun c hc => ?_
    have hinquiry := hpeers.steady c hc ⟨peer, spec.request.kind, name⟩
    exact (hinquiry.knownPolicy.atStage _).bind fun d =>
      (steady_remoteIdentity _ d).bind fun _ => .pure _

theorem looks_listRequest (r : CertificateRequest) (existing : Existing) :
    Run.Looks (n.listRequest r existing) := by
  refine (Run.Looks.mapM (fun e => ?_) r.revoked).bind fun _ => .pure _
  unfold completeEntry
  split
  · exact .pure _
  · exact ((Site.looks_material _ _).bind fun _ => .backendAt _ _).bind fun _ => .pure _

theorem looks_decideKey (spec : PrivateKeySpec) : Run.Looks (n.decideKey spec) := by
  refine (Site.looks_has _).bind fun there => ?_
  split
  · exact .pure _
  · split
    · exact .pure _
    · exact ((Site.looks_read _).atStage _).bind fun _ => .ofOutcome _

/-! ## Decisions from drafts -/

variable {R : Draft → Draft → Prop} {β γ : Type} {S : β → γ → Prop}

/-- What follows from a draft has to follow from another one like it. -/
theorem foretells_draft_bind {artifact : ArtifactKind} {r : CertificateRequest}
    {subject : PublicKey} {signer : SignerIdentity} {f : Draft → Run σ β} {g : Draft → Run σ γ}
    (hb : n.site.backend = CertificateKind.backend)
    (hf : ∀ d d', d.Alike d' → d.request = d'.request → Foretells S (f d) (g d')) :
    Foretells S (n.site.draft artifact r subject signer >>= f)
      (n.site.draft artifact r subject signer >>= g) := by
  have hdraft : Foretells (fun d d' => d.Alike d' ∧ d.request = d'.request)
      (n.site.draft artifact r subject signer) (n.site.draft artifact r subject signer) := by
    intro s t hst d' v hrun
    simp only [Site.draft, bind_eq_ok_iff, Run.backendAt_eq_ok_iff, hb] at hrun ⊢
    obtain ⟨m, v, hmoment, hd', rfl⟩ := hrun
    obtain ⟨m', u, hmoment', hnow, hfiles', hnow'⟩ := Run.exists_moment s
    obtain ⟨htime, hfiles, hnow''⟩ := Run.of_moment hmoment
    obtain ⟨d, hd, halike⟩ := CertificateKind.exists_buildDraft
      (hnow.trans (hst.now.trans htime.symm)) hd'
    refine ⟨d, u, ⟨m', u, hmoment', hd, rfl⟩, ⟨halike, ?_⟩, ?_, ?_, ?_⟩
    · rw [(CertificateKind.isFor_of_buildDraft hd).request,
        (CertificateKind.isFor_of_buildDraft hd').request]
    · rw [hfiles', hfiles, hst.files]
    · rw [hnow', hnow'', hst.now]
    · rw [Run.policies_of_moment hmoment', Run.policies_of_moment hmoment, hst.policies]
  exact hdraft.bind fun d d' h => hf d d' h.1 h.2

theorem foretells_artifactJob {existing : Existing} {d d' : Draft} (desired : Desired)
    {threshold : Span} {embedKey : Option PrivateKey} {issue issue' : Run σ Certificate}
    (h : d.Alike d') (hrequest : d.request = d'.request) :
    Foretells SameDecision
      (n.artifactJob existing { desired with draft := d } threshold embedKey issue)
      (n.artifactJob existing { desired with draft := d' } threshold embedKey issue') := by
  have hdecide (kind : CertificateKind) :
      n.decide kind existing { desired with draft := d } threshold =
        n.decide kind existing { desired with draft := d' } threshold := by
    unfold decide
    cases existing with
    | missing => rfl
    | unreadable => rfl
    | loaded a => simp only [Existing.decide, h.changesFrom_eq]
  have hsteady (kind : CertificateKind) :
      Steady (n.decide kind existing { desired with draft := d' } threshold) :=
    Steady.get_bind (fun _ => .ofOutcome _) fun s t hst => by rw [hst.now]
  unfold artifactJob
  dsimp only
  rw [hdecide, hrequest]
  exact Foretells.bind_steady (hsteady _) fun _ => .pure rfl

/-- Whoever finds out what there is to do comes to one decision, whatever the random bytes. -/
theorem foretells_prepare (hb : n.site.backend = CertificateKind.backend)
    (hpeers : n.PeersDescribe) (a : Managed χ α) :
    Foretells SameDecision (n.prepare a) (n.prepare a) := by
  cases a with
  | certificate spec =>
    simp only [prepare, plan, bind_assoc, pure_bind]
    refine .bind_steady (steady_resolve hpeers spec) fun resolved => ?_
    refine .bind_steady (.of_looks (looks_subjectFor _ _)) fun subject => ?_
    refine .bind_steady (.of_looks (Site.looks_existing _ _)) fun existing => ?_
    refine foretells_draft_bind hb fun d d' halike hrequest => ?_
    refine .bind_steady (.of_looks (Site.looks_chain _)) fun chain => ?_
    let desired : Desired :=
      { draft := d', encoding := resolved.1.encoding, chain
        friendlyName := resolved.1.pkcs12FriendlyName
        passphrase := resolved.1.pkcs12Passphrase }
    exact foretells_artifactJob desired halike hrequest
  | signingRequest spec =>
    refine .bind_steady (.ofOutcome _) fun m => ?_
    refine .bind_steady (.of_looks (Site.looks_material _ m)) fun _ => ?_
    refine .bind_steady (.backendAt _ _) fun key => ?_
    refine .bind_steady (.backendAt _ _) fun publicKey => ?_
    refine .bind_steady (.of_looks (Site.looks_existing _ _)) fun existing => ?_
    exact foretells_draft_bind hb fun d d' halike hrequest =>
      foretells_artifactJob { draft := d', encoding := _ } halike hrequest
  | privateKey spec =>
    exact .bind_steady (.of_looks (looks_decideKey spec)) fun _ => .pure rfl
  | revocationList spec =>
    refine .bind_steady (.of_looks (Site.looks_existing _ _)) fun existing => ?_
    refine .bind_steady (.of_looks (looks_listRequest _ _)) fun r => ?_
    refine .bind_steady (steady_requireSigner r) fun signing => ?_
    exact foretells_draft_bind hb fun d d' halike hrequest =>
      foretells_artifactJob { draft := d', encoding := r.encoding } halike hrequest

/-! ## Foretelling -/

/-- **A dry run foretells the run in earnest.** Whatever operation it is of and whatever it starts
from, a dry run signs nothing, asks nobody to sign and writes nothing: all that it does is to read
files and to ask for descriptions of policies. And if the same operation succeeds in earnest from
the same files at the same time, with whatever random bytes, then the dry run succeeds too, and
reports the same action, for the same reason, with the same changes. -/
theorem dry_run_foretells (hb : n.site.backend = CertificateKind.backend)
    (hpeers : n.PeersDescribe) (a : Managed χ α) :
    (∀ s : RunState σ, ∃ added,
      ((n.manage (a.withDryRun true)).run.run s).2.journal = s.journal ++ added ∧
        (∀ e ∈ added, e.Inquires) ∧
        ((n.manage (a.withDryRun true)).run.run s).2.world.files = s.world.files) ∧
    ∀ s t : RunState σ, s.Agrees t → ∀ real v,
      (n.manage (a.withDryRun false)).run.run t = (.ok real, v) →
        ∃ dry u, (n.manage (a.withDryRun true)).run.run s = (.ok dry, u) ∧
          dry.action = real.action ∧ dry.reason = real.reason ∧ dry.changes = real.changes := by
  have hmanage (dryRun : Bool) : n.manage (a.withDryRun dryRun) =
      n.prepare a >>= n.site.finish { a.target with dryRun } a.same := by
    rw [manage_eq, prepare_withDryRun, Managed.target_withDryRun, Managed.same_withDryRun]
  constructor
  · have hread (path : String) : Event.Inquires (.read path) := .inl ⟨path, rfl⟩
    have hask : n.SparesInquiries Event.Inquires id :=
      fun c hc k => ⟨.inr ⟨k, rfl⟩, fun w _ => hpeers.files c hc k w⟩
    have hkeeps : Keeps Event.Inquires (fun files _ => files) (n.manage (a.withDryRun true)) := by
      rw [hmanage]
      exact (keeps_prepare hread hask a).bind fun j => Site.keeps_finish_of_dryRun rfl _ j
    intro s
    obtain ⟨added, hjournal, hadded⟩ := hkeeps.journal s
    exact ⟨added, hjournal, hadded, hkeeps.seen s⟩
  · intro s t hst real v hreal
    rw [hmanage, bind_eq_ok_iff] at hreal
    obtain ⟨j', t', hprepare', hreal⟩ := hreal
    obtain ⟨j, s', hprepare, hdecision, hagree⟩ := foretells_prepare hb hpeers a s t hst j' t' hprepare'
    obtain ⟨dry, u, hdry, hreport⟩ := Site.exists_finish_of_dryRun hdecision hagree hreal
    rw [hmanage]
    exact ⟨dry, u, bind_eq_ok_iff.2 ⟨j, s', hprepare, hdry⟩, hreport⟩

/-- The branch tries first whether it will get a certificate, and draws other random bytes then. -/
theorem dry_run_foretells_of_branch :
    ∃ (s : RunState FileStore) (real dry : Report ChangeSet Certificate) (u v : RunState FileStore),
      branch.PeersDescribe ∧ s.Agrees branchStart ∧ s.world.seed ≠ branchStart.world.seed ∧
      (branch.manage ((Managed.certificate branchSpec).withDryRun false)).run.run branchStart =
        (.ok real, v) ∧ real.written = true ∧
      (branch.manage ((Managed.certificate branchSpec).withDryRun true)).run.run s = (.ok dry, u) ∧
      u.world.files = s.world.files ∧ (∀ e ∈ u.journal, e.Inquires) ∧
      dry.action = .issue ∧ dry.reason = some .created ∧ dry.changes = {} := by
  obtain ⟨h, hrun⟩ := Outcome.exists_eq_ok_of_isOk X509.houseRun_isOk
  obtain ⟨_, v, _, -, hissued, -⟩ := exists_certificate_branch hrun
  have hpeers : branch.PeersDescribe := by
    refine peersDescribe_of_authorities rfl fun peer a ha => ?_
    rw [Json.lookup_cons] at ha
    split at ha
    · rw [← Option.some.inj ha]
      rfl
    · cases ha
  let s : RunState FileStore := ⟨{ files := {}, now := .ofSeconds 0, seed := [1] }, [], {}⟩
  obtain ⟨hdry, hforetells⟩ := dry_run_foretells (n := branch) rfl hpeers (.certificate branchSpec)
  obtain ⟨dry, u, hdried, haction, hreason, hchanges⟩ :=
    hforetells s branchStart ⟨rfl, rfl, rfl⟩ _ v hissued
  obtain ⟨added, hjournal, hadded, hfiles⟩ := hdry s
  rw [hdried] at hjournal hfiles
  exact ⟨s, _, dry, u, v, hpeers, ⟨rfl, rfl, rfl⟩, by decide, hissued, rfl, hdried, hfiles,
    by rw [hjournal]; exact hadded, haction, hreason, hchanges⟩

end Node
end CertAuthority
