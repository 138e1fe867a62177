import CertAuthority.Managed.PrivateKey
import CertAuthority.Managed.RevocationList
import CertAuthority.Managed.SigningRequest
import CertAuthority.Proofs.Managed.Plans

/-!
# The operations of a node

A node keeps certificates, signing requests, private keys and revocation lists. Each operation first
finds out what there is to do, and that changes nothing; then it does it. The second half is the
same for all four.

* `Managed` : what a node can be asked to keep, and `Node.manage` : the operation;
* `Job` : what there is to do, `Node.prepare` : finds it out, `Site.finish` : does it;
* `Node.manage_eq` : an operation is these two;
* `Node.keeps_prepare` : finding out reads files and asks for descriptions of policies.
-/

namespace CertAuthority

open Run (Keeps)

/-- What a node can be asked to keep, by how it differs from what is wanted and what it is. -/
inductive Managed : Type → Type → Type where
  | certificate (spec : CertificateSpec) : Managed ChangeSet Certificate
  | signingRequest (spec : SigningRequestSpec) : Managed ChangeSet Certificate
  | privateKey (spec : PrivateKeySpec) : Managed KeyChanges PrivateKey
  | revocationList (spec : RevocationListSpec) : Managed ChangeSet Certificate

namespace Managed

variable {χ α : Type}

def target : Managed χ α → Target
  | .certificate spec => spec.target
  | .signingRequest spec => spec.target
  | .privateKey spec => spec.target
  | .revocationList spec => spec.target

/-- No changes. -/
def same : Managed χ α → χ
  | .privateKey _ => ({} : KeyChanges)
  | .certificate _ | .signingRequest _ | .revocationList _ => ({} : ChangeSet)

end Managed

/-! ## Jobs -/

/-- What there is to do about a target. -/
structure Job (σ χ α : Type) where
  decision : Decision χ α
  /-- Makes what is to be there anew -/
  issue : Run σ α
  /-- The bytes of what is to be there, in the container that is wanted -/
  encode : Moment → α → BackendResult Bytes

/-- Does what there is to do. -/
def Site.finish {σ χ α : Type} (s : Site σ) (t : Target) (same : χ) (j : Job σ χ α) :
    Run σ (Report χ α) :=
  s.settle t same j.decision j.issue fun a => do
    Run.backendAt .encoding (j.encode (← Run.moment) a)

namespace Node

variable {σ χ α : Type}

/-- The job about an artifact. -/
def artifactJob (n : Node σ) (existing : Existing) (d : Desired) (threshold : Span)
    (embedKey : Option PrivateKey) (issue : Run σ Certificate) :
    Run σ (Job σ ChangeSet Certificate) := do
  let kind := d.draft.request.kind
  let decision ← n.decide kind existing d threshold
  return {
    decision, issue
    encode := fun m c => (n.site.backend kind).encode m c d.encoding
      { chain := d.chain, embedKey, passphrase := d.passphrase, friendlyName := d.friendlyName } }

theorem settle_eq_artifactJob (n : Node σ) (t : Target) (existing : Existing) (d : Desired)
    (threshold : Span) (embedKey : Option PrivateKey) (issue : Run σ Certificate) :
    n.settle t existing d threshold embedKey issue =
      n.artifactJob existing d threshold embedKey issue >>= n.site.finish t {} := by
  simp only [artifactJob, bind_assoc, pure_bind]
  rfl

/-- What there is to do about a certificate that was planned. -/
def certificateJob (n : Node σ) (spec : CertificateSpec) (p : Plan) :
    Run σ (Job σ ChangeSet Certificate) :=
  n.artifactJob p.existing p.desired (n.thresholdFor spec p)
    (if p.request.encoding = .pkcs12 then p.subject.privateKey else none)
    (n.issueFor spec.request p.desired.draft p.signer p.subject.publicKey)

def prepareRequest (n : Node σ) (spec : SigningRequestSpec) :
    Run σ (Job σ ChangeSet Certificate) := do
  let r := n.withDefaults spec.request
  let b := n.site.backend r.kind
  let m ← Run.ofOption noPrivateKey r.privateKey
  let key ← Run.backendAt .loadingSigningKey
    (b.loadPrivateKey (← n.site.material .loadingSigningKey m) r.privateKeyPassphrase)
  let publicKey ← Run.backendAt .derivingPublicKey (b.derivePublicKey key)
  let existing ← n.site.existing spec.target.path (b.loadAs .csr · none)
  let draft ← n.site.draft .csr r publicKey ⟨publicKey, none⟩
  n.artifactJob existing { draft, encoding := r.encoding } .zero none (n.site.sign draft key)

def prepareKey (n : Node σ) (spec : PrivateKeySpec) : Run σ (Job σ KeyChanges PrivateKey) := do
  let b := n.site.backend spec.kind
  let decision ← n.decideKey spec
  return {
    decision
    issue := do Run.backendAt .generatingKey (b.generateKey (← Run.moment) spec.algorithm)
    encode := fun m key => b.encodePrivateKey m key spec.passphrase }

def prepareList (n : Node σ) (spec : RevocationListSpec) :
    Run σ (Job σ ChangeSet Certificate) := do
  let existing ← n.site.existing spec.target.path
    ((n.site.backend spec.request.kind).loadAs .crl · none)
  let r ← n.listRequest spec.request existing
  let signing ← n.site.requireSigner r
  let draft ← n.site.draft .crl r signing.identity.publicKey signing.identity
  let threshold := spec.threshold.getD n.config.crlThreshold
  n.artifactJob existing { draft, encoding := r.encoding } threshold none
    (n.site.sign (numbered existing draft) signing.key)

/-- Finds out what there is to do. -/
def prepare (n : Node σ) : Managed χ α → Run σ (Job σ χ α)
  | .certificate spec => n.plan spec >>= n.certificateJob spec
  | .signingRequest spec => n.prepareRequest spec
  | .privateKey spec => n.prepareKey spec
  | .revocationList spec => n.prepareList spec

/-- Brings a target in line with what is wanted. -/
def manage (n : Node σ) : Managed χ α → Run σ (Report χ α)
  | .certificate spec => n.certificate spec
  | .signingRequest spec => n.signingRequest spec
  | .privateKey spec => n.privateKey spec
  | .revocationList spec => n.revocationList spec

theorem manage_eq (n : Node σ) (a : Managed χ α) :
    n.manage a = n.prepare a >>= n.site.finish a.target a.same := by
  cases a with
  | certificate spec =>
    simp only [manage, prepare, certificate_eq, bind_assoc]
    exact bind_congr fun p => settle_eq_artifactJob ..
  | signingRequest spec =>
    simp only [manage, prepare, signingRequest, prepareRequest, settle_eq_artifactJob, bind_assoc]
    rfl
  | privateKey spec =>
    simp only [manage, prepare, privateKey, prepareKey, bind_assoc, pure_bind]
    rfl
  | revocationList spec =>
    simp only [manage, prepare, revocationList, prepareList, settle_eq_artifactJob, bind_assoc]
    rfl

/-! ## Finding out -/

section

variable {γ : Type} {P : Event → Prop} {look : σ → γ} {n : Node σ}

theorem keeps_artifactJob {see : σ → PolicyCache → γ} (existing : Existing) (d : Desired)
    (threshold : Span) (embedKey : Option PrivateKey) (issue : Run σ Certificate) :
    Keeps P see (n.artifactJob existing d threshold embedKey issue) :=
  Keeps.bind (Keeps.world.bind fun _ => .ofOutcome _) fun _ => .pure _

theorem keeps_remoteIdentity {see : σ → PolicyCache → γ} (kind : CertificateKind)
    (d : PolicyDescription) : Keeps P see (n.remoteIdentity kind d) := by
  obtain ⟨_, key, certificate⟩ := d
  cases key with
  | inline data =>
    refine (Keeps.backendAt _ _).bind fun publicKey => ?_
    rcases certificate with _ | path | data
    · exact .pure _
    · exact .ofOutcome _
    · exact (Keeps.backendAt _ _).bind fun _ => .pure _
  | path path =>
    exact Keeps.ofOutcome (Outcome.fail (.staged .loadingPolicy notInline))

/-- Asking for descriptions of policies is allowed, and makes no difference to what is seen. -/
def SparesInquiries (n : Node σ) (P : Event → Prop) (look : σ → γ) : Prop :=
  ∀ c ∈ n.channel, ∀ k : PolicyKey, c.Spares P (fun files _ => look files) k.peer k.inquiry

variable (hread : ∀ path, P (.read path)) (hask : n.SparesInquiries P look)
include hread

theorem keeps_resolveLocal (spec : CertificateSpec) :
    Keeps P (fun files _ => look files) (n.resolveLocal spec) := by
  unfold resolveLocal
  refine Keeps.bind ?_ fun policy => (Site.keeps_requireSigner hread).bind fun _ => .pure _
  cases spec.policy with
  | none => exact .pure none
  | some name =>
    refine Keeps.bind (Keeps.atStage _ ?_) fun _ => .pure _
    exact (Keeps.ofOutcome _).bind fun _ => .ofOutcome _

include hask in
theorem keeps_resolve (spec : CertificateSpec) :
    Keeps P (fun files _ => look files) (n.resolve spec) := by
  unfold resolve
  cases spec.authority with
  | none => exact keeps_resolveLocal hread spec
  | some peer =>
    refine (Keeps.ofOutcome _).bind fun name => Keeps.ofOption_bind fun c hc => ?_
    let key : PolicyKey := ⟨peer, spec.request.kind, name⟩
    have hinquiry : Keeps P (fun files _ => look files) (Run.knownPolicy key (c.policy key)) :=
      Keeps.knownPolicy (c.keeps_policy (hask c hc key))
    exact (hinquiry.atStage _).bind fun d => (keeps_remoteIdentity _ d).bind fun _ => .pure _

include hask in
theorem keeps_plan (spec : CertificateSpec) :
    Keeps P (fun files _ => look files) (n.plan spec) :=
  (keeps_resolve hread hask spec).bind fun _ => (keeps_subjectFor hread _ _).bind fun _ =>
    (Site.keeps_existing hread _ _).bind fun _ => (Site.keeps_draft _ _ _).bind fun _ =>
      (Site.keeps_chain hread).bind fun _ => .pure _

theorem keeps_listRequest (r : CertificateRequest) (existing : Existing) :
    Keeps P (fun files _ => look files) (n.listRequest r existing) := by
  refine (Keeps.mapM (fun e => ?_) r.revoked).bind fun _ => .pure _
  unfold completeEntry
  split
  · exact .pure _
  · exact (Site.keeps_loadMaterial hread _ _ _).bind fun _ => .pure _

theorem keeps_decideKey (spec : PrivateKeySpec) :
    Keeps P (fun files _ => look files) (n.decideKey spec) := by
  refine (Site.keeps_has _).bind fun there => ?_
  split
  · exact .pure _
  · split
    · exact .pure _
    · exact ((Site.keeps_read hread _).atStage _).bind fun _ => .ofOutcome _

include hask in
/-- Finding out what there is to do reads files, and asks for descriptions of policies. -/
theorem keeps_prepare (a : Managed χ α) : Keeps P (fun files _ => look files) (n.prepare a) := by
  cases a with
  | certificate spec =>
    exact (keeps_plan hread hask spec).bind fun _ => keeps_artifactJob _ _ _ _ _
  | signingRequest spec =>
    exact (Keeps.ofOutcome _).bind fun m => (Site.keeps_material hread _ m).bind fun _ =>
      (Keeps.backendAt _ _).bind fun _ => (Keeps.backendAt _ _).bind fun _ =>
        (Site.keeps_existing hread _ _).bind fun _ => (Site.keeps_draft _ _ _).bind fun _ =>
          keeps_artifactJob _ _ _ _ _
  | privateKey spec => exact (keeps_decideKey hread spec).bind fun _ => .pure _
  | revocationList spec =>
    exact (Site.keeps_existing hread _ _).bind fun _ => (keeps_listRequest hread _ _).bind fun _ =>
      (Site.keeps_requireSigner hread).bind fun _ => (Site.keeps_draft _ _ _).bind fun _ =>
        keeps_artifactJob _ _ _ _ _

end

end Node
end CertAuthority
