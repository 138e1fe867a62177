import CertAuthority.Proofs.Managed.Operations
import CertAuthority.Proofs.Managed.Stability
import CertAuthority.Proofs.Peer.Secrecy

/-!
# What a remote authority learns

A node that has a certificate signed elsewhere sends at most two envelopes: an inquiry for the
policy, and an order for the certificate. Neither tells more of the subject's key than its public
half, nor anything of what the node keeps for itself.

* `RunState.sent` : the envelopes sent so far, in order;
* `Run.Silent`, `Run.Sends` : runs that send nothing, and those that send one envelope at most;
* `Node.suppliedKey` : the public key that the material of a request comes to;
* `Node.sent_certificate` : what a run for a certificate sends, given the policy;
* `CertificateSpec.shared` : what a peer may learn of a specification besides that key. Two that
  share it make for the same envelopes.
-/

namespace CertAuthority

open Run (Keeps bind_eq_ok_iff ofOption_eq_ok_iff pure_eq_ok_iff)

/-! ## Sending -/

def Event.isAsk : Event → Bool
  | .ask _ _ _ => true
  | _ => false

/-- The envelopes sent so far, in order. -/
def RunState.sent {σ : Type} (s : RunState σ) : List Event := s.journal.filter Event.isAsk

namespace Run

variable {σ α β : Type} {x : Run σ α} {f : α → Run σ β} {P : Event → Prop} {s : RunState σ}

/-- The run sends nothing. -/
abbrev Silent (x : Run σ α) : Prop := Keeps Event.IsLocal (fun _ _ => ()) x

theorem Silent.sent_eq (h : Silent x) (s : RunState σ) : (x.run.run s).2.sent = s.sent := by
  obtain ⟨added, hjournal, hadded⟩ := h.journal s
  have hnone : added.filter Event.isAsk = [] := by
    rw [List.filter_eq_nil_iff]
    intro e he hask
    cases e with
    | ask peer procedure args => exact hadded _ he
    | _ => cases hask
  show (x.run.run s).2.journal.filter Event.isAsk = s.journal.filter Event.isAsk
  rw [hjournal, List.filter_append, hnone, List.append_nil]

theorem sent_bind_of_silent (hf : ∀ a, Silent (f a)) (s : RunState σ) :
    ((x >>= f).run.run s).2.sent = (x.run.run s).2.sent := by
  rw [run_bind]
  obtain ⟨_ | a, t⟩ := x.run.run s
  · rfl
  · exact (hf a).sent_eq t

/-- The run sends nothing, or one such envelope. -/
def Sends (P : Event → Prop) (x : Run σ α) : Prop :=
  ∀ s, (x.run.run s).2.sent = s.sent ∨ ∃ e, P e ∧ (x.run.run s).2.sent = s.sent ++ [e]

namespace Sends

theorem of_silent (h : Silent x) : Sends P x := fun s => .inl (h.sent_eq s)

theorem mono {Q : Event → Prop} (h : Sends P x) (hpq : ∀ e, P e → Q e) : Sends Q x :=
  fun s => (h s).imp_right fun ⟨e, he, hsent⟩ => ⟨e, hpq e he, hsent⟩

theorem of_note {e : Event} (he : e.isAsk = true) (hp : P e) :
    Sends P (note e : Run σ Unit) := by
  intro s
  refine .inr ⟨e, hp, ?_⟩
  show (s.journal ++ [e]).filter Event.isAsk = s.journal.filter Event.isAsk ++ [e]
  rw [List.filter_append, List.filter_cons_of_pos he, List.filter_nil]

theorem atStage (stage : Stage) (h : Sends P x) : Sends P (atStage stage x) := h

theorem after (hx : Silent x) (hf : ∀ a, Sends P (f a)) : Sends P (x >>= f) := by
  intro s
  have hfirst := hx.sent_eq s
  rw [run_bind]
  generalize x.run.run s = out at hfirst
  obtain ⟨_ | a, t⟩ := out
  · exact .inl hfirst
  · rw [← hfirst]
    exact hf a t

theorem before (hx : Sends P x) (hf : ∀ a, Silent (f a)) : Sends P (x >>= f) := by
  intro s
  rw [sent_bind_of_silent hf]
  exact hx s

theorem ofOption_bind {e : Error} {o : Option β} {g : β → Run σ α} (h : ∀ b ∈ o, Sends P (g b)) :
    Sends P (Run.ofOption e o >>= g) := by
  cases o with
  | none => exact of_silent (Keeps.ofOutcome (Outcome.fail e))
  | some b => exact h b rfl

theorem backendAt_bind {stage : Stage} {r : BackendResult β} {g : β → Run σ α}
    (h : ∀ b, r = .ok b → Sends P (g b)) : Sends P (backendAt stage r >>= g) := by
  cases r with
  | ok b => exact h b rfl
  | error fault => exact of_silent (Keeps.backendAt_bind fun b hb => by cases hb)

theorem knownPolicy {key : PolicyKey} {fetch : Run σ PolicyDescription} (h : Sends P fetch) :
    Sends P (knownPolicy key fetch) := by
  intro s
  rw [run_knownPolicy]
  cases s.policies.get? key with
  | some d => exact .inl rfl
  | none =>
    have hfetch := h s
    dsimp only
    generalize fetch.run.run s = out at hfetch
    obtain ⟨_ | d, t⟩ := out <;> exact hfetch

end Sends
end Run

open Run (Silent Sends)

/-- The envelope is this one, sent to this peer. -/
def RequestEnvelope.IsSent (e : RequestEnvelope) (peer : String) (event : Event) : Prop :=
  event = .ask peer signProcedure e.toJson

namespace Channel

variable {σ : Type} (c : Channel σ) (peer : String)

theorem sends_request (e : RequestEnvelope) : Sends (e.IsSent peer) (c.request peer e) := by
  have hask : Sends (e.IsSent peer) (Run.note (.ask peer signProcedure e.toJson) : Run σ Unit) :=
    Sends.of_note rfl rfl
  refine hask.before fun _ => ?_
  exact (Keeps.onWorld fun _ _ => rfl).bind fun _ => (Keeps.ofOutcome _).bind fun _ => .ofOutcome _

theorem sends_sign (policy : String) (r : CertificateRequest) :
    Sends ({ policyName := policy, request := r.forRemote : RequestEnvelope }.IsSent peer)
      (c.sign peer policy r) := by
  refine (c.sends_request peer _).before fun reply => ?_
  cases reply with
  | certificate b => exact .pure b
  | policy d => exact Keeps.ofOutcome (Outcome.fail (.transport .notCertificate))

theorem sends_policy (k : PolicyKey) : Sends (k.inquiry.IsSent k.peer) (c.policy k) := by
  refine (c.sends_request k.peer k.inquiry).before fun reply => ?_
  cases reply with
  | certificate b => exact Keeps.ofOutcome (Outcome.fail (.transport .notPolicy))
  | policy d => exact .pure d

end Channel

/-! ## Acting on a decision -/

namespace Site

variable {σ χ α : Type} {s : Site σ} {P : Event → Prop} {t : Target} {same : χ}
  {d : Decision χ α} {issue make : Run σ α} {encode : α → Run σ Bytes} {report : Report χ α}

theorem silent_overwrite (data : Bytes) (why : Option Reason) :
    Silent (s.overwrite t data why) :=
  keeps_overwrite ⟨fun _ _ => ⟨trivial, fun _ _ => rfl⟩, trivial, fun _ _ => rfl⟩ data why

theorem sends_write (hmake : Sends P make) (hencode : ∀ a, Silent (encode a)) :
    Sends P (s.write t report make encode) := by
  refine Sends.after (keeps_guardLink t) fun _ => ?_
  split
  · exact Sends.of_silent (.pure report)
  · refine hmake.before fun a => ?_
    exact (hencode a).bind fun data => (silent_overwrite data _).bind fun _ => .pure _

theorem sends_settle (hissue : Sends P issue) (hencode : ∀ a, Silent (encode a)) :
    Sends P (s.settle t same d issue encode) := by
  rw [settle_eq]
  cases d with
  | keep a => exact Sends.of_silent (.pure _)
  | reEncode a changes => exact sends_write (Sends.of_silent (.pure a)) hencode
  | issue reason changes => exact sends_write hissue hencode

theorem silent_keepCopy (r : CertificateRequest) (c : Certificate) : Silent (s.keepCopy r c) :=
  keeps_keepCopy (fun _ _ _ _ _ _ => ⟨trivial, fun _ _ => rfl⟩) c

end Site

namespace Node

variable {σ : Type} {n : Node σ} {spec spec' : CertificateSpec} {peer : String}

/-! ## Orders -/

/-- The event is an order for the certificate of this key, sent to this peer. -/
def IsOrder (n : Node σ) (peer : String) (spec : CertificateSpec) (key : PublicKey)
    (event : Event) : Prop :=
  ∃ name ∈ spec.policy, ∃ data,
    (n.site.backend spec.request.kind).encodePublicKey key = .ok data ∧
      (spec.order name data).IsSent peer event

theorem IsOrder.unique {key : PublicKey} {e e' : Event} (h : n.IsOrder peer spec key e)
    (h' : n.IsOrder peer spec key e') : e = e' := by
  obtain ⟨name, hname, data, hdata, rfl⟩ := h
  obtain ⟨name', hname', data', hdata', rfl⟩ := h'
  obtain rfl := Option.some.inj (hname.symm.trans hname')
  obtain rfl := Except.ok.inj (hdata.symm.trans hdata')
  rfl

/-- Having a peer sign sends one order, for the key as it is encoded. -/
theorem sends_issueRemote {name : String} (hname : name ∈ spec.policy) (subject : PublicKey) :
    Sends (n.IsOrder peer spec subject) (n.issueRemote peer name spec.request subject) := by
  unfold issueRemote
  refine Sends.after (.ofOutcome _) fun channel => Sends.backendAt_bind fun data hdata => ?_
  have hsign := channel.sends_sign peer name
    { spec.request with publicKey := some (.inline data), csr := none }
  have horder : Sends (n.IsOrder peer spec subject) (channel.sign peer name
      { spec.request with publicKey := some (.inline data), csr := none }) :=
    hsign.mono fun e he => ⟨name, hname, data, hdata, he⟩
  refine (horder.atStage _).before fun signed => ?_
  exact (Keeps.backendAt _ _).bind fun _ => (Site.silent_keepCopy _ _).bind fun _ => .pure _

theorem sends_carryOut {p : Plan} {name : String} {identity : SignerIdentity}
    (hname : name ∈ spec.policy) (hsigner : p.signer = .peer peer name identity) :
    Sends (n.IsOrder peer spec p.subject.publicKey) (n.carryOut spec p) := by
  unfold carryOut settle
  refine Sends.after (Keeps.world.bind fun _ => .ofOutcome _) fun decision => ?_
  refine Site.sends_settle ?_ fun c => Site.keeps_encode _ _ _ _ _
  rw [hsigner]
  exact sends_issueRemote hname p.subject.publicKey

/-! ## The subject's key -/

/-- The public key that the material of a request comes to. -/
def suppliedKey (n : Node σ) (r : CertificateRequest) (w : World σ) : Option PublicKey :=
  if r.subjectMaterial = [] then none
  else ((n.site.subjectKey r default).result w).toOption.map (·.publicKey)

/-- The authority's key stands in only where there is no material. -/
theorem subjectKey_congr {r : CertificateRequest} (h : r.subjectMaterial ≠ [])
    (authority authority' : PublicKey) :
    n.site.subjectKey r authority = n.site.subjectKey r authority' := by
  unfold Site.subjectKey
  split
  · rfl
  · rfl
  · rfl
  · rename_i hpublic hprivate hcsr
    exact absurd (by simp [CertificateRequest.subjectMaterial, hpublic, hprivate, hcsr]) h

theorem suppliedKey_of_subjectFor {r : CertificateRequest} {name : String}
    {identity : SignerIdentity} {w : World σ} {subject : SubjectKey}
    (h : (n.subjectFor r (.peer peer name identity)).result w = .ok subject) :
    n.suppliedKey r w = some subject.publicKey := by
  rw [subjectFor_peer] at h
  split at h
  · cases h
  · rename_i hsome
    have hmaterial : r.subjectMaterial ≠ [] := by
      intro hnone
      apply hsome
      simp only [CertificateRequest.subjectMaterial, List.append_eq_nil_iff,
        Option.toList_eq_nil_iff] at hnone
      simp [hnone]
    rw [suppliedKey, if_neg hmaterial, subjectKey_congr hmaterial default identity.publicKey, h]
    rfl

/-- Neither a policy nor the configuration says whose key to certify. -/
theorem suppliedKey_resolved (n : Node σ) (r : CertificateRequest) (q : Option SigningPolicy)
    (w : World σ) : n.suppliedKey (n.withDefaults (r.under q)) w = n.suppliedKey r w := by
  cases q with
  | none => rfl
  | some q =>
    have happlied : ∃ subject attributes principals, q.applyIdentity r =
        { r with subject, nameAttributes := attributes, principals } := by
      unfold SigningPolicy.applyIdentity
      cases q.kind
      · exact ⟨_, _, _, rfl⟩
      · exact ⟨_, _, _, rfl⟩
    obtain ⟨subject, attributes, principals, hidentity⟩ := happlied
    show n.suppliedKey (n.withDefaults (q.resolve r)) w = _
    rw [SigningPolicy.resolve, hidentity]
    rfl

/-! ## Terms -/

/-- What a peer tells: its policy by name, and as whom it signs. -/
structure Terms where
  name : String
  description : PolicyDescription
  identity : SignerIdentity

/-- Asks a peer for its terms, unless its policy is known. -/
def askTerms (n : Node σ) (peer : String) (kind : CertificateKind) (policy : Option String) :
    Run σ Terms := do
  let name ← Run.ofOption (.staged .loadingPolicy (.policy (.notFound ""))) policy
  let channel ← Run.ofOption (.config (.noChannel peer)) n.channel
  let key : PolicyKey := ⟨peer, kind, name⟩
  let description ← Run.atStage .loadingPolicy (Run.knownPolicy key (channel.policy key))
  let identity ← n.remoteIdentity kind description
  return { name, description, identity }

theorem resolve_eq_askTerms (n : Node σ) {spec : CertificateSpec}
    (hpeer : spec.authority = some peer) :
    n.resolve spec = n.askTerms peer spec.request.kind spec.policy >>= fun terms =>
      pure (n.withDefaults (spec.request.under terms.description.policy),
        .peer peer terms.name terms.identity) := by
  simp only [resolve, hpeer, resolveRemote, askTerms, bind_assoc, pure_bind]

/-- Terms are asked for by family and name. -/
theorem sends_askTerms (kind : CertificateKind) (policy : Option String) :
    Sends (fun event => ∃ name ∈ policy,
        (PolicyKey.inquiry ⟨peer, kind, name⟩).IsSent peer event)
      (n.askTerms peer kind policy) := by
  refine Sends.ofOption_bind fun name hname => Sends.after (.ofOutcome _) fun channel => ?_
  refine Sends.before ?_ fun description => (keeps_remoteIdentity _ _).bind fun _ => .pure _
  have hpolicy := channel.sends_policy ⟨peer, kind, name⟩
  exact (hpolicy.knownPolicy.mono fun e he => ⟨name, hname, he⟩).atStage _

section

variable {s t : RunState σ} {p : Plan}

theorem name_of_askTerms {kind : CertificateKind} {policy : Option String} {terms : Terms}
    (h : (n.askTerms peer kind policy).run.run s = (.ok terms, t)) : terms.name ∈ policy := by
  simp only [askTerms, bind_eq_ok_iff, ofOption_eq_ok_iff, pure_eq_ok_iff] at h
  obtain ⟨name, _, ⟨hname, -⟩, _, _, -, _, _, -, _, _, -, rfl, -⟩ := h
  exact hname

theorem resolve_of_authority (hpeer : spec.authority = some peer) (s : RunState σ) :
    ((n.resolve spec).run.run s).2 =
      ((n.askTerms peer spec.request.kind spec.policy).run.run s).2 := by
  rw [resolve_eq_askTerms n hpeer, Run.run_bind]
  obtain ⟨_ | terms, t⟩ := (n.askTerms peer spec.request.kind spec.policy).run.run s
  · rfl
  · rfl

/-- Resolving a request sends an inquiry at most. -/
theorem sent_resolve (hpeer : spec.authority = some peer) (s : RunState σ) :
    ((n.resolve spec).run.run s).2.sent = s.sent ∨ ∃ e,
      (∃ name ∈ spec.policy, (PolicyKey.inquiry ⟨peer, spec.request.kind, name⟩).IsSent peer e) ∧
        ((n.resolve spec).run.run s).2.sent = s.sent ++ [e] := by
  rw [resolve_of_authority hpeer]
  exact sends_askTerms spec.request.kind spec.policy s

/-- After the terms, planning sends nothing. -/
theorem sent_of_plan (n : Node σ) (spec : CertificateSpec) (s : RunState σ) :
    ((n.plan spec).run.run s).2.sent = ((n.resolve spec).run.run s).2.sent := by
  refine Run.sent_bind_of_silent (fun resolved => ?_) s
  have hread (path : String) : Event.IsLocal (.read path) := trivial
  exact (keeps_subjectFor hread _ _).bind fun _ => (Site.keeps_existing hread _ _).bind fun _ =>
    (Site.keeps_draft _ _ _).bind fun _ => (Site.keeps_chain hread).bind fun _ => .pure _

/-- Beyond the terms, a run for a certificate sends one order at most, for the key that the material
of the request comes to. -/
theorem sent_certificate (hpeer : spec.authority = some peer) (s : RunState σ) :
    let known := ((n.resolve spec).run.run s).2
    ((n.certificate spec).run.run s).2.sent = known.sent ∨
      ∃ key ∈ n.suppliedKey spec.request known.world, ∃ e, n.IsOrder peer spec key e ∧
        ((n.certificate spec).run.run s).2.sent = known.sent ++ [e] := by
  intro known
  have hplanned : ((n.plan spec).run.run s).2.sent = known.sent := sent_of_plan n spec s
  rw [certificate_eq, Run.run_bind]
  cases hplan : (n.plan spec).run.run s with
  | mk result u =>
    rw [hplan] at hplanned
    cases result with
    | error fault => exact .inl hplanned
    | ok p =>
      obtain ⟨t, hresolve, hplans, -⟩ := of_plan hplan
      have hknown : known = t := congrArg Prod.snd hresolve
      rw [resolve_eq_askTerms n hpeer, bind_eq_ok_iff] at hresolve
      obtain ⟨terms, u', hask, hresolved⟩ := hresolve
      obtain ⟨hterms, rfl⟩ := pure_eq_ok_iff.1 hresolved
      obtain ⟨hrequest, hsigner⟩ := Prod.mk.inj hterms
      have hsubject := hplans.subject
      rw [← hrequest, ← hsigner, ← hknown] at hsubject
      have hkey := suppliedKey_of_subjectFor hsubject
      rw [suppliedKey_resolved] at hkey
      have hsends := sends_carryOut (n := n) (name_of_askTerms hask) hsigner.symm u
      rw [hplanned] at hsends
      exact hsends.imp_right fun ⟨e, he, hsent⟩ => ⟨_, hkey, e, he, hsent⟩

end

end Node

/-! ## What is shared -/

/-- The request without the material of the subject's key, and without what is for this node: the
signing key, the directory for copies, the certificates to append, the password of the container,
and the certificates to list. -/
def CertificateRequest.shared (r : CertificateRequest) : CertificateRequest :=
  { r with
    publicKey := none
    privateKey := none
    privateKeyPassphrase := none
    csr := none
    signingPrivateKey := none
    signingPrivateKeyPassphrase := none
    copypath := none
    appendCerts := []
    pkcs12Passphrase := none
    revoked := [] }

def CertificateSpec.shared (spec : CertificateSpec) : CertificateSpec :=
  { spec with request := spec.request.shared }

namespace Node

variable {σ : Type} {n : Node σ} {spec spec' : CertificateSpec} {peer : String}

/-- An order tells of the specification only what is shared. -/
theorem isOrder_shared {key : PublicKey} {e : Event} :
    n.IsOrder peer spec.shared key e ↔ n.IsOrder peer spec key e := Iff.rfl

/-- **Local secrets never leave the requester.** Two specifications may differ in how they supply
the subject's key, and in everything a node keeps for itself. As long as they come to the same public
key, a peer is sent the same envelopes for both: one run may send an order where the other has no
need of it or fails, but where both send an envelope it is the same one.

What is sent is an inquiry, which tells of the specification only its family and policy, and an
order, which tells the public key and what is shared. -/
theorem envelopes_agree (hpeer : spec.authority = some peer)
    (hshared : spec.shared = spec'.shared) (s : RunState σ)
    (hkey : let w := ((n.resolve spec).run.run s).2.world
      ∀ key ∈ n.suppliedKey spec.request w, ∀ key' ∈ n.suppliedKey spec'.request w, key = key') :
    let sent := ((n.certificate spec).run.run s).2.sent
    let sent' := ((n.certificate spec').run.run s).2.sent
    (sent <+: sent' ∨ sent' <+: sent) ∧
      ∀ e ∈ sent, e ∈ s.sent ∨
        (∃ name ∈ spec.policy,
          (PolicyKey.inquiry ⟨peer, spec.request.kind, name⟩).IsSent peer e) ∨
        ∃ key ∈ n.suppliedKey spec.request ((n.resolve spec).run.run s).2.world,
          n.IsOrder peer spec.shared key e := by
  intro sent sent'
  have hpeer' : spec'.authority = some peer :=
    (congrArg CertificateSpec.authority hshared).symm.trans hpeer
  have hkind : spec.shared.request.kind = spec'.shared.request.kind := by rw [hshared]
  have hpolicy : spec.shared.policy = spec'.shared.policy := by rw [hshared]
  let known := ((n.resolve spec).run.run s).2
  have hknown : ((n.resolve spec').run.run s).2 = known := by
    show _ = ((n.resolve spec).run.run s).2
    rw [resolve_of_authority hpeer, resolve_of_authority hpeer']
    exact congrArg₂ (fun kind policy => ((n.askTerms peer kind policy).run.run s).2) hkind.symm
      hpolicy.symm
  have hsent : sent = known.sent ∨ ∃ key ∈ n.suppliedKey spec.request known.world, ∃ e,
      n.IsOrder peer spec key e ∧ sent = known.sent ++ [e] := sent_certificate hpeer s
  have hsent' := sent_certificate (n := n) hpeer' s
  dsimp only at hsent'
  rw [hknown] at hsent'
  constructor
  · rcases hsent with hnone | ⟨key, hsupplied, e, he, hone⟩
    · refine .inl ?_
      rcases hsent' with hnone' | ⟨_, -, e', -, hone'⟩
      · exact ⟨[], by rw [List.append_nil, hnone]; exact hnone'.symm⟩
      · exact ⟨[e'], by rw [hnone]; exact hone'.symm⟩
    · refine .inr ?_
      rcases hsent' with hnone' | ⟨key', hsupplied', e', he', hone'⟩
      · exact ⟨[e], by rw [hone]; exact congrArg (· ++ [e]) hnone'⟩
      · obtain rfl := hkey key hsupplied key' hsupplied'
        have he'' : n.IsOrder peer spec key e' := by
          rw [← isOrder_shared, hshared, isOrder_shared]
          exact he'
        obtain rfl := he.unique he''
        exact ⟨[], by rw [List.append_nil, hone]; exact hone'⟩
  · intro e he
    have hearlier : e ∈ known.sent → e ∈ s.sent ∨ ∃ name ∈ spec.policy,
        (PolicyKey.inquiry ⟨peer, spec.request.kind, name⟩).IsSent peer e := by
      intro hmem
      rcases sent_resolve (n := n) hpeer s with hnone | ⟨inquiry, hinquiry, hone⟩
      · exact .inl (hnone ▸ hmem)
      · rw [hone, List.mem_append, List.mem_singleton] at hmem
        rcases hmem with hold | rfl
        · exact .inl hold
        · exact .inr hinquiry
    rcases hsent with hnone | ⟨key, hsupplied, order, horder, hone⟩
    · exact (hearlier (hnone ▸ he)).imp_right .inl
    · rw [hone, List.mem_append, List.mem_singleton] at he
      rcases he with hmem | rfl
      · exact (hearlier hmem).imp_right .inl
      · exact .inr (.inr ⟨key, hsupplied, horder⟩)

section

open X509 (houseRun houseKey)

/-- The branch has the private key, and much else that is for itself. -/
def keySpec : CertificateSpec :=
  { branchSpec with
    request := { branchSpec.request with
      publicKey := none
      privateKey := some (.inline houseKey.encoded)
      signingPrivateKey := some (.path "/branch.key")
      copypath := some "/copies"
      pkcs12Passphrase := some "secret" } }

/-- The branch has the public key only. -/
def publicSpec (data : Bytes) : CertificateSpec :=
  { branchSpec with request := { branchSpec.request with publicKey := some (.inline data) } }

theorem loadPrivateKey_houseKey : X509.loadPrivateKey houseKey.encoded none = .ok houseKey :=
  Authority.loadPrivateKey_openKey none

theorem suppliedKey_keySpec {key : PublicKey} (h : X509.derivePublicKey houseKey = .ok key)
    (w : World FileStore) : branch.suppliedKey keySpec.request w = some key := by
  have hrun : (branch.site.subjectKey keySpec.request default).run.run ⟨w, [], {}⟩ =
      (.ok ⟨key, some houseKey⟩, ⟨w, [], {}⟩) := by
    unfold Site.subjectKey
    rw [show keySpec.request.publicKey = none from rfl,
      show keySpec.request.privateKey = some (.inline houseKey.encoded) from rfl]
    simp only [bind_eq_ok_iff, Run.backendAt_eq_ok_iff, pure_eq_ok_iff]
    exact ⟨houseKey.encoded, _, rfl, houseKey, _, ⟨loadPrivateKey_houseKey, rfl⟩, key, _, ⟨h, rfl⟩, rfl, rfl⟩
  have hresult : (branch.site.subjectKey keySpec.request default).result w =
      .ok ⟨key, some houseKey⟩ := congrArg Prod.fst hrun
  rw [suppliedKey, if_neg (by decide), hresult]
  rfl

theorem suppliedKey_publicSpec {key : PublicKey} {data : Bytes}
    (h : X509.loadPublicKey data = .ok key) (w : World FileStore) :
    branch.suppliedKey (publicSpec data).request w = some key := by
  have hrun : (branch.site.subjectKey (publicSpec data).request default).run.run ⟨w, [], {}⟩ =
      (.ok ⟨key, none⟩, ⟨w, [], {}⟩) := by
    unfold Site.subjectKey
    rw [show (publicSpec data).request.publicKey = some (.inline data) from rfl]
    simp only [bind_eq_ok_iff, Run.backendAt_eq_ok_iff, pure_eq_ok_iff]
    exact ⟨data, _, rfl, key, _, ⟨h, rfl⟩, rfl, rfl⟩
  have hresult : (branch.site.subjectKey (publicSpec data).request default).result w =
      .ok ⟨key, none⟩ := congrArg Prod.fst hrun
  have hmaterial : (publicSpec data).request.subjectMaterial ≠ [] := List.cons_ne_nil _ _
  rw [suppliedKey, if_neg hmaterial, hresult]
  rfl

/-- The office cannot tell whether the branch has the private key. -/
theorem envelopes_agree_of_branch :
    ∃ (data : Bytes) (key : PublicKey),
      let w := ((branch.resolve keySpec).run.run branchStart).2.world
      let sent := ((branch.certificate keySpec).run.run branchStart).2.sent
      let sent' := ((branch.certificate (publicSpec data)).run.run branchStart).2.sent
      keySpec.authority = some "office" ∧ keySpec.shared = (publicSpec data).shared ∧
      branch.suppliedKey keySpec.request w = some key ∧
      branch.suppliedKey (publicSpec data).request w = some key ∧
      (sent <+: sent' ∨ sent' <+: sent) := by
  obtain ⟨h, hrun⟩ := Outcome.exists_eq_ok_of_isOk X509.houseRun_isOk
  have hsigner := derivePublicKey_house hrun
  have hhandle : CertificateKind.x509.IsHandle h.signer :=
    X509.isHandle_of_derivePublicKey loadPrivateKey_houseKey hsigner
  obtain ⟨data, -, hload⟩ := CertificateKind.loadPublicKey_encodePublicKey hhandle
  have hkey := suppliedKey_keySpec hsigner
  have hkey' := suppliedKey_publicSpec hload
  refine ⟨data, h.signer, rfl, rfl, hkey _, hkey' _, ?_⟩
  have hpeer : keySpec.authority = some "office" := rfl
  have hshared : keySpec.shared = (publicSpec data).shared := rfl
  refine (envelopes_agree hpeer hshared branchStart ?_).1
  intro w key hsupplied key' hsupplied'
  rw [hkey] at hsupplied
  rw [hkey'] at hsupplied'
  exact Option.some.inj (hsupplied.symm.trans hsupplied')

end

end Node
end CertAuthority
