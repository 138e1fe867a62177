import CertAuthority.Proofs.Managed.Plans
import CertAuthority.Proofs.Merge.Terms
import CertAuthority.Proofs.Peer.Descriptions
import CertAuthority.Proofs.Policy.Lookups

/-!
# Certificates that a remote authority signs

A requester resolves its request under what it was told of a policy, and drafts what it wants. The
authority resolves what it was sent under the policy itself, and drafts that. Both drafts are for
the same content. But the requester fills in the digest of its own configuration where none is
named, and the authority does not learn of it.

* `Node.Asks` : a requester that has an authority sign under one of its policies;
* `CertificateSpec.order` : the envelope that asks for the certificate;
* `Node.run_resolve` : how the requester resolves its request;
* `Node.of_issueFor` : where a certificate comes from that the requester gets;
-/

namespace CertAuthority

open Run (Adds Keeps bind_eq_ok_iff backendAt_eq_ok_iff pure_eq_ok_iff ofOption_eq_ok_iff
  atStage_eq_ok_iff)

/-! ## Knowledge -/

/-- Whatever is known of the policy tells this. -/
def PolicyCache.Tells (known : PolicyCache) (key : PolicyKey) (q : SigningPolicy)
    (signer : SignerIdentity) : Prop :=
  ∀ d, known.get? key = some d → d.Tells q signer

namespace Authority

variable {σ : Type} {a : Authority σ} {e e' : RequestEnvelope} {q : SigningPolicy}

/-- Whether an envelope may be served depends on whose it is and what policy it names. -/
theorem authorize_eq (hkind : e.request.kind = e'.request.kind)
    (hname : e.policyName = e'.policyName) (hidentity : e.identity = e'.identity) :
    a.authorize e = a.authorize e' := by
  simp only [authorize, hkind, hname, hidentity]

end Authority

/-! ## Requesters -/

/-- The envelope that asks for the certificate of a key. -/
def CertificateSpec.order (spec : CertificateSpec) (policy : String) (data : Bytes) :
    RequestEnvelope where
  policyName := policy
  request := { spec.request with publicKey := some (.inline data), csr := none }.forRemote

theorem CertificateSpec.isWritable_order {spec : CertificateSpec}
    (h : spec.request.forRemote.IsWritable) (policy : String) (data : Bytes) :
    (spec.order policy data).request.IsWritable :=
  ⟨h.options, h.extensions, h.notBefore, h.notAfter, h.ttl, h.revoked⟩

theorem CertificateRequest.IsWritable.confined {r : CertificateRequest} (h : r.IsWritable) :
    r.confined.IsWritable :=
  ⟨h.options, h.extensions, h.notBefore, h.notAfter, h.ttl, List.forall_mem_nil _⟩

namespace Node

variable {σ : Type}

/-- The node has its certificate signed by this authority under this policy. -/
structure Asks (n : Node σ) (a : Authority σ) (identity : Option String) (spec : CertificateSpec)
    (key : PolicyKey) (q : SigningPolicy) : Prop where
  backend : n.site.backend = CertificateKind.backend
  authorityBackend : a.site.backend = CertificateKind.backend
  channel : ∃ authorities, n.channel = some (Authority.channel authorities identity) ∧
    authorities.lookup key.peer = some a
  servable : a.store.IsServable
  authority : spec.authority = some key.peer
  policy : spec.policy = some key.policy
  kind : spec.request.kind = key.kind
  policyKind : q.kind = key.kind
  writable : spec.request.forRemote.IsWritable
  admitted : a.authorize { policyName := key.policy, request := .new key.kind, identity } = .ok q

variable {n : Node σ} {a : Authority σ} {identity : Option String} {spec : CertificateSpec}
  {key : PolicyKey} {q : SigningPolicy} {ca : SigningMaterial} {s t u v : RunState σ}

/-! ## Resolving -/

theorem run_remoteIdentity {d : PolicyDescription} {signer : SignerIdentity}
    (hb : n.site.backend = CertificateKind.backend) (h : d.Tells q signer) :
    (n.remoteIdentity q.kind d).run.run s = (.ok signer, s) := by
  obtain ⟨keyData, hkey, hload⟩ := h.publicKey
  rw [← hb] at hload
  rcases h.certificate with ⟨hnone, hundescribed⟩ | ⟨c, data, loaded, hsome, hdescribed, hloaded, hc⟩
  · simp only [remoteIdentity, hkey, hundescribed, bind_eq_ok_iff, backendAt_eq_ok_iff,
      pure_eq_ok_iff]
    exact ⟨signer.publicKey, s, ⟨hload, rfl⟩, by rw [← hnone], rfl⟩
  · rw [← hb] at hloaded
    simp only [remoteIdentity, hkey, hdescribed, bind_eq_ok_iff, backendAt_eq_ok_iff,
      pure_eq_ok_iff]
    exact ⟨signer.publicKey, s, ⟨hload, rfl⟩, loaded, s, ⟨hloaded, rfl⟩, by rw [hc, ← hsome], rfl⟩

/-- The authority tells its policy to whom it admits. -/
theorem Asks.run_policy (h : n.Asks a identity spec key q) (hs : a.SignsWith q ca s.world.files)
    {authorities : List (String × Authority σ)} (ha : authorities.lookup key.peer = some a) :
    ∃ d t, ((Authority.channel authorities identity).policy key).run.run s = (.ok d, t) ∧
      d.Tells q ca.identity ∧ t.world.files = s.world.files ∧ t.world.now = s.world.now := by
  let e : RequestEnvelope :=
    { policyName := key.policy, request := .new key.kind, policyOnly := true }
  have hq : a.authorize { e with identity } = .ok q :=
    (Authority.authorize_eq rfl rfl rfl).trans h.admitted
  obtain ⟨d, t, hdescribe, htells, hfiles, hnow⟩ :=
    Authority.run_describe (s := ⟨s.world, [], {}⟩) h.authorityBackend hs
  have hperform : (a.perform q { e with identity }).run.run ⟨s.world, [], {}⟩ =
      (.ok (.policy d), t) := Run.map_eq_ok_iff.2 ⟨d, hdescribe, rfl⟩
  have hwritable : e.request.IsWritable := CertificateRequest.isWritable_new key.kind
  have hrequest :
      ((Authority.channel authorities identity).request key.peer e).run.run s = _ :=
    Authority.run_request ha h.servable hwritable s
  rw [Authority.run_handle hq, hperform] at hrequest
  exact ⟨d, _, bind_eq_ok_iff.2 ⟨.policy d, _, hrequest, rfl⟩, htells, hfiles, hnow⟩

/-- The requester resolves its request under the policy without its secrets, and knows as whom the
authority signs. -/
theorem Asks.run_resolve (h : n.Asks a identity spec key q)
    (hs : a.SignsWith q ca s.world.files) (hknown : s.policies.Tells key q ca.identity) :
    ∃ t, (n.resolve spec).run.run s =
        (.ok (n.withDefaults (spec.request.under q.redacted),
          .peer key.peer key.policy ca.identity), t) ∧
      t.world.files = s.world.files ∧ t.world.now = s.world.now ∧
      t.policies.Tells key q ca.identity := by
  obtain ⟨authorities, hchannel, ha⟩ := h.channel
  obtain ⟨d, t, hpolicy, htells, hfiles, hnow, ht⟩ : ∃ d t,
      (Run.knownPolicy key ((Authority.channel authorities identity).policy key)).run.run s =
        (.ok d, t) ∧ d.Tells q ca.identity ∧ t.world.files = s.world.files ∧
      t.world.now = s.world.now ∧ t.policies.Tells key q ca.identity := by
    cases hget : s.policies.get? key with
    | some d =>
      refine ⟨d, s, ?_, hknown d hget, rfl, rfl, hknown⟩
      rw [Run.run_knownPolicy, hget]
    | none =>
      obtain ⟨d, t, hfetch, htells, hfiles, hnow⟩ := h.run_policy hs ha
      refine ⟨d, { t with policies := s.policies.insert key d }, ?_, htells, hfiles, hnow, ?_⟩
      · rw [Run.run_knownPolicy, hget, hfetch]
      · intro d' hd'
        obtain rfl := Option.some.inj ((PolicyCache.get?_insert d hget).symm.trans hd')
        exact htells
  have hkey : (⟨key.peer, spec.request.kind, key.policy⟩ : PolicyKey) = key := by rw [h.kind]
  have hkind : spec.request.kind = q.kind := h.kind.trans h.policyKind.symm
  refine ⟨t, ?_, hfiles, hnow, ht⟩
  simp only [resolve, h.authority, resolveRemote, bind_eq_ok_iff, ofOption_eq_ok_iff,
    atStage_eq_ok_iff, pure_eq_ok_iff]
  refine ⟨key.policy, s, ⟨h.policy, rfl⟩, _, s, ⟨hchannel, rfl⟩, d, t, ?_, ca.identity, t, ?_, ?_,
    rfl⟩
  · rw [hkey]
    exact hpolicy
  · rw [hkind]
    exact run_remoteIdentity h.backend htells
  · rw [htells.policy]

/-! ## Planning -/

theorem isHandle_of_subjectKey {site : Site σ} {r : CertificateRequest} {w : World σ}
    {authority : PublicKey} {subject : SubjectKey} (hb : site.backend = CertificateKind.backend)
    (hauthority : r.kind.IsHandle authority)
    (h : (site.subjectKey r authority).result w = .ok subject) :
    r.kind.IsHandle subject.publicKey := by
  obtain ⟨t, hrun, -⟩ := (Site.looks_subjectKey (s := site) (r := r) authority).run_eq ⟨w, [], {}⟩
  rw [h] at hrun
  unfold Site.subjectKey at hrun
  split at hrun
  all_goals simp only [bind_eq_ok_iff, backendAt_eq_ok_iff, pure_eq_ok_iff, hb] at hrun
  · obtain ⟨_, _, -, _, _, ⟨hload, -⟩, rfl, -⟩ := hrun
    exact CertificateKind.isHandle_of_loadPublicKey hload
  · obtain ⟨_, _, -, _, _, ⟨hkey, -⟩, _, _, ⟨hderive, -⟩, rfl, -⟩ := hrun
    exact CertificateKind.isHandle_of_derivePublicKey hkey hderive
  · obtain ⟨_, _, -, _, _, ⟨hload, -⟩, rfl, -⟩ := hrun
    exact CertificateKind.isHandle_of_loadCsr hload
  · obtain ⟨rfl, -⟩ := hrun
    exact hauthority

theorem isHandle_of_subjectFor {r : CertificateRequest} {w : World σ} {peer policy : String}
    {signer : SignerIdentity} {subject : SubjectKey}
    (hb : n.site.backend = CertificateKind.backend) (hsigner : r.kind.IsHandle signer.publicKey)
    (h : (n.subjectFor r (.peer peer policy signer)).result w = .ok subject) :
    r.kind.IsHandle subject.publicKey := by
  rw [subjectFor_peer] at h
  split at h
  · cases h
  · exact isHandle_of_subjectKey hb hsigner h

/-- What a plan is that was made to have the authority sign. -/
structure Plan.IsRemote (p : Plan) (n : Node σ) (spec : CertificateSpec) (key : PolicyKey)
    (q : SigningPolicy) (authority : SignerIdentity) : Prop where
  request : p.request = n.withDefaults (spec.request.under q.redacted)
  signer : p.signer = .peer key.peer key.policy authority
  subject : key.kind.IsHandle p.subject.publicKey
  draft : ∃ m, key.kind.backend.buildDraft m .certificate p.request p.subject.publicKey authority =
    .ok p.desired.draft

theorem Asks.of_plan {p : Plan} (h : n.Asks a identity spec key q)
    (hs : a.SignsWith q ca s.world.files) (hknown : s.policies.Tells key q ca.identity)
    (hp : (n.plan spec).run.run s = (.ok p, u)) :
    p.IsRemote n spec key q ca.identity ∧ u.world.files = s.world.files ∧
      u.world.now = s.world.now ∧ u.policies.Tells key q ca.identity := by
  obtain ⟨t, hresolve, hplans, hfiles, hnow, hpolicies⟩ := Node.of_plan hp
  obtain ⟨t', hresolve', hfiles', hnow', hknown'⟩ := h.run_resolve hs hknown
  obtain ⟨hvalue, rfl⟩ := Run.ok_inj hresolve hresolve'
  obtain ⟨hrequest, hsigner⟩ := Prod.mk.inj hvalue
  have hkind : p.request.kind = key.kind := by
    rw [hrequest]
    exact (Authority.kind_under _ _).trans h.kind
  have hloaded := hs.isLoaded h.authorityBackend s.world
  rw [h.policyKind] at hloaded
  obtain ⟨hsubject, m, -, hdraft⟩ := hplans
  rw [hsigner] at hsubject hdraft
  rw [h.backend, hkind] at hdraft
  have hhandle := isHandle_of_subjectFor h.backend (hkind ▸ hloaded.publicKey) hsubject
  refine ⟨⟨hrequest, hsigner, hkind ▸ hhandle, m, hdraft⟩, ?_, ?_, ?_⟩
  · exact hfiles.trans hfiles'
  · exact hnow.trans hnow'
  · rw [hpolicies]
    exact hknown'

/-! ## Serving an order -/

open Authority (resolved kind_under)

variable {data : Bytes} {subject : PublicKey} {w : World σ} {y : Draft} {c : Certificate}

theorem publicKey_resolved_order (spec : CertificateSpec) (policy : String) (q : SigningPolicy)
    (data : Bytes) : (resolved q (spec.order policy data)).publicKey = some (.inline data) := by
  cases hk : q.kind <;>
    simp [resolved, CertificateSpec.order, CertificateRequest.forRemote,
      CertificateRequest.confined, CertificateRequest.inlineOnly, CertificateRequest.under,
      SigningPolicy.resolve, SigningPolicy.applyOverrides, SigningPolicy.applyIdentity, hk,
      Material.isInline]

theorem Asks.kind_resolved (h : n.Asks a identity spec key q) (data : Bytes) :
    (resolved q (spec.order key.policy data)).kind = key.kind :=
  (kind_under q _).trans h.kind

theorem Asks.signer_resolved (h : n.Asks a identity spec key q) (hs : a.SignsWith q ca w.files)
    (data : Bytes) :
    (a.site.signer (resolved q (spec.order key.policy data))).result w = .ok (some ca) := by
  rw [← hs w rfl]
  refine congrArg (Run.result · w) (Site.signer_eq_of_owns (Authority.owns_resolved _ _)
    (SigningPolicy.owns_confined q (.new q.kind)) ?_)
  exact (h.kind_resolved data).trans (h.policyKind.symm.trans (kind_under q (.new q.kind)).symm)

theorem Asks.subjectKey_resolved (h : n.Asks a identity spec key q)
    (hdata : key.kind.backend.loadPublicKey data = .ok subject) (authority : PublicKey) :
    (a.site.subjectKey (resolved q (spec.order key.policy data)) authority).result w =
      .ok ⟨subject, none⟩ := by
  have hrun : (a.site.subjectKey (resolved q (spec.order key.policy data)) authority).run.run
      ⟨w, [], {}⟩ = (.ok ⟨subject, none⟩, ⟨w, [], {}⟩) := by
    unfold Site.subjectKey
    rw [publicKey_resolved_order, h.authorityBackend, h.kind_resolved]
    simp only [Site.material, bind_eq_ok_iff, backendAt_eq_ok_iff, pure_eq_ok_iff]
    exact ⟨data, _, ⟨rfl, rfl⟩, subject, _, ⟨hdata, rfl⟩, rfl, rfl⟩
  exact congrArg Prod.fst hrun

/-- The authority drafts for the key that it was sent, and as itself. -/
theorem Asks.of_drafts (h : n.Asks a identity spec key q) (hs : a.SignsWith q ca w.files)
    (hdata : key.kind.backend.loadPublicKey data = .ok subject) {signing : SigningMaterial}
    (hy : a.site.Drafts (resolved q (spec.order key.policy data)) w signing y) :
    signing = ca ∧ ∃ m : Moment, m.now = w.now ∧ key.kind.backend.buildDraft m .certificate
      (resolved q (spec.order key.policy data)) subject ca.identity = .ok y := by
  obtain ⟨hsigner, found, m, hsubject, hnow, hdraft⟩ := hy
  rw [h.signer_resolved hs] at hsigner
  obtain rfl := Option.some.inj (Except.ok.inj hsigner)
  rw [h.subjectKey_resolved hdata] at hsubject
  obtain rfl := Except.ok.inj hsubject
  rw [h.authorityBackend, h.kind_resolved] at hdraft
  exact ⟨rfl, m, hnow, hdraft⟩

theorem Asks.serve_order (h : n.Asks a identity spec key q) (data : Bytes) (w : World σ) :
    let run := (ReplyData.certificate <$> a.certify q (spec.order key.policy data).request).run.run
      ⟨w, [], {}⟩
    a.serve { spec.order key.policy data with identity } w = (Authority.replyTo run.1, run.2) := by
  have hq : a.authorize { spec.order key.policy data with identity } = .ok q := by
    rw [← h.admitted]
    exact Authority.authorize_eq h.kind rfl rfl
  exact Authority.serve_of_authorize hq w

/-- All that is signed in serving an order is a draft for it. -/
theorem Asks.of_mem_journal (h : n.Asks a identity spec key q) (hs : a.SignsWith q ca w.files)
    (hdata : key.kind.backend.loadPublicKey data = .ok subject)
    (hy : Event.sign y ∈ (a.serve { spec.order key.policy data with identity } w).2.journal) :
    ∃ m : Moment, m.now = w.now ∧ key.kind.backend.buildDraft m .certificate
      (resolved q (spec.order key.policy data)) subject ca.identity = .ok y := by
  have hnone (e : Event) : ¬ (e ≠ e) := fun hne => hne rfl
  rw [h.serve_order, map_eq_pure_bind] at hy
  have hpure (c : Bytes) : Adds (· ≠ .sign y)
      (pure (ReplyData.certificate c) : Run σ ReplyData) := .pure _
  have hencode (c : Certificate) : Adds (· ≠ .sign y)
      (a.site.encodePlain .encoding (resolved q (spec.order key.policy data)).kind c) :=
    Site.keeps_encode _ _ _ _ _
  have hcertify := Keeps.of_mem_journal_bind hpure (hnone _) hy
  have hissue := Keeps.of_mem_journal_bind hencode (hnone _) hcertify
  rcases Site.drafts_of_mem_journal hissue with hold | ⟨_, hdrafts⟩
  · cases hold
  · exact (h.of_drafts hs hdata hdrafts).2

/-- Nobody is asked for anything but the order. -/
theorem adds_issueFor {d : Draft} {peer policy : String} {signer : SignerIdentity}
    (hencode : (n.site.backend spec.request.kind).encodePublicKey subject = .ok data) :
    Adds (fun e => e.IsLocal ∨ e = .ask peer signProcedure (spec.order policy data).toJson)
      (n.issueFor spec.request d (.peer peer policy signer) subject) := by
  refine keeps_issueRemote (fun channel _ sent hsent => ?_)
    fun _ _ _ _ => fun _ _ => ⟨.inl trivial, fun _ _ => rfl⟩
  obtain rfl := Except.ok.inj (hencode.symm.trans hsent)
  exact ⟨.inr rfl, fun _ _ => rfl⟩

/-- A certificate that the requester gets was signed by the authority, from a draft for its order,
with the digest that the authority came to. -/
theorem Asks.of_issueFor {d : Draft} {signer : SignerIdentity}
    (h : n.Asks a identity spec key q) (hs : a.SignsWith q ca u.world.files)
    (hsubject : key.kind.IsHandle subject)
    (hc : (n.issueFor spec.request d (.peer key.peer key.policy signer) subject).run.run u =
      (.ok c, v)) :
    ∃ data y m m' m'' signed b loaded,
      key.kind.backend.encodePublicKey subject = .ok data ∧ m.now = u.world.now ∧
      key.kind.backend.buildDraft m .certificate (resolved q (spec.order key.policy data)) subject
        ca.identity = .ok y ∧
      key.kind.backend.sign m' y ca.key y.request.digest = .ok signed ∧
      key.kind.backend.encode m'' signed key.kind.backend.defaultEncoding {} = .ok b ∧
      key.kind.backend.load b none = .ok loaded ∧ loaded.certificate = c := by
  obtain ⟨authorities, hchannel, ha⟩ := h.channel
  obtain ⟨data, hencode, hload⟩ := CertificateKind.loadPublicKey_encodePublicKey hsubject
  have hc : (n.issueRemote key.peer key.policy spec.request subject).run.run u = (.ok c, v) := hc
  simp only [issueRemote, bind_eq_ok_iff, ofOption_eq_ok_iff, backendAt_eq_ok_iff,
    atStage_eq_ok_iff, pure_eq_ok_iff, h.backend] at hc
  obtain ⟨_, _, ⟨hfound, rfl⟩, data', _, ⟨hdata, rfl⟩, b, t, hsign, loaded, _, ⟨hloaded, -⟩, _, _,
    -, hc, -⟩ := hc
  obtain rfl := Option.some.inj (hchannel.symm.trans hfound)
  rw [h.kind] at hdata hloaded
  obtain rfl := Except.ok.inj (hencode.symm.trans hdata)
  have hwritable := CertificateSpec.isWritable_order h.writable key.policy data
  obtain ⟨result, t', hrequest, hresult⟩ : ∃ result t,
      ((Authority.channel authorities identity).request key.peer (spec.order key.policy data)
        ).run.run u = (result, t) ∧
      (a.serve { spec.order key.policy data with identity } u.world).1.outcome = result :=
    ⟨_, _, Authority.run_request ha h.servable hwritable u, rfl⟩
  obtain ⟨reply, rfl, hreply⟩ : ∃ reply, result = .ok reply ∧ reply.certificate? = .ok b := by
    have hsent : ((Authority.channel authorities identity).sign key.peer key.policy
        { spec.request with publicKey := some (.inline data), csr := none }).run.run u =
          (result >>= ReplyData.certificate?, t') := Channel.run_sign hrequest
    rw [hsent] at hsign
    exact Outcome.bind_eq_ok_iff.1 (Prod.mk.inj hsign).1
  rw [h.serve_order, Authority.outcome_replyTo_eq_ok_iff] at hresult
  obtain ⟨t, hserved⟩ : ∃ t, (ReplyData.certificate <$> a.certify q
      (spec.order key.policy data).request).run.run ⟨u.world, [], {}⟩ = (.ok reply, t) :=
    ⟨_, Prod.ext hresult rfl⟩
  obtain ⟨b', hcertify, rfl⟩ := Run.map_eq_ok_iff.1 hserved
  obtain rfl : b' = b := Except.ok.inj hreply
  obtain ⟨signed, t', hissue, hencoded⟩ := bind_eq_ok_iff.1 hcertify
  obtain ⟨signing, y, m', hdrafts, hsigned, -⟩ := Site.of_issue hissue
  obtain ⟨rfl, m, hnow, hy⟩ := h.of_drafts hs hload hdrafts
  simp only [Site.encodePlain, Site.encode, bind_eq_ok_iff, backendAt_eq_ok_iff] at hencoded
  obtain ⟨m'', _, -, hencoded, -⟩ := hencoded
  rw [h.authorityBackend] at hsigned hencoded
  have hkind : y.request.kind = key.kind := by
    rw [(CertificateKind.isFor_of_buildDraft hy).request, h.kind_resolved]
  rw [hkind] at hsigned
  refine ⟨data, y, m, m', m'', signed, b', loaded, hencode, hnow, hy, hsigned, ?_, hloaded, hc⟩
  rw [← h.kind_resolved data]
  exact hencoded

theorem Asks.copypath_resolved (hcopy : q.overrides.copypath = none) (data : Bytes) :
    (resolved q (spec.order key.policy data)).copypath = none :=
  (Authority.owns_resolved q _).copypath.trans hcopy

/-- An order that the authority can draft and sign is served. -/
theorem Asks.exists_certify (h : n.Asks a identity spec key q) (hs : a.SignsWith q ca w.files)
    (hload : key.kind.backend.loadPublicKey data = .ok subject)
    (hcopy : q.overrides.copypath = none)
    (hy : ∀ m : Moment, m.now = w.now → key.kind.backend.buildDraft m .certificate
      (resolved q (spec.order key.policy data)) subject ca.identity = .ok y)
    (hc : ∀ m, key.kind.backend.sign m y ca.key y.request.digest = .ok c)
    (hcoded : ∀ m, ∃ b loaded,
      key.kind.backend.encode m c key.kind.backend.defaultEncoding {} = .ok b ∧
        key.kind.backend.load b none = .ok loaded ∧ loaded.certificate = c) :
    ∃ b loaded t, (a.certify q (spec.order key.policy data).request).run.run ⟨w, [], {}⟩ =
        (.ok b, t) ∧ key.kind.backend.load b none = .ok loaded ∧ loaded.certificate = c ∧
      t.world.files = w.files ∧ t.world.now = w.now := by
  have hrequest : y.request = resolved q (spec.order key.policy data) :=
    (CertificateKind.isFor_of_buildDraft (hy ⟨w.now, []⟩ rfl)).request
  have hkind : y.request.kind = key.kind := by rw [hrequest, h.kind_resolved]
  obtain ⟨t, hissue, hfiles, hnow⟩ := Site.exists_issue (t := ⟨w, [], {}⟩)
    (h.signer_resolved hs data) (h.subjectKey_resolved hload _)
    (d := y) (c := c) (by rw [h.authorityBackend, h.kind_resolved]; exact hy)
    (by rw [h.authorityBackend, hkind]; exact hc)
    (by rw [hrequest]; exact copypath_resolved hcopy data)
  obtain ⟨m, u, hmoment, -, hfiles', hnow'⟩ := Run.exists_moment t
  obtain ⟨b, loaded, hencoded, hloaded, hsame⟩ := hcoded m
  refine ⟨b, loaded, u, ?_, hloaded, hsame, hfiles'.trans hfiles, hnow'.trans hnow⟩
  have hencode : (a.site.encodePlain .encoding (resolved q (spec.order key.policy data)).kind
      c).run.run t = (.ok b, u) := by
    rw [h.kind_resolved, Site.encodePlain, Site.encode, h.authorityBackend]
    simp only [bind_eq_ok_iff, backendAt_eq_ok_iff]
    exact ⟨m, u, hmoment, hencoded, rfl⟩
  exact bind_eq_ok_iff.2 ⟨c, t, hissue, hencode⟩

/-- A requester gets a certificate for an order that is served. -/
theorem Asks.exists_issueFor {d : Draft} {signer : SignerIdentity}
    (h : n.Asks a identity spec key q) (hs : a.SignsWith q ca u.world.files)
    (hencode : key.kind.backend.encodePublicKey subject = .ok data)
    (hload : key.kind.backend.loadPublicKey data = .ok subject)
    (hcopies : q.overrides.copypath = none ∧ spec.request.copypath = none)
    (hy : ∀ m : Moment, m.now = u.world.now → key.kind.backend.buildDraft m .certificate
      (resolved q (spec.order key.policy data)) subject ca.identity = .ok y)
    (hc : ∀ m, key.kind.backend.sign m y ca.key y.request.digest = .ok c)
    (hcoded : ∀ m, ∃ b loaded,
      key.kind.backend.encode m c key.kind.backend.defaultEncoding {} = .ok b ∧
        key.kind.backend.load b none = .ok loaded ∧ loaded.certificate = c) :
    ∃ v, (n.issueFor spec.request d (.peer key.peer key.policy signer) subject).run.run u =
        (.ok c, v) ∧ v.world.files = u.world.files ∧ v.world.now = u.world.now := by
  obtain ⟨authorities, hchannel, ha⟩ := h.channel
  obtain ⟨b, loaded, t, hcertify, hloaded, rfl, hfiles, hnow⟩ :=
    h.exists_certify hs hload hcopies.1 hy hc hcoded
  have hserved : (ReplyData.certificate <$> a.certify q
      (spec.order key.policy data).request).run.run ⟨u.world, [], {}⟩ =
        (.ok (.certificate b), t) := Run.map_eq_ok_iff.2 ⟨b, hcertify, rfl⟩
  have hwritable := CertificateSpec.isWritable_order h.writable key.policy data
  have hreply : ((a.handle { spec.order key.policy data with identity }).run u.world) =
      (Authority.replyTo (.ok (.certificate b)), t.world) := by
    show ((a.serve { spec.order key.policy data with identity } u.world).1,
      (a.serve { spec.order key.policy data with identity } u.world).2.world) = _
    rw [h.serve_order, hserved]
  have hrequest : ((Authority.channel authorities identity).request key.peer
      (spec.order key.policy data)).run.run u = _ :=
    Authority.run_request ha h.servable hwritable u
  rw [hreply] at hrequest
  obtain ⟨v, hsent, hworld⟩ : ∃ v, ((Authority.channel authorities identity).sign key.peer
      key.policy { spec.request with publicKey := some (.inline data), csr := none }).run.run u =
        (.ok b, v) ∧ v.world = t.world := ⟨_, Channel.run_sign hrequest, rfl⟩
  refine ⟨v, ?_, by rw [hworld, hfiles], by rw [hworld, hnow]⟩
  show (n.issueRemote key.peer key.policy spec.request subject).run.run u = _
  simp only [issueRemote, bind_eq_ok_iff, ofOption_eq_ok_iff, backendAt_eq_ok_iff,
    atStage_eq_ok_iff, pure_eq_ok_iff, h.backend]
  have hkept : (n.site.keepCopy spec.request loaded.certificate).run.run v = (.ok (), v) := by
    unfold Site.keepCopy
    rw [hcopies.2]
    rfl
  rw [← h.kind] at hencode hloaded
  exact ⟨_, u, ⟨hchannel, rfl⟩, data, u, ⟨hencode, rfl⟩, b, v, hsent, loaded, v, ⟨hloaded, rfl⟩,
    (), v, hkept, rfl, rfl⟩

end Node
end CertAuthority
