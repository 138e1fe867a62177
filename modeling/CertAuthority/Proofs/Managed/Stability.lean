import CertAuthority.Files.Store
import CertAuthority.Proofs.Managed.Remote

/-!
# Certificates that are kept

A certificate that a remote authority signed is found again by the next run for it. The run keeps
it, unless it was drafted with another digest than it was signed with, or its key is not written as
certificates write keys.
-/

namespace CertAuthority

open Authority (resolved)
open Run (Adds)

namespace Node

variable {σ : Type} {n : Node σ} {a : Authority σ} {identity : Option String}
  {spec : CertificateSpec} {key : PolicyKey} {q : SigningPolicy} {ca : SigningMaterial}
  {s t u v : RunState σ} {p : Plan} {c : Certificate} {data : Bytes} {m : Moment} {y : Draft}

/-! ## Drafts -/

/-- The request of the order has the terms that the requester drafts, but for its own defaults. -/
theorem sameTerms_order (spec : CertificateSpec) (policy : String) (q : SigningPolicy)
    (data : Bytes) :
    (spec.request.under q.redacted).SameTerms (resolved q (spec.order policy data)) := by
  let sent : CertificateRequest :=
    { spec.request with publicKey := some (.inline data), csr := none }
  have hcontent : spec.request.SameContent sent := by constructor <;> rfl
  have hsent : spec.request.SameTerms sent :=
    { hcontent with notBefore := rfl, notAfter := rfl, ttl := rfl, digest := rfl }
  have hredacted : (q.redacted.resolve sent).SameTerms (q.resolve sent) :=
    CertificateRequest.sameTerms_resolve_redacted q sent
  have hconfined : (q.resolve sent).SameTerms (q.resolve sent.forRemote.confined) :=
    (CertificateRequest.sameTerms_confined_forRemote sent).resolve q
  exact ((hsent.resolve q.redacted).trans hredacted).trans hconfined

/-- The digest that the node fills in makes no difference to what the authority signs with. -/
abbrev KeepsDigest (n : Node σ) (spec : CertificateSpec) (q : SigningPolicy)
    (authority : PublicKey) : Prop :=
  spec.request.kind.KeepsDigest (spec.request.under q.redacted).digest n.config.issuance.digest
    authority

/-- The requester's draft and one that its order gives rise to. -/
theorem Plan.IsRemote.agrees (hp : p.IsRemote n spec key q ca.identity)
    (hkind : spec.request.kind = key.kind)
    (hy : key.kind.backend.buildDraft m .certificate (resolved q (spec.order key.policy data))
      p.subject.publicKey ca.identity = .ok y) :
    p.desired.draft.SameBody y ∧
      (p.desired.draft.info.digest = y.info.digest ↔
        n.KeepsDigest spec q ca.identity.publicKey) := by
  obtain ⟨m', hd⟩ := hp.draft
  have hterms := sameTerms_order spec key.policy q data
  have hcontent : p.request.SameContent (resolved q (spec.order key.policy data)) := by
    rw [hp.request]
    exact { hterms with }
  have hdigest : p.request.digest =
      if key.kind = .x509 then
        (resolved q (spec.order key.policy data)).digest <|> n.config.issuance.digest
      else (resolved q (spec.order key.policy data)).digest := by
    rw [hp.request, withDefaults, ← hterms.digest, Authority.kind_under, hkind]
  refine ⟨CertificateKind.sameBody_of_buildDraft hcontent hd hy, ?_⟩
  rw [KeepsDigest, hterms.digest, hkind]
  exact CertificateKind.digest_eq_iff hdigest hd hy

theorem Plan.IsRemote.alike_iff (hp : p.IsRemote n spec key q ca.identity)
    (hkind : spec.request.kind = key.kind)
    (hy : key.kind.backend.buildDraft m .certificate (resolved q (spec.order key.policy data))
      p.subject.publicKey ca.identity = .ok y) :
    p.desired.draft.Alike y ↔ n.KeepsDigest spec q ca.identity.publicKey := by
  obtain ⟨hbody, hdigest⟩ := hp.agrees hkind hy
  obtain ⟨_, hd⟩ := hp.draft
  refine ⟨fun halike => hdigest.1 halike.digest, fun hkeeps => ⟨hbody, ?_, hdigest.2 hkeeps, ?_⟩⟩
  · rw [(CertificateKind.isFor_of_buildDraft hd).signer,
      (CertificateKind.isFor_of_buildDraft hy).signer]
  · rw [CertificateKind.artifact_of_buildDraft hd]
    exact fun h => by cases h

/-! ## Another run -/

/-- The certificate is in its place, in the container that is wanted, and its remaining validity is
not below the threshold. -/
structure Finds (n : Node σ) (spec : CertificateSpec) (p : Plan) (now : Instant) (c : Certificate) :
    Prop where
  held : ∃ held, p.existing = .loaded held ∧ held.certificate = c ∧ held.IsAsWanted p.desired
  remaining : ∃ limit, now.plus? (n.thresholdFor spec p) = some limit ∧
    ∀ t ∈ c.info.notAfter, limit.le t = true

/-- All that can be seen of the certificate of an order is its key and its digest. -/
theorem decideOn_eq {now : Instant} (hb : n.site.backend = CertificateKind.backend)
    (hp : p.IsRemote n spec key q ca.identity) (hkind : spec.request.kind = key.kind)
    (hy : key.kind.backend.buildDraft m .certificate (resolved q (spec.order key.policy data))
      p.subject.publicKey ca.identity = .ok y)
    (hc : key.kind.IsIssued y c) (hfinds : n.Finds spec p now c) :
    n.decideOn spec p now = .ok
      (if key.kind.IsStandard p.subject.publicKey ∧ n.KeepsDigest spec q ca.identity.publicKey then
        .keep c
      else .issue .changed
        { privateKey := ¬ key.kind.IsStandard p.subject.publicKey
          digest := ¬ n.KeepsDigest spec q ca.identity.publicKey }) := by
  obtain ⟨hbody, hdigest⟩ := hp.agrees hkind hy
  obtain ⟨_, hd⟩ := hp.draft
  obtain ⟨hrequest, hsubject, hsigner⟩ := CertificateKind.isFor_of_buildDraft hd
  obtain ⟨held, hexisting, rfl, hwanted⟩ := hfinds.held
  obtain ⟨limit, hlimit, hremaining⟩ := hfinds.remaining
  have hkind : p.desired.draft.request.kind = key.kind := by
    rw [hrequest, hp.request]
    exact (Authority.kind_under _ _).trans hkind
  have hartifact : p.desired.draft.info.artifact = .certificate :=
    CertificateKind.artifact_of_buildDraft hd
  have hkept : held.certificate.info.notAfter.any (·.lt limit) = false := by
    cases hend : held.certificate.info.notAfter with
    | none => rfl
    | some t => simpa [Instant.le] using hremaining t hend
  have hverifies : key.kind.backend.verifies held.certificate p.desired.draft.signer.publicKey =
      true := by
    rw [hsigner, ← (CertificateKind.isFor_of_buildDraft hy).signer]
    exact hc.verifies
  have hkey : (held.certificate.info.publicKey != p.desired.draft.info.publicKey) =
      Decidable.decide (¬ key.kind.IsStandard p.subject.publicKey) := by
    rw [Bool.eq_iff_iff, bne_iff_ne, decide_eq_true_iff, hbody.publicKey, ne_eq, hc.publicKey,
      ← hbody.publicKey, hsubject]
  have hother : (y.info.digest != p.desired.draft.info.digest) =
      Decidable.decide (¬ n.KeepsDigest spec q ca.identity.publicKey) := by
    rw [Bool.eq_iff_iff, bne_iff_ne, decide_eq_true_iff, ne_comm, ne_eq, hdigest]
  have hchanges :=
    Desired.differences_of_sameBody hbody hc.artifact hc.view hverifies hwanted
  rw [hkey, hother] at hchanges
  rw [decideOn, hexisting, hb, hkind]
  simp only [Existing.decide, Desired.changesFrom_eq_ok (by rw [hartifact]; decide) hlimit,
    hkept, hchanges]
  by_cases hstandard : key.kind.IsStandard p.subject.publicKey <;>
    by_cases hkeeps : n.KeepsDigest spec q ca.identity.publicKey <;>
    simp only [hstandard, hkeeps] <;> rfl

/-! ## The first run -/

theorem notBefore_under (q : SigningPolicy) (r : CertificateRequest) :
    (r.under q).notBefore = (q.overrides.notBefore <|> r.notBefore) := by
  cases hk : q.kind <;>
    simp [CertificateRequest.under, SigningPolicy.resolve, SigningPolicy.applyOverrides,
      SigningPolicy.applyIdentity, hk]

/-- Dates come from the request or from the policy. -/
theorem isCivil_under {r : CertificateRequest} (hq : q.IsWritable) (hr : r.IsWritable) :
    ∀ t ∈ (r.under q).notBefore.toList ++ (r.under q).notAfter.toList, t.IsCivil := by
  have hchosen {own other : Option Instant} (h : ∀ t ∈ own, t.IsCivil)
      (h' : ∀ t ∈ other, t.IsCivil) : ∀ t ∈ (own <|> other).toList, t.IsCivil := by
    cases own with
    | none => exact fun t ht => h' t (Option.mem_toList.1 ht)
    | some t => exact fun t ht => h t (Option.mem_toList.1 ht)
  have hend : ∀ t ∈ q.notAfterFor r, t.IsCivil := by
    unfold SigningPolicy.notAfterFor
    split
    · exact fun t ht => by cases ht
    · exact hr.notAfter
  intro t ht
  rcases List.mem_append.1 ht with ht | ht
  · rw [notBefore_under] at ht
    exact hchosen hq.overrides.notBefore hr.notBefore t ht
  · exact hchosen hq.overrides.notAfter hend t ht

/-- The certificate that the requester gets is that of a draft for its order. -/
theorem Asks.exists_isIssued {d : Draft} {signer : SignerIdentity} {subject : PublicKey}
    (h : n.Asks a identity spec key q) (hs : a.SignsWith q ca u.world.files)
    (hnow : u.world.now.representable = true) (hsubject : key.kind.IsHandle subject)
    (hc : (n.issueFor spec.request d (.peer key.peer key.policy signer) subject).run.run u =
      (.ok c, v)) (hendorses : key.kind.Endorses ca.key c) :
    ∃ data m y, key.kind.backend.encodePublicKey subject = .ok data ∧
      key.kind.backend.buildDraft m .certificate (resolved q (spec.order key.policy data)) subject
        ca.identity = .ok y ∧ key.kind.IsIssued y c := by
  obtain ⟨data, y, m, m', m'', signed, b, loaded, hencode, hmoment, hy, hsigned, hencoded, hloaded,
    hsame⟩ := h.of_issueFor hs hsubject hc
  have hdates : ∀ t ∈ m.now :: ((resolved q (spec.order key.policy data)).notBefore.toList ++
      (resolved q (spec.order key.policy data)).notAfter.toList), t.representable = true := by
    have hq := Authority.isWritable_of_authorize h.servable h.admitted
    have hr := (CertificateSpec.isWritable_order h.writable key.policy data).confined
    rw [List.forall_mem_cons, hmoment]
    exact ⟨hnow, fun t ht => (isCivil_under hq hr t ht).representable⟩
  have hbytes := CertificateKind.encoded_of_load hy hsigned hencoded hloaded
  rw [hsame] at hbytes
  have hrequest := (CertificateKind.isFor_of_buildDraft hy).request
  rw [hrequest] at hsigned
  have hissued := CertificateKind.isIssued_of_sign hsubject hy hsigned hdates
    (hendorses.of_encoded hbytes.symm)
  obtain ⟨found, hfound, hcertificate⟩ := hissued.loads _ _ none hencoded
  obtain rfl := Except.ok.inj (hloaded.symm.trans hfound)
  obtain rfl : signed = c := hcertificate.symm.trans hsame
  exact ⟨data, m, y, hencode, hy, hissued⟩

/-! ## A branch that has its office sign -/

section

open X509 (HouseRun houseRun houseKey houseRequest spelledKey)

variable {h : HouseRun}

/-- Signs all requests with one key. -/
def officePolicy : SigningPolicy where
  kind := .x509
  overrides := { signingPrivateKey := some (.inline houseKey.encoded) }

def office : Authority FileStore where
  site := ⟨FileStore.fileSystem, CertificateKind.backend⟩
  store _ _ := .ok (some officePolicy)

def branch : Node FileStore where
  site := ⟨FileStore.fileSystem, CertificateKind.backend⟩
  config := {}
  store _ _ := .ok none
  channel := some (Authority.channel [("office", office)] none)

def branchSpec : CertificateSpec where
  target := { path := "/branch.crt", mode := 0o644 }
  request := { houseRequest with publicKey := some (.inline spelledKey) }
  authority := some "office"
  policy := some "leaf"

def branchKey : PolicyKey := ⟨"office", .x509, "leaf"⟩

def branchStart : RunState FileStore := ⟨{ files := {}, now := .ofSeconds 0, seed := [] }, [], {}⟩

theorem asks_branch : branch.Asks office none branchSpec branchKey officePolicy where
  backend := rfl
  authorityBackend := rfl
  channel := ⟨_, rfl, rfl⟩
  servable := by
    refine ⟨fun {kind name p} h => ?_, fun kind name => .ok _⟩
    obtain rfl : officePolicy = p := Option.some.inj (Except.ok.inj h)
    exact ⟨nofun, nofun, nofun, nofun, nofun, nofun, nofun, nofun⟩
  authority := rfl
  policy := rfl
  kind := rfl
  policyKind := rfl
  writable := ⟨nofun, nofun, nofun, nofun, nofun, List.forall_mem_nil _⟩
  admitted := rfl

def officeSigner (h : HouseRun) : SigningMaterial := ⟨houseKey, ⟨h.signer, none⟩⟩

theorem signsWith_office (hsigner : X509.derivePublicKey houseKey = .ok h.signer)
    (files : FileStore) : office.SignsWith officePolicy (officeSigner h) files := by
  intro w _
  have hload : X509.loadPrivateKey houseKey.encoded none = .ok houseKey :=
    Authority.loadPrivateKey_openKey none
  have hrun : (office.site.signer ((CertificateRequest.new officePolicy.kind).under
      officePolicy)).run.run ⟨w, [], {}⟩ = (.ok (some (officeSigner h)), ⟨w, [], {}⟩) := by
    unfold Site.signer
    rw [show ((CertificateRequest.new officePolicy.kind).under officePolicy).signingPrivateKey =
      some (.inline houseKey.encoded) from rfl]
    simp only [Run.bind_eq_ok_iff, Run.backendAt_eq_ok_iff, Run.pure_eq_ok_iff]
    exact ⟨_, _, rfl, houseKey, _, ⟨hload, rfl⟩, h.signer, _, ⟨hsigner, rfl⟩, none, _, rfl, rfl,
      rfl⟩
  exact congrArg Prod.fst hrun

/-- The request of the branch, with the defaults of its configuration. -/
def branchRequest : CertificateRequest :=
  branch.withDefaults (branchSpec.request.under officePolicy.redacted)

theorem sameContent_branchRequest : houseRequest.SameContent branchRequest := by
  constructor <;> rfl

theorem sameContent_resolved (data : Bytes) :
    houseRequest.SameContent (Authority.resolved officePolicy (branchSpec.order "leaf" data)) := by
  constructor <;> rfl

theorem buildDraft_branchRequest (hrun : houseRun = .ok h) {m : Moment}
    (hm : m.now = .ofSeconds 0) :
    X509.buildDraft m .certificate branchRequest h.subject ⟨h.signer, none⟩ =
      .ok { h.draft with request := branchRequest } := by
  obtain ⟨-, hd, -⟩ := X509.of_houseRun hrun
  exact X509.buildDraft_of_sameContent sameContent_branchRequest rfl rfl (by rw [hm]; rfl) rfl hd

theorem buildDraft_resolved (hrun : houseRun = .ok h) {m : Moment} (hm : m.now = .ofSeconds 0)
    (data : Bytes) :
    X509.buildDraft m .certificate (Authority.resolved officePolicy (branchSpec.order "leaf" data))
        h.subject ⟨h.signer, none⟩ =
      .ok { h.draft with
        request := Authority.resolved officePolicy (branchSpec.order "leaf" data) } := by
  obtain ⟨-, hd, -⟩ := X509.of_houseRun hrun
  exact X509.buildDraft_of_sameContent (sameContent_resolved data) rfl rfl (by rw [hm]; rfl) rfl hd

theorem subjectFor_branchRequest (hrun : houseRun = .ok h) (signer : SignerIdentity)
    (w : World FileStore) :
    (branch.subjectFor branchRequest (.peer "office" "leaf" signer)).result w =
      .ok ⟨h.subject, none⟩ := by
  obtain ⟨hload, -⟩ := X509.of_houseRun hrun
  have hsubject : (branch.site.subjectKey branchRequest signer.publicKey).run.run ⟨w, [], {}⟩ =
      (.ok ⟨h.subject, none⟩, ⟨w, [], {}⟩) := by
    unfold Site.subjectKey
    rw [show branchRequest.publicKey = some (.inline spelledKey) from rfl]
    simp only [Run.bind_eq_ok_iff, Run.backendAt_eq_ok_iff, Run.pure_eq_ok_iff]
    exact ⟨spelledKey, _, rfl, h.subject, _, ⟨hload, rfl⟩, rfl, rfl⟩
  rw [subjectFor_peer, if_neg (by decide)]
  exact congrArg Prod.fst hsubject

/-- What the branch wants. -/
def branchPlan (h : HouseRun) (existing : Existing) : Plan where
  request := branchRequest
  signer := .peer "office" "leaf" ⟨h.signer, none⟩
  subject := ⟨h.subject, none⟩
  existing
  desired := { draft := { h.draft with request := branchRequest }, encoding := .pem }

theorem exists_plan_branch (hrun : houseRun = .ok h)
    (hsigner : X509.derivePublicKey houseKey = .ok h.signer) {s : RunState FileStore}
    (hnow : s.world.now = .ofSeconds 0)
    (hknown : s.policies.Tells branchKey officePolicy ⟨h.signer, none⟩) (existing : Existing)
    (hexisting : ∀ w : World FileStore, w.files = s.world.files →
      (branch.site.existing "/branch.crt" (Backend.x509.loadAs .certificate · none)).result w =
        .ok existing) :
    ∃ u, (branch.plan branchSpec).run.run s = (.ok (branchPlan h existing), u) ∧
      u.world.files = s.world.files ∧ u.world.now = .ofSeconds 0 := by
  obtain ⟨t, hresolve, hfiles, hnow', -⟩ :=
    asks_branch.run_resolve (signsWith_office hsigner _) hknown
  rw [hnow] at hnow'
  have hchain (w : World FileStore) : (branch.site.chain branchRequest).result w = .ok [] := rfl
  obtain ⟨u, hplan, hfiles', hnow'', -⟩ := exists_plan hresolve
    (subjectFor_branchRequest hrun _ _) (hexisting _ hfiles)
    (fun m hm => buildDraft_branchRequest hrun (hm.trans hnow')) fun w _ => hchain w
  exact ⟨u, hplan, hfiles'.trans hfiles, hnow''.trans hnow'⟩

/-- The office serves the order of the branch, and the branch writes down what it gets. -/
theorem exists_carryOut_branch (hrun : houseRun = .ok h)
    (hsigner : X509.derivePublicKey houseKey = .ok h.signer) {data : Bytes} {u : RunState FileStore}
    (hnow : u.world.now = .ofSeconds 0) (existing : Existing) {reason : Reason}
    {changes : ChangeSet}
    (hdecide : branch.decideOn branchSpec (branchPlan h existing) u.world.now =
      .ok (.issue reason changes))
    {files : FileStore} (hlink : FileStore.fileSystem.isLink u.world.files "/branch.crt" = false)
    (hwrite : u.world.files.replace "/branch.crt" data 0o644 = (.ok (), files))
    (hencode : ∀ m, X509.encodeArtifact m h.certificate .pem {} = .ok data)
    (hload : Backend.x509.load data none = .ok { certificate := h.certificate, encoding := .pem }) :
    ∃ v, (branch.carryOut branchSpec (branchPlan h existing)).run.run u =
        (.ok { path := "/branch.crt", action := .issue, reason := some reason, changes
               written := true, held := some h.certificate }, v) ∧
      v.world.files = files ∧ v.world.now = .ofSeconds 0 := by
  obtain ⟨hsubject, hd, hs, -⟩ := X509.of_houseRun hrun
  have hhandle : CertificateKind.x509.IsHandle h.subject := X509.isHandle_of_loadPublicKey hsubject
  obtain ⟨sent, hsent, hreceived⟩ := CertificateKind.loadPublicKey_encodePublicKey hhandle
  obtain ⟨-, hartifact⟩ := X509.publicKey_of_buildDraft hd
  obtain ⟨hrequest, -⟩ := X509.digest_of_buildDraft hd
  have hissue : ∃ v, (branch.issueFor branchSpec.request { h.draft with request := branchRequest }
      (.peer "office" "leaf" ⟨h.signer, none⟩) h.subject).run.run u = (.ok h.certificate, v) ∧
        v.world.files = u.world.files ∧ v.world.now = u.world.now :=
    asks_branch.exists_issueFor (signsWith_office hsigner u.world.files) hsent hreceived ⟨rfl, rfl⟩
      (fun m hm => buildDraft_resolved hrun (hm.trans hnow) sent)
      (fun m => X509.signDraft_of_sameContent (hrequest ▸ sameContent_resolved sent)
        (by rw [hrequest]; rfl) hartifact hs)
      (fun m => ⟨data, _, hencode m, hload, rfl⟩)
  obtain ⟨v, hcarry, hfiles, hnow'⟩ := exists_carryOut_of_issue hdecide
    ⟨⟨rfl, rfl⟩, hlink, data, hencode, hwrite⟩ hissue
  exact ⟨v, hcarry, hfiles, hnow'.trans hnow⟩

theorem tells_nothing (key : PolicyKey) (q : SigningPolicy) (signer : SignerIdentity) :
    ({} : PolicyCache).Tells key q signer := by
  intro d hd
  simp [PolicyCache.get?] at hd

theorem derivePublicKey_house (hrun : houseRun = .ok h) :
    X509.derivePublicKey houseKey = .ok h.signer := by
  simp only [houseRun, Outcome.bind_eq_ok_iff] at hrun
  obtain ⟨_, -, signer, hsigner, _, -, _, -, _, -, _, -, hrun⟩ := hrun
  obtain rfl := Except.ok.inj hrun
  exact hsigner

theorem not_isStandard_house (hrun : houseRun = .ok h) :
    ¬ CertificateKind.x509.IsStandard h.subject := by
  obtain ⟨hload, -⟩ := X509.of_houseRun hrun
  obtain ⟨hloaded, hread⟩ := X509.loadPublicKey_spelledKey
  have hsubject : h.subject = ⟨.x509, .ed25519, spelledKey⟩ :=
    Except.ok.inj (hload.symm.trans hloaded)
  rw [hsubject]
  exact fun hstandard => absurd (hstandard rfl _ hread) (by with_unfolding_all decide)

theorem notAfter_house (hrun : houseRun = .ok h) :
    h.certificate.info.notAfter = some (.ofSeconds 2592000) := by
  obtain ⟨-, hd, hs, -⟩ := X509.of_houseRun hrun
  obtain ⟨window, hwindow, -, hend⟩ := X509.period_of_buildDraft hd
  obtain rfl := Except.ok.inj hwindow
  rw [X509.view_eq_of_signDraft hd hs (.inl rfl)]
  exact hend

theorem finds_branch (hrun : houseRun = .ok h) : branch.Finds branchSpec
    (branchPlan h (.loaded { certificate := h.certificate, encoding := .pem })) (.ofSeconds 0)
    h.certificate where
  held := ⟨_, rfl, rfl, rfl, rfl, nofun, nofun⟩
  remaining := by
    refine ⟨.ofSeconds 604800, rfl, fun t ht => ?_⟩
    rw [notAfter_house hrun] at ht
    obtain rfl := Option.some.inj ht
    decide

end

/-! ## Stability -/

/-- **Remote issuance is stable where both sides come to one digest.** A requester drafts for change
detection what it has an authority sign. It asks for nothing but one order, and whatever the
authority drafts to serve that has the same content: key, names, extensions, options, principals and
number. Only the digest can differ. The requester fills in that of its own configuration where
neither the request nor the policy names one. The authority does not learn of it, and signs with the
natural digest of its key. For keys of X.509 that are RSA keys this makes a difference, unless it is
SHA-256.

A certificate that was issued so, and is found again with enough time left, is kept if and only if
the digest is the same and the subject's key is written as certificates write it. Else each run
reports what is different, and issues it anew. -/
theorem remote_certificate_kept_iff (h : n.Asks a identity spec key q)
    (hs : a.SignsWith q ca s.world.files) (hknown : s.policies.Tells key q ca.identity)
    (hp : (n.plan spec).run.run s = (.ok p, u)) :
    let standard := key.kind.IsStandard p.subject.publicKey
    let keeps := n.KeepsDigest spec q ca.identity.publicKey
    ∃ e : RequestEnvelope,
      (∀ t, ∀ event ∈ ((n.carryOut spec p).run.run t).2.journal,
        event ∈ t.journal ∨ event.IsLocal ∨ event = .ask key.peer signProcedure e.toJson) ∧
      (∀ w, a.SignsWith q ca w.files →
        ∀ y, Event.sign y ∈ (a.serve { e with identity } w).2.journal →
          p.desired.draft.SameBody y ∧ (p.desired.draft.Alike y ↔ keeps)) ∧
      ∀ {report v c}, s.world.now.representable = true →
        (n.certificate spec).run.run s = (.ok report, v) →
        report.action = .issue → report.held = some c → key.kind.Endorses ca.key c →
        v.policies.Tells key q ca.identity ∧
        ∀ {s' u' p'}, a.SignsWith q ca s'.world.files → s'.policies.Tells key q ca.identity →
          (n.plan spec).run.run s' = (.ok p', u') →
          p'.subject.publicKey = p.subject.publicKey → n.Finds spec p' u'.world.now c →
          (standard → keeps → (n.certificate spec).run.run s' =
            (.ok { path := spec.target.path, action := .noOp, reason := none, changes := {}
                   held := some c }, u')) ∧
          (¬ (standard ∧ keeps) → ∀ report t,
            (n.certificate spec).run.run s' = (.ok report, t) →
            report.action = .issue ∧ report.reason = some .changed ∧
              report.changes = { privateKey := ¬ standard, digest := ¬ keeps }) := by
  intro standard keeps
  obtain ⟨hremote, hfiles, hnow, hknown⟩ := h.of_plan hs hknown hp
  obtain ⟨data, hencode, hload⟩ := CertificateKind.loadPublicKey_encodePublicKey hremote.subject
  have hasks : Adds (fun event => event.IsLocal ∨
      event = .ask key.peer signProcedure (spec.order key.policy data).toJson)
      (n.carryOut spec p) := by
    refine keeps_carryOut ⟨fun _ _ => ⟨.inl trivial, fun _ _ => rfl⟩, .inl trivial,
      fun _ _ => rfl⟩ ?_
    rw [hremote.signer]
    exact adds_issueFor (by rw [h.backend, h.kind]; exact hencode)
  refine ⟨spec.order key.policy data, fun t event hevent => ?_, fun w hw y hy => ?_, ?_⟩
  · obtain ⟨added, hjournal, hadded⟩ := hasks.journal t
    rw [hjournal] at hevent
    exact (List.mem_append.1 hevent).imp_right (hadded event)
  · obtain ⟨m, -, hy⟩ := h.of_mem_journal hw hload hy
    exact ⟨(hremote.agrees h.kind hy).1, hremote.alike_iff h.kind hy⟩
  · intro report v c hrepresentable hrun haction hheld hendorses
    rw [certificate_eq, Run.bind_eq_ok_iff] at hrun
    obtain ⟨p₁, u₁, hplan, hcarry⟩ := hrun
    obtain ⟨rfl, rfl⟩ := Run.ok_inj hp hplan
    obtain ⟨_, -, -, -, -, hissued⟩ := of_carryOut hcarry
    obtain ⟨u', v', hworld, hissue⟩ := hissued c haction hheld
    rw [hremote.signer] at hissue
    obtain ⟨data', m, y, hdata, hy, hissued⟩ := h.exists_isIssued (by rw [hworld, hfiles]; exact hs)
      (by rw [hworld, hnow]; exact hrepresentable) hremote.subject hissue hendorses
    obtain rfl := Except.ok.inj (hencode.symm.trans hdata)
    refine ⟨by rw [hasks.policies_eq hcarry]; exact hknown, ?_⟩
    intro s' u' p' hs' hknown' hp' hsubject hfinds
    obtain ⟨hremote', -⟩ := h.of_plan hs' hknown' hp'
    have hdecide := decideOn_eq h.backend hremote' h.kind (by rw [hsubject]; exact hy) hissued hfinds
    rw [hsubject] at hdecide
    refine ⟨fun hstandard hkeeps => ?_, fun hnot report t hrun => ?_⟩
    · rw [if_pos ⟨hstandard, hkeeps⟩] at hdecide
      rw [certificate_eq, Run.bind_eq_ok_iff]
      exact ⟨p', u', hp', carryOut_of_keep hdecide⟩
    · rw [if_neg hnot] at hdecide
      rw [certificate_eq, Run.bind_eq_ok_iff] at hrun
      obtain ⟨_, _, hplan', hcarry'⟩ := hrun
      obtain ⟨rfl, rfl⟩ := Run.ok_inj hp' hplan'
      obtain ⟨decision, hdecided, haction, hreason, hchanges, -⟩ := of_carryOut hcarry'
      obtain rfl := Except.ok.inj (hdecide.symm.trans hdecided)
      exact ⟨haction, hreason, hchanges⟩

section

open X509 (HouseRun houseRun houseKey houseRequest spelledKey)

/-- The branch gets its first certificate. -/
theorem exists_certificate_branch {h : HouseRun} (hrun : houseRun = .ok h) :
    ∃ u v data, (branch.plan branchSpec).run.run branchStart = (.ok (branchPlan h .missing), u) ∧
      (branch.certificate branchSpec).run.run branchStart =
        (.ok { path := "/branch.crt", action := .issue, reason := some .created, changes := {}
               written := true, held := some h.certificate }, v) ∧
      v.world.files = ({} : FileStore).put "/branch.crt" (.file data 0o644) ∧
      v.world.now = .ofSeconds 0 ∧
      Backend.x509.load data none = .ok { certificate := h.certificate, encoding := .pem } := by
  obtain ⟨-, hd, hs, -⟩ := X509.of_houseRun hrun
  have hsigner := derivePublicKey_house hrun
  obtain ⟨data, hencode, hload⟩ := X509.load_encodeArtifact ⟨.ofSeconds 0, []⟩
    (X509.isStored_of_signDraft hd hs) (o := {}) (by simp) none
  obtain ⟨u, hplan, hfiles, hnow⟩ := exists_plan_branch hrun hsigner (s := branchStart) rfl
    (tells_nothing _ _ _) .missing fun w hw => Site.existing_of_missing (by rw [hw]; rfl)
  obtain ⟨v, hcarry, hfiles', hnow'⟩ := exists_carryOut_branch hrun hsigner hnow .missing rfl
    (by rw [hfiles]; rfl) (by rw [hfiles]; rfl) (fun _ => hencode) hload
  have hissued := Run.bind_eq_ok_iff.2 ⟨_, u, hplan, hcarry⟩
  rw [← certificate_eq] at hissued
  exact ⟨u, v, data, hplan, hissued, hfiles', hnow', hload⟩

/-- The branch sends its key in an unusual form. So it gets its certificate, and the next run finds
everything in place but the key. -/
theorem remote_certificate_kept_iff_of_branch :
    ∃ (h : HouseRun) (u v w : RunState FileStore) (report : Report ChangeSet Certificate),
      let found : LoadedArtifact := { certificate := h.certificate, encoding := .pem }
      branch.Asks office none branchSpec branchKey officePolicy ∧
      office.SignsWith officePolicy (officeSigner h) branchStart.world.files ∧
      branchStart.policies.Tells branchKey officePolicy ⟨h.signer, none⟩ ∧
      (branch.plan branchSpec).run.run branchStart = (.ok (branchPlan h .missing), u) ∧
      branchStart.world.now.representable = true ∧
      (branch.certificate branchSpec).run.run branchStart = (.ok report, v) ∧
      report.action = .issue ∧ report.held = some h.certificate ∧
      CertificateKind.x509.Endorses houseKey h.certificate ∧
      (branch.plan branchSpec).run.run v = (.ok (branchPlan h (.loaded found)), w) ∧
      branch.Finds branchSpec (branchPlan h (.loaded found)) w.world.now h.certificate ∧
      ¬ CertificateKind.x509.IsStandard h.subject ∧
      ∀ again x, (branch.certificate branchSpec).run.run v = (.ok again, x) →
        again.action = .issue ∧ again.changes = { privateKey := true } := by
  obtain ⟨h, hrun⟩ := Outcome.exists_eq_ok_of_isOk X509.houseRun_isOk
  obtain ⟨-, -, -, -, hconfirms⟩ := X509.of_houseRun hrun
  have hsigner := derivePublicKey_house hrun
  have hsigns := signsWith_office (h := h) hsigner
  have hendorses : CertificateKind.x509.Endorses houseKey h.certificate :=
    ⟨fun _ => hconfirms, nofun⟩
  -- The first run issues.
  obtain ⟨u, v, data, hplan, hissued, hfiles', hnow', hload⟩ := exists_certificate_branch hrun
  obtain ⟨e, -, -, hstable⟩ := remote_certificate_kept_iff asks_branch (hsigns _)
    (tells_nothing _ _ _) hplan
  obtain ⟨hknown, hagain⟩ := hstable (by decide) hissued rfl rfl hendorses
  -- The second finds what was issued.
  obtain ⟨w, hplan', -, hnow''⟩ := exists_plan_branch hrun hsigner hnow' hknown
    (.loaded { certificate := h.certificate, encoding := .pem }) fun w hw =>
      Site.existing_of_loads (by rw [hw, hfiles']; rfl) (by rw [hw, hfiles']; rfl) hload
  have hfinds := finds_branch hrun
  rw [← hnow''] at hfinds
  obtain ⟨-, hchanged⟩ := hagain (hsigns _) hknown hplan' rfl hfinds
  have hkey := not_isStandard_house hrun
  refine ⟨h, u, v, w, _, asks_branch, hsigns _, tells_nothing _ _ _, hplan, by decide, hissued, rfl,
    rfl, hendorses, hplan', hfinds, hkey, fun again x hsecond => ?_⟩
  obtain ⟨haction, -, hchanges⟩ := hchanged (fun hboth => hkey hboth.1) again x hsecond
  have hkeeps : branch.KeepsDigest branchSpec officePolicy h.signer := fun _ _ _ _ hd => by cases hd
  rw [hchanges]
  refine ⟨haction, congrArg₂ (fun a b => ({ privateKey := a, digest := b } : ChangeSet)) ?_ ?_⟩
  · exact decide_eq_true hkey
  · exact decide_eq_false (not_not_intro hkeeps)

/-- The same branch, with a digest in its configuration. -/
def strictBranch : Node FileStore :=
  { branch with config := { issuance := { digest := some .sha512 } } }

/-- An RSA key of 2048 bits. -/
def rsaKey : PrivateKey where
  kind := .x509
  algorithm := .rsa
  encoded :=
    let p := bitLimit 1024 - 105
    let q := bitLimit 1024 - 179
    let d := (1 + 54058 * ((p - 1) * (q - 1))) / 65537
    Der.seqOf [Der.nat 0, X509.keyIdentifierOf .rsa, Der.octets <| Der.seqOf <|
      [0, p * q, 65537, d, p, q, d % (p - 1), d % (q - 1), (5 * p - 1) / 74].map Der.nat]

/-- What the branch drafts to compare with, and what the office drafts to serve its order. -/
structure DraftedPair where
  wanted : Draft
  served : Draft

def draftedPair : BackendResult DraftedPair := do
  let key ← X509.loadPrivateKey rsaKey.encoded none
  let signer ← X509.derivePublicKey key
  let subject ← X509.loadPublicKey spelledKey
  let data ← Backend.x509.encodePublicKey subject
  let wanted ← X509.buildDraft ⟨.ofSeconds 0, []⟩ .certificate
    (strictBranch.withDefaults (branchSpec.request.under officePolicy.redacted)) subject
    ⟨signer, none⟩
  let served ← X509.buildDraft ⟨.ofSeconds 0, []⟩ .certificate
    (Authority.resolved officePolicy (branchSpec.order "leaf" data)) subject ⟨signer, none⟩
  return { wanted, served }

/-- An RSA key signs with SHA-256, and the branch wants SHA-512. -/
theorem drafts_differ_in_digest :
    ∃ pair : DraftedPair, draftedPair = .ok pair ∧ pair.wanted.info.digest = some .sha512 ∧
      pair.served.info.digest = some .sha256 := by
  have hdigests : (draftedPair.toOption.map fun pair =>
      (pair.wanted.info.digest, pair.served.info.digest)) = some (some .sha512, some .sha256) := by
    decide +kernel
  cases hpair : draftedPair with
  | error why =>
    rw [hpair] at hdigests
    cases hdigests
  | ok pair =>
    rw [hpair] at hdigests
    obtain ⟨hwanted, hserved⟩ := Prod.mk.inj (Option.some.inj hdigests)
    exact ⟨pair, rfl, hwanted, hserved⟩

end

end Node
end CertAuthority
