import CertAuthority.Proofs.Managed.Atomicity
import CertAuthority.Proofs.Managed.Stability
import CertAuthority.Proofs.X509.Recognition

/-!
# Encoding again

A certificate that differs from what is wanted in its container alone is not issued anew. It is
written in the container that is wanted, and there the next run finds it.

* `Run.of_mapM`, `Node.isStored_of_plan` : what a plan holds was loaded;
* `Site.Wrote` : what was done last, and `Node.of_certificate_reEncode` : what encoding a
  certificate again did last;
* `Node.reEncoded_found_iff` : text and DER that were written so are found as they are wanted,
  unless the DER is taken for text.
-/

namespace CertAuthority

open Run (bind_eq_ok_iff pure_eq_ok_iff backendAt_eq_ok_iff atStage_eq_ok_iff)

/-! ## Lists of steps -/

theorem Run.of_mapM {σ α β : Type} {P : β → Prop} {f : α → Run σ β} {xs : List α} {ys : List β}
    {u v : RunState σ} (hf : ∀ x u v y, (f x).run.run u = (.ok y, v) → P y)
    (h : (xs.mapM f).run.run u = (.ok ys, v)) : ∀ y ∈ ys, P y := by
  induction xs generalizing u v ys with
  | nil =>
    rw [List.mapM_nil, pure_eq_ok_iff] at h
    obtain ⟨rfl, -⟩ := h
    simp
  | cons x xs ih =>
    simp only [List.mapM_cons, bind_eq_ok_iff, pure_eq_ok_iff] at h
    obtain ⟨y, _, hy, rest, _, hrest, rfl, -⟩ := h
    exact List.forall_mem_cons.2 ⟨hf _ _ _ _ hy, ih hrest⟩

/-! ## What was loaded -/

namespace Site

variable {σ : Type} {s : Site σ} {r : CertificateRequest} {u v : RunState σ}

theorem exists_of_existing {path : String} {parse : Bytes → BackendResult LoadedArtifact}
    {a : LoadedArtifact} (h : (s.existing path parse).run.run u = (.ok (.loaded a), v)) :
    ∃ data, parse data = .ok a := by
  rw [existing, bind_eq_ok_iff] at h
  obtain ⟨there, _, -, h⟩ := h
  split at h
  · cases (pure_eq_ok_iff.1 h).1
  · rw [bind_eq_ok_iff] at h
    obtain ⟨data, _, -, h⟩ := h
    split at h
    · rename_i found hfound
      obtain rfl := Existing.loaded.inj (pure_eq_ok_iff.1 h).1
      exact ⟨data, hfound⟩
    · cases (pure_eq_ok_iff.1 h).1
    · cases h

theorem isStored_of_chain {cs : List Certificate} (hb : s.backend = CertificateKind.backend)
    (hkind : r.kind = .x509) (h : (s.chain r).run.run u = (.ok cs, v)) :
    ∀ c ∈ cs, X509.IsStored c := by
  rw [chain, bind_eq_ok_iff] at h
  obtain ⟨parts, _, hparts, h⟩ := h
  obtain ⟨rfl, -⟩ := pure_eq_ok_iff.1 h
  have hstored : ∀ part ∈ parts, ∀ c ∈ part, X509.IsStored c := by
    refine Run.of_mapM (fun m u v part hpart => ?_) hparts
    simp only [loadMaterial, bind_eq_ok_iff, backendAt_eq_ok_iff, pure_eq_ok_iff] at hpart
    obtain ⟨a, _, ⟨_, _, -, hload, -⟩, rfl, -⟩ := hpart
    rw [hb, hkind] at hload
    exact X509.forall_isStored_of_load hload
  intro c hc
  obtain ⟨part, hpart, hc⟩ := List.mem_flatten.1 hc
  exact hstored part hpart c hc

end Site

namespace Node

variable {σ : Type} {n : Node σ} {spec : CertificateSpec} {s t u : RunState σ} {p : Plan}

theorem kind_of_resolve {r : CertificateRequest} {signer : Signer}
    (h : (n.resolve spec).run.run s = (.ok (r, signer), t)) : r.kind = spec.request.kind := by
  have hunder (policy : Option SigningPolicy) : (spec.request.under policy).kind =
      spec.request.kind := by
    cases policy with
    | none => rfl
    | some q => exact Authority.kind_under q spec.request
  unfold resolve at h
  split at h
  · simp only [resolveRemote, bind_eq_ok_iff, pure_eq_ok_iff, Prod.mk.injEq] at h
    obtain ⟨_, _, -, _, _, -, _, _, -, _, _, -, ⟨rfl, -⟩, -⟩ := h
    exact hunder _
  · simp only [resolveLocal, bind_eq_ok_iff, pure_eq_ok_iff, Prod.mk.injEq] at h
    obtain ⟨_, _, -, _, _, -, ⟨rfl, -⟩, -⟩ := h
    exact hunder _

/-- What a plan holds as found or as wanted was loaded. -/
theorem isStored_of_plan (hb : n.site.backend = CertificateKind.backend)
    (hkind : spec.request.kind = .x509) (h : (n.plan spec).run.run s = (.ok p, t)) :
    p.desired.draft.request.kind = .x509 ∧
      (∀ a, p.existing = .loaded a → X509.IsStored a.certificate) ∧
      ∀ c ∈ p.desired.chain, X509.IsStored c := by
  obtain ⟨_, hresolve, hplans, -⟩ := of_plan h
  have hresolved : p.request.kind = .x509 := (kind_of_resolve hresolve).trans hkind
  obtain ⟨_, -, hdraft⟩ := hplans.draft
  rw [hb] at hdraft
  simp only [plan, bind_eq_ok_iff, pure_eq_ok_iff] at h
  obtain ⟨⟨r, signer⟩, _, -, subject, _, -, existing, _, hexisting, d, _, -, chain, _, hchain, rfl,
    -⟩ := h
  refine ⟨?_, fun a ha => ?_, Site.isStored_of_chain hb hresolved hchain⟩
  · rw [(CertificateKind.isFor_of_buildDraft hdraft).request]
    exact hresolved
  · obtain rfl : existing = .loaded a := ha
    obtain ⟨data, hload⟩ := Site.exists_of_existing hexisting
    rw [hb, show r.kind = .x509 from hresolved] at hload
    exact X509.isStored_of_load hload

end Node

/-! ## What is written -/

namespace Site

variable {σ χ α : Type} {s : Site σ} {t : Target} {make : Run σ α} {encode : α → Run σ Bytes}
  {report report' : Report χ α} {u v : RunState σ}

/-- The last thing that happened is that the target was replaced by this. -/
structure Wrote (s : Site σ) (t : Target) (data : Bytes) (v : RunState σ) : Prop where
  journal : ∃ before, v.journal = before ++ [.replace t.path data t.mode]
  files : ∃ files, s.files.replace files t.path data t.mode = (.ok (), v.world.files)

theorem wrote_of_overwrite {data : Bytes} {why : Option Reason} {copy : Option String}
    (h : (s.overwrite t data why).run.run u = (.ok copy, v)) : s.Wrote t data v := by
  rw [overwrite_eq, bind_eq_ok_iff] at h
  obtain ⟨_, w, -, h⟩ := h
  rw [bind_eq_ok_iff] at h
  obtain ⟨_, w', hreplace, h⟩ := h
  obtain ⟨-, rfl⟩ := pure_eq_ok_iff.1 h
  rw [atStage_eq_ok_iff, run_replace] at hreplace
  obtain ⟨hdone, rfl⟩ := Prod.mk.inj hreplace
  exact ⟨⟨w.journal, rfl⟩, w.world.files, Prod.ext (Outcome.mapError_eq_ok_iff.1 hdone) rfl⟩

theorem wrote_of_write (h : (s.write t report make encode).run.run u = (.ok report', v))
    (hidle : report.written = false) (hwritten : report'.written = true) :
    ∃ a data x x' y y', make.run.run x = (.ok a, x') ∧ (encode a).run.run y = (.ok data, y') ∧
      report'.held = some a ∧ s.Wrote t data v := by
  simp only [write, bind_eq_ok_iff] at h
  obtain ⟨_, u', -, h⟩ := h
  split at h
  · obtain ⟨rfl, -⟩ := pure_eq_ok_iff.1 h
    rw [hidle] at hwritten
    cases hwritten
  · simp only [bind_eq_ok_iff, pure_eq_ok_iff] at h
    obtain ⟨a, v', hmake, data, v'', hencode, _, _, hoverwrite, rfl, rfl⟩ := h
    exact ⟨a, data, u', v', v', v'', hmake, hencode, rfl, wrote_of_overwrite hoverwrite⟩

end Site

/-! ## What is decided -/

section

variable {b : Backend} {d : Desired} {now : Instant} {threshold : Span} {existing : Existing}

theorem Existing.of_decide_reEncode {c : Certificate} {changes : ChangeSet}
    (h : existing.decide b d now threshold = .ok (.reEncode c changes)) :
    ∃ a, existing = .loaded a ∧ a.certificate = c := by
  cases existing with
  | missing => cases Except.ok.inj h
  | unreadable => cases Except.ok.inj h
  | loaded a =>
    simp only [decide, Outcome.bind_eq_ok_iff] at h
    obtain ⟨found, -, h⟩ := h
    have h := Except.ok.inj h
    split at h
    · cases h
    · split at h
      · obtain ⟨rfl, -⟩ := Decision.reEncode.inj h
        exact ⟨a, rfl, rfl⟩
      · cases h

theorem Desired.differences_of_changesFrom {a : LoadedArtifact} {changes : ChangeSet}
    (h : d.changesFrom b a now threshold = .ok changes) :
    ∃ expiration, changes = d.differences b a expiration := by
  unfold changesFrom at h
  split at h
  · exact ⟨false, (Except.ok.inj h).symm⟩
  · obtain ⟨expiration, -, h⟩ := Outcome.map_eq_ok_iff.1 h
    exact ⟨expiration, h.symm⟩

theorem sameChain_self (ordered : Bool) (cs : List Certificate) :
    sameChain ordered cs cs = true := by
  cases ordered <;> exact beq_self_eq_true _

end

/-! ## Encoding again -/

namespace Node

variable {σ : Type} {n : Node σ} {spec : CertificateSpec} {s t v : RunState σ} {p : Plan}
  {report : Report ChangeSet Certificate}

/-- A certificate that is encoded again is the one that was found. -/
theorem of_certificate_reEncode (hplan : (n.plan spec).run.run s = (.ok p, t))
    (hrun : (n.certificate spec).run.run s = (.ok report, v)) (haction : report.action = .reEncode)
    (hwritten : report.written = true) :
    ∃ old m data, p.existing = .loaded old ∧ report.held = some old.certificate ∧
      (n.site.backend p.desired.draft.request.kind).encode m old.certificate p.desired.encoding
        { chain := p.desired.chain
          embedKey := if p.request.encoding = .pkcs12 then p.subject.privateKey else none
          passphrase := p.desired.passphrase
          friendlyName := p.desired.friendlyName } = .ok data ∧
      n.site.Wrote spec.target data v := by
  rw [certificate_eq, bind_eq_ok_iff] at hrun
  obtain ⟨_, _, hplan', hrun⟩ := hrun
  obtain ⟨rfl, rfl⟩ := Run.ok_inj hplan hplan'
  obtain ⟨decision, hdecide, hdecided, -⟩ := of_carryOut hrun
  rw [run_carryOut, hdecide, bind_eq_ok_iff] at hrun
  obtain ⟨_, _, hdecision, hrun⟩ := hrun
  obtain ⟨hsame, rfl⟩ := Prod.mk.inj hdecision
  obtain rfl := Except.ok.inj hsame
  rw [Site.settle_eq] at hrun
  cases decision with
  | keep c => cases haction.symm.trans hdecided
  | issue reason changes => cases haction.symm.trans hdecided
  | reEncode c changes =>
    obtain ⟨old, hold, rfl⟩ := Existing.of_decide_reEncode hdecide
    obtain ⟨c, data, _, _, _, _, hmake, hencode, hheld, hwrote⟩ :=
      Site.wrote_of_write hrun rfl hwritten
    obtain ⟨rfl, -⟩ := pure_eq_ok_iff.1 hmake
    simp only [encodeAs, Site.encode, bind_eq_ok_iff, backendAt_eq_ok_iff] at hencode
    obtain ⟨m, _, -, hencode, -⟩ := hencode
    exact ⟨old, m, data, hold, hheld, hencode, hwrote⟩

/-- **Encoding again keeps the certificate, and is done once.** A run that encodes an X.509
certificate again as text or as DER writes bytes that are loaded as the certificate that was there,
with the chain that is wanted in its order, in the encoding that is wanted, and against the same
encoding and chain detection has nothing to report about them. There is one exception, and there it
reports another encoding: DER in which a text of certificates stands is taken for that text. -/
theorem reEncoded_found_iff (hb : n.site.backend = CertificateKind.backend)
    (hkind : spec.request.kind = .x509) (hplan : (n.plan spec).run.run s = (.ok p, t))
    (hencoding : p.desired.encoding = .pem ∨ p.desired.encoding = .der)
    (hrun : (n.certificate spec).run.run s = (.ok report, v)) (haction : report.action = .reEncode)
    (hwritten : report.written = true) :
    ∃ old data loaded, p.existing = .loaded old ∧ report.held = some old.certificate ∧
      n.site.Wrote spec.target data v ∧
      (∀ passphrase, Backend.x509.load data passphrase = .ok loaded) ∧
      (loaded = { certificate := old.certificate, encoding := p.desired.encoding
                  chain := p.desired.chain } ↔
        (p.desired.encoding = .der → ¬ X509.TakenForText old.certificate.encoded)) ∧
      ∀ {b : Backend} {d : Desired} {now : Instant} {threshold : Span} {changes : ChangeSet},
        d.encoding = p.desired.encoding → d.chain = p.desired.chain →
        d.changesFrom b loaded now threshold = .ok changes →
        (changes.encoding = false ∧ changes.additionalCerts = false ↔
          (p.desired.encoding = .der → ¬ X509.TakenForText old.certificate.encoded)) := by
  obtain ⟨old, m, data, hold, hheld, hencode, hwrote⟩ :=
    of_certificate_reEncode hplan hrun haction hwritten
  obtain ⟨hx509, hstored, hchain⟩ := isStored_of_plan hb hkind hplan
  rw [hb, hx509] at hencode
  obtain ⟨loaded, hload, htext, hkept⟩ :=
    X509.exists_load_encodeArtifact (hstored old hold) hchain hencoding hencode
  have hexception : (p.desired.encoding = .der → ¬ X509.TakenForText old.certificate.encoded) ↔
      ¬ (p.desired.encoding = .der ∧ X509.TakenForText old.certificate.encoded) := not_and.symm
  have hother (h : p.desired.encoding = .der ∧ X509.TakenForText old.certificate.encoded) :
      loaded.encoding ≠ p.desired.encoding := by
    rw [htext h, h.1]
    decide
  refine ⟨old, data, loaded, hold, hheld, hwrote, hload, ?_, ?_⟩
  · rw [hexception]
    refine ⟨fun heq htaken => hother htaken (congrArg LoadedArtifact.encoding heq), hkept⟩
  · intro b d now threshold changes hsame hsameChain hchanges
    obtain ⟨expiration, rfl⟩ := Desired.differences_of_changesFrom hchanges
    rw [hexception]
    constructor
    · rintro ⟨hnone, -⟩ htaken
      refine hother htaken ?_
      rw [← hsame]
      exact bne_eq_false_iff_eq.1 hnone
    · intro h
      rw [hkept h]
      refine ⟨bne_eq_false_iff_eq.2 hsame.symm, ?_⟩
      show (!sameChain _ p.desired.chain d.chain) = false
      rw [hsameChain, sameChain_self]
      rfl

/-! ## A host that wants a chain behind its certificate -/

section

open X509 (HouseRun houseRun houseKey houseRequest)

variable {h : HouseRun} {data : Bytes}

/-- Signs what it keeps with its own key. -/
def host : Node FileStore where
  site := ⟨FileStore.fileSystem, CertificateKind.backend⟩
  config := {}
  store _ _ := .ok none

/-- The key of the house's certificate, as certificates write it. -/
def hostKey : PublicKey :=
  ⟨.x509, .ed25519, (X509.SubjectKey.mk .ed25519 (List.replicate 32 9)).encode⟩

/-- The certificate in `data` is to be put behind the one that is kept. -/
def hostSpec (data : Bytes) : CertificateSpec where
  target := { path := "/host.crt", mode := 0o644 }
  request :=
    { houseRequest with
      publicKey := some (.inline hostKey.encoded)
      signingPrivateKey := some (.inline houseKey.encoded)
      appendCerts := [.inline data] }

/-- The request of the host, with the defaults of its configuration. -/
def hostRequest (data : Bytes) : CertificateRequest := host.withDefaults (hostSpec data).request

/-- What is in `data` is what the host keeps. -/
def hostStart (data : Bytes) : RunState FileStore where
  world :=
    { files := ({} : FileStore).put "/host.crt" (.file data 0o644)
      now := .ofSeconds 0, seed := [] }

theorem publicKey_house (hrun : houseRun = .ok h) : h.certificate.info.publicKey = hostKey := by
  obtain ⟨hload, hd, hs, -⟩ := X509.of_houseRun hrun
  obtain ⟨hloaded, hread⟩ := X509.loadPublicKey_spelledKey
  obtain ⟨skey, hkey, hcertified⟩ := X509.publicKey_of_signDraft hd hs
  rw [Except.ok.inj (hload.symm.trans hloaded)] at hkey
  rw [hcertified, Except.ok.inj (hkey.symm.trans hread)]
  rfl

theorem ofEncoded_hostKey : X509.SubjectKey.ofEncoded hostKey.encoded =
    .ok ⟨.ed25519, List.replicate 32 9⟩ := by
  have hread : ((X509.KeyInfo.parser.parse? .tolerant hostKey.encoded).bind fun k =>
      k.algorithm?.map fun a => (a, k.bits)) = some (.ed25519, List.replicate 32 9) := by
    with_unfolding_all decide
  rw [X509.SubjectKey.ofEncoded, hread]

theorem loadPublicKey_hostKey : X509.loadPublicKey hostKey.encoded = .ok hostKey := by
  have hfirst : Armor.first? hostKey.encoded = none := by with_unfolding_all decide
  simp only [X509.loadPublicKey, X509.unarmored, hfirst, Outcome.bind_eq_ok_iff]
  exact ⟨_, rfl, _, ofEncoded_hostKey, rfl⟩

/-- The host drafts what the house drafted, but for how the key is written. -/
theorem buildDraft_hostRequest (hrun : houseRun = .ok h) {m : Moment} (hm : m.now = .ofSeconds 0) :
    X509.buildDraft m .certificate (hostRequest data) hostKey ⟨h.signer, none⟩ =
      .ok { h.draft with
        request := hostRequest data, info := { h.draft.info with publicKey := hostKey } } := by
  obtain ⟨hload, hd, -⟩ := X509.of_houseRun hrun
  obtain ⟨hloaded, hread⟩ := X509.loadPublicKey_spelledKey
  have hcontent : houseRequest.SameContent (hostRequest data) := by constructor <;> rfl
  have hd' : X509.buildDraft m .certificate (hostRequest data) h.subject ⟨h.signer, none⟩ =
      .ok { h.draft with request := hostRequest data } :=
    X509.buildDraft_of_sameContent hcontent rfl rfl (by rw [hm]; rfl) rfl hd
  rw [Except.ok.inj (hload.symm.trans hloaded)] at hd'
  simp only [X509.buildDraft, Outcome.bind_eq_ok_iff] at hd' ⊢
  obtain ⟨_, hcheck, skey, hkey, out, hout, info, hinfo, hd'⟩ := hd'
  obtain rfl := Except.ok.inj (hkey.symm.trans hread)
  have hd' := Except.ok.inj hd'
  refine ⟨_, hcheck, _, ofEncoded_hostKey, out, hout, info, hinfo, congrArg Except.ok ?_⟩
  have hsigner : (⟨h.signer, none⟩ : SignerIdentity) = h.draft.signer := congrArg Draft.signer hd'
  have hview : { info with
      digest := out.2.digest?, publicKey := ⟨.x509, .ed25519, X509.spelledKey⟩ } = h.draft.info :=
    congrArg Draft.info hd'
  rw [hsigner, ← hview]

theorem resolve_host (hrun : houseRun = .ok h) (data : Bytes) (s : RunState FileStore) :
    (host.resolve (hostSpec data)).run.run s =
      (.ok (hostRequest data, .here ⟨houseKey, ⟨h.signer, none⟩⟩), s) := by
  have hload : X509.loadPrivateKey houseKey.encoded none = .ok houseKey :=
    Authority.loadPrivateKey_openKey none
  have hsigner : (host.site.signer (hostRequest data)).run.run s =
      (.ok (some ⟨houseKey, ⟨h.signer, none⟩⟩), s) := by
    unfold Site.signer
    rw [show (hostRequest data).signingPrivateKey = some (.inline houseKey.encoded) from rfl]
    simp only [bind_eq_ok_iff, backendAt_eq_ok_iff, pure_eq_ok_iff]
    exact ⟨_, _, rfl, houseKey, _, ⟨hload, rfl⟩, h.signer, _, ⟨derivePublicKey_house hrun, rfl⟩,
      none, _, rfl, rfl, rfl⟩
  rw [resolve, show (hostSpec data).authority = none from rfl]
  simp only [resolveLocal, bind_eq_ok_iff, pure_eq_ok_iff]
  exact ⟨none, s, rfl, _, s, Site.requireSigner_eq_ok_iff.2 hsigner, rfl, rfl⟩

/-- What the host wants, and what it finds. -/
def hostPlan (h : HouseRun) (data : Bytes) : Plan where
  request := hostRequest data
  signer := .here ⟨houseKey, ⟨h.signer, none⟩⟩
  subject := ⟨hostKey, none⟩
  existing := .loaded { certificate := h.certificate, encoding := .pem }
  desired :=
    { draft :=
        { h.draft with
          request := hostRequest data, info := { h.draft.info with publicKey := hostKey } }
      encoding := .pem
      chain := [h.certificate] }

theorem exists_plan_host (hrun : houseRun = .ok h)
    (hload : Backend.x509.load data none = .ok { certificate := h.certificate, encoding := .pem }) :
    ∃ u, (host.plan (hostSpec data)).run.run (hostStart data) = (.ok (hostPlan h data), u) ∧
      u.world.files = (hostStart data).world.files ∧ u.world.now = .ofSeconds 0 := by
  have hsubject : (host.site.subjectKey (hostRequest data) h.signer).run.run
      ⟨(hostStart data).world, [], {}⟩ =
        (.ok ⟨hostKey, none⟩, ⟨(hostStart data).world, [], {}⟩) := by
    unfold Site.subjectKey
    rw [show (hostRequest data).publicKey = some (.inline hostKey.encoded) from rfl]
    simp only [bind_eq_ok_iff, backendAt_eq_ok_iff, pure_eq_ok_iff]
    exact ⟨hostKey.encoded, _, rfl, hostKey, _, ⟨loadPublicKey_hostKey, rfl⟩, rfl, rfl⟩
  have hchain (w : World FileStore) : (host.site.chain (hostRequest data)).result w =
      .ok [h.certificate] := by
    have hrun : (host.site.chain (hostRequest data)).run.run ⟨w, [], {}⟩ =
        (.ok [h.certificate], ⟨w, [], {}⟩) := by
      unfold Site.chain
      rw [show (hostRequest data).appendCerts = [.inline data] from rfl]
      simp only [List.mapM_cons, List.mapM_nil, Site.loadMaterial, bind_eq_ok_iff,
        backendAt_eq_ok_iff, pure_eq_ok_iff]
      exact ⟨_, _, ⟨_, _, ⟨_, _, ⟨data, _, rfl, hload, rfl⟩, rfl, rfl⟩, _, _, ⟨rfl, rfl⟩, rfl, rfl⟩,
        rfl, rfl⟩
    exact congrArg Prod.fst hrun
  obtain ⟨u, hplan, hfiles, hnow, -⟩ := exists_plan (resolve_host hrun data (hostStart data))
    (congrArg Prod.fst hsubject) (Site.existing_of_loads rfl rfl hload)
    (fun m hm => buildDraft_hostRequest hrun hm) fun w _ => hchain w
  exact ⟨u, hplan, hfiles, hnow⟩

/-- All there is to see is the chain. -/
theorem decideOn_host (hrun : houseRun = .ok h) :
    host.decideOn (hostSpec data) (hostPlan h data) (.ofSeconds 0) =
      .ok (.reEncode h.certificate { additionalCerts := true }) := by
  let found : LoadedArtifact := { certificate := h.certificate, encoding := .pem }
  let alone : Desired := { (hostPlan h data).desired with chain := [] }
  obtain ⟨-, hd, hs, -, hconfirms⟩ := X509.of_houseRun hrun
  obtain ⟨-, -, -, hartifact, -⟩ := X509.digest_of_buildDraft hd
  have hview := X509.view_eq_of_signDraft hd hs (.inl rfl)
  have hverifies : Backend.x509.verifies found.certificate alone.draft.signer.publicKey = true := by
    have hsigner : alone.draft.signer = ⟨h.signer, none⟩ :=
      (CertificateKind.isFor_of_buildDraft (k := .x509) hd).signer
    rw [hsigner]
    exact X509.verifies_of_signDraft (by decide) hd hs hconfirms
  have halone : alone.differences Backend.x509 found false = {} := by
    have hbody : alone.draft.SameBody alone.draft := by
      constructor <;> first | rfl | exact fun _ => rfl
    have hkey : (found.certificate.info.publicKey != alone.draft.info.publicKey) = false :=
      bne_eq_false_iff_eq.2 (publicKey_house hrun)
    have hwanted : found.IsAsWanted alone := by
      have hpem : alone.encoding ≠ .pkcs12 := by
        show Encoding.pem ≠ .pkcs12
        decide
      exact ⟨rfl, rfl, fun h => absurd h hpem, fun h => absurd h hpem⟩
    rw [Desired.differences_of_sameBody hbody hartifact (by rw [hview]; rfl) hverifies hwanted,
      hkey, bne_self_eq_false]
  have hdifferences : (hostPlan h data).desired.differences Backend.x509 found false =
      { alone.differences Backend.x509 found false with additionalCerts := true } := rfl
  have hremaining : h.certificate.info.notAfter.any (·.lt (.ofSeconds 604800)) = false := by
    rw [notAfter_house hrun]
    decide
  have hsigned : (hostPlan h data).desired.draft.info.artifact ≠ .csr := by
    rw [show (hostPlan h data).desired.draft.info.artifact = .certificate from hartifact]
    decide
  have hlimit : (Instant.ofSeconds 0).plus? (host.thresholdFor (hostSpec data) (hostPlan h data)) =
      some (.ofSeconds 604800) := rfl
  have hchanges : (hostPlan h data).desired.changesFrom Backend.x509 found (.ofSeconds 0)
      (host.thresholdFor (hostSpec data) (hostPlan h data)) = .ok { additionalCerts := true } := by
    rw [Desired.changesFrom_eq_ok hsigned hlimit, hremaining, hdifferences, halone]
  simp only [decideOn, hostPlan, Existing.decide, Outcome.bind_eq_ok_iff]
  exact ⟨_, hchanges, rfl⟩

/-- The host finds its certificate alone, and writes it with the chain that it wants. -/
theorem reEncoded_found_iff_of_host :
    ∃ (h : HouseRun) (data again : Bytes) (t v : RunState FileStore)
      (report : Report ChangeSet Certificate),
      host.site.backend = CertificateKind.backend ∧
      (hostSpec data).request.kind = .x509 ∧
      (host.plan (hostSpec data)).run.run (hostStart data) = (.ok (hostPlan h data), t) ∧
      (hostPlan h data).desired.encoding = .pem ∧
      (host.certificate (hostSpec data)).run.run (hostStart data) = (.ok report, v) ∧
      report.action = .reEncode ∧ report.written = true ∧
      report.held = some h.certificate ∧ host.site.Wrote (hostSpec data).target again v ∧
      Backend.x509.load again none =
        .ok { certificate := h.certificate, encoding := .pem, chain := [h.certificate] } := by
  obtain ⟨h, hrun⟩ := Outcome.exists_eq_ok_of_isOk X509.houseRun_isOk
  obtain ⟨-, hd, hs, -⟩ := X509.of_houseRun hrun
  have hstored := X509.isStored_of_signDraft hd hs
  obtain ⟨data, -, hload⟩ :=
    X509.load_encodeArtifact ⟨.ofSeconds 0, []⟩ hstored (o := {}) (by simp) none
  obtain ⟨t, hplan, hfiles, hnow⟩ := exists_plan_host hrun hload
  have hwrite : ∃ files, host.CanWrite (hostSpec data) (hostPlan h data) t h.certificate files := by
    obtain ⟨again, hencode, -⟩ := X509.load_encodeArtifact ⟨.ofSeconds 0, []⟩ hstored
      (o := { chain := [h.certificate] }) (List.forall_mem_singleton.2 hstored) none
    refine ⟨(t.world.files.replace "/host.crt" again 0o644).2, ⟨rfl, rfl⟩, ?_, again,
      fun _ => hencode, ?_⟩
    · rw [hfiles]
      rfl
    · refine Prod.ext ?_ rfl
      rw [hfiles]
      rfl
  obtain ⟨files, hwrite⟩ := hwrite
  have hdecide : host.decideOn (hostSpec data) (hostPlan h data) t.world.now =
      .ok (.reEncode h.certificate { additionalCerts := true }) := by
    rw [hnow]
    exact decideOn_host hrun
  obtain ⟨v, hcarry, -⟩ := exists_carryOut_of_reEncode hdecide hwrite
  have hcertificate := bind_eq_ok_iff.2 ⟨_, t, hplan, hcarry⟩
  rw [← certificate_eq] at hcertificate
  obtain ⟨old, again, loaded, hold, hheld, hwrote, hloaded, hfound, -⟩ :=
    reEncoded_found_iff rfl rfl hplan (.inl rfl) hcertificate rfl rfl
  obtain rfl := Existing.loaded.inj hold
  have hsame := hfound.2 fun hder => by cases hder
  rw [hsame] at hloaded
  exact ⟨h, data, again, t, v, _, rfl, rfl, hplan, rfl, hcertificate, rfl, rfl, hheld, hwrote,
    hloaded none⟩

end

end Node
end CertAuthority
