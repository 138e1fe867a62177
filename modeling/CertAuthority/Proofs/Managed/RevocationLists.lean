import CertAuthority.Proofs.Managed.ReEncoding
import CertAuthority.Proofs.Managed.Targets
import CertAuthority.Proofs.X509.ListFiles

/-!
# What a run leaves in its revocation list

The list that a path shows is all that one run passes on to the next. A run leaves it as it is, even
if it encodes it again, or puts a new list there.

* `FileSystem.list?` : the list that a path shows;
* `ListRun` : a run, with the state it starts from;
* `Node.of_prepareList` : what is known of a list that was prepared;
* `ListRun.Lists` : what a new list takes from the request and from the list before it;
* `ListRun.cases_list` : what one run does to the list;
* `Follow` : runs on one path, one after another.
-/

namespace CertAuthority

open Run (bind_eq_ok_iff pure_eq_ok_iff backendAt_eq_ok_iff atStage_eq_ok_iff Looks)

/-! ## What a path shows -/

namespace FileSystem

variable {σ : Type} {f : FileSystem σ} {path : String} {files files' : σ} {data : Bytes}
  {parse : Bytes → BackendResult LoadedArtifact} {a : LoadedArtifact}

/-- What a path shows to those who read it so. -/
def shown? (f : FileSystem σ) (path : String) (parse : Bytes → BackendResult LoadedArtifact)
    (files : σ) : Option LoadedArtifact :=
  if f.has files path then (f.read files path).toOption.bind fun data => (parse data).toOption
  else none

/-- The revocation list that a path shows. -/
def list? (f : FileSystem σ) (path : String) (files : σ) : Option Certificate :=
  (f.shown? path X509.loadList files).map (·.certificate)

theorem shown?_of_sight (h : f.sight path files = f.sight path files') :
    f.shown? path parse files = f.shown? path parse files' := by
  unfold shown?
  rw [has_of_sight h, read_of_sight h]

theorem list?_of_sight (h : f.sight path files = f.sight path files') :
    f.list? path files = f.list? path files' := by
  unfold list?
  rw [shown?_of_sight h]

theorem shown?_of_loads (h : f.sight path files = (true, false, .ok data))
    (hparse : parse data = .ok a) : f.shown? path parse files = some a := by
  have hhas : f.has files path = true := congrArg Prod.fst h
  have hread : f.read files path = .ok data := congrArg (·.2.2) h
  rw [shown?, if_pos hhas, hread]
  show (parse data).toOption = some a
  rw [hparse]
  rfl

theorem exists_of_shown? (h : f.shown? path parse files = some a) : ∃ data, parse data = .ok a := by
  unfold shown? at h
  split at h
  · obtain ⟨data, -, h⟩ := Option.bind_eq_some_iff.1 h
    exact ⟨data, Outcome.toOption_eq_some_iff.1 h⟩
  · cases h

end FileSystem

/-- What is found at a path is what it shows. -/
theorem Site.loaded?_of_existing {σ : Type} {s : Site σ} {path : String}
    {parse : Bytes → BackendResult LoadedArtifact} {e : Existing} {u v : RunState σ}
    (h : (s.existing path parse).run.run u = (.ok e, v)) :
    e.loaded? = s.files.shown? path parse u.world.files := by
  rw [existing, bind_eq_ok_iff] at h
  obtain ⟨there, w, hlooked, h⟩ := h
  have hfound : (s.has path).run.run u = (.ok (s.files.has u.world.files path), u) := rfl
  obtain ⟨rfl, rfl⟩ := Run.ok_inj hfound hlooked
  unfold FileSystem.shown?
  split at h
  · rename_i hmissing
    obtain ⟨rfl, -⟩ := pure_eq_ok_iff.1 h
    rw [if_neg (by simpa using hmissing)]
    rfl
  · rename_i hthere
    rw [bind_eq_ok_iff] at h
    obtain ⟨data, w, hread, h⟩ := h
    rw [atStage_eq_ok_iff, Site.run_read] at hread
    rw [if_pos (by simpa using hthere), Outcome.mapError_eq_ok_iff.1 (Prod.mk.inj hread).1]
    show e.loaded? = (parse data).toOption
    split at h
    · rename_i hparse
      obtain ⟨rfl, -⟩ := pure_eq_ok_iff.1 h
      rw [hparse]
      rfl
    · rename_i hparse
      obtain ⟨rfl, -⟩ := pure_eq_ok_iff.1 h
      rw [hparse]
      rfl
    · cases h

/-! ## What is prepared -/

/-- Of steps that only look, each result is that of one of them from the first world. -/
theorem Run.Looks.of_mapM {σ α β : Type} {f : α → Run σ β} (hf : ∀ x, Looks (f x)) {xs : List α}
    {ys : List β} {u v : RunState σ} (h : (xs.mapM f).run.run u = (.ok ys, v)) :
    ∀ y ∈ ys, ∃ x ∈ xs, (f x).result u.world = .ok y := by
  induction xs generalizing u v ys with
  | nil =>
    rw [List.mapM_nil, pure_eq_ok_iff] at h
    obtain ⟨rfl, -⟩ := h
    exact nofun
  | cons x xs ih =>
    simp only [List.mapM_cons, bind_eq_ok_iff, pure_eq_ok_iff] at h
    obtain ⟨y, w, hy, rest, _, hrest, rfl, -⟩ := h
    obtain ⟨hvalue, hworld⟩ := (hf x).of_eq_ok hy
    refine List.forall_mem_cons.2 ⟨⟨x, List.mem_cons_self, hvalue⟩, fun z hz => ?_⟩
    obtain ⟨x', hx', hresult⟩ := ih hrest z hz
    rw [hworld] at hresult
    exact ⟨x', List.mem_cons_of_mem x hx', hresult⟩

namespace Node

variable {σ : Type} {n : Node σ} {spec : RevocationListSpec} {r r' : CertificateRequest}
  {existing : Existing} {u v s t : RunState σ} {j : Job σ ChangeSet Certificate}

theorem looks_completeEntry (kind : CertificateKind) (e : RevokedCertificate) :
    Looks (n.completeEntry kind e) := by
  unfold completeEntry
  split
  · exact .pure _
  · exact (((Site.looks_material _ _).bind fun _ => .backendAt _ _)).bind fun _ => .pure _

/-- A request with complete entries differs from what was asked for in the entries, the dates they
are given, and the time to the next list. -/
theorem of_listRequest (h : (n.listRequest r existing).run.run u = (.ok r', v)) :
    r'.serialNumber = r.serialNumber ∧ r'.kind = r.kind ∧ r'.encoding = r.encoding ∧
    ∀ e ∈ r'.revoked, ∃ e₀ ∈ r.revoked, ∃ e₁,
      (n.completeEntry r.kind e₀).result u.world = .ok e₁ ∧
      e = e₁.keepDate ((existing.loaded?.map (·.certificate.info.revoked)).getD []) := by
  rw [listRequest, bind_eq_ok_iff] at h
  obtain ⟨completed, w, hcompleted, h⟩ := h
  obtain ⟨rfl, -⟩ := pure_eq_ok_iff.1 h
  refine ⟨rfl, rfl, rfl, fun e he => ?_⟩
  obtain ⟨e₁, he₁, rfl⟩ := List.mem_map.1 he
  obtain ⟨e₀, he₀, hresult⟩ :=
    Looks.of_mapM (fun e => looks_completeEntry r.kind e) hcompleted e₁ he₁
  exact ⟨e₀, he₀, e₁, hresult, rfl⟩

/-- The number of a draft is the one that its request asks for, or the next. -/
theorem numbered_eq {m : Moment} {subject : PublicKey} {signer : SignerIdentity} {d : Draft}
    (hd : X509.buildDraft m .crl r subject signer = .ok d) (existing : Existing) :
    numbered existing d = { d with
      info := { d.info with
        serialNumber := some (r.serialNumber.getD (nextListNumber existing)) } } := by
  obtain ⟨hrequest, -⟩ := X509.digest_of_buildDraft hd
  have hdrafted := X509.serialNumber_of_buildDraft_list hd
  obtain ⟨request, signer, info⟩ := d
  obtain rfl : request = r := hrequest
  replace hdrafted : info.serialNumber = some (request.serialNumber.getD X509.firstListNumber) :=
    hdrafted
  unfold numbered
  cases hnumber : request.serialNumber with
  | none => simp only [Option.isSome_none, Bool.false_eq_true, if_false, Option.getD_none]
  | some number =>
    rw [hnumber, Option.getD_some] at hdrafted
    simp only [Option.isSome_some, if_true, Option.getD_some]
    rw [← hdrafted]

/-- What is known of a list that was prepared. -/
theorem of_prepareList (hb : n.site.backend = CertificateKind.backend)
    (h : (n.prepareList spec).run.run s = (.ok j, t)) :
    ∃ (existing : Existing) (u v : RunState σ) (r : CertificateRequest) (m : Moment)
      (signer : SignerIdentity) (d : Draft) (key : PrivateKey),
      spec.request.kind = .x509 ∧
      existing.loaded? = n.site.files.shown? spec.target.path X509.loadList s.world.files ∧
      u.world = s.world ∧ (n.listRequest spec.request existing).run.run u = (.ok r, v) ∧
      X509.buildDraft m .crl r signer.publicKey signer = .ok d ∧ d.request = r ∧
      j.issue = n.site.sign (numbered existing d) key ∧
      (∀ m c, j.encode m c = X509.encodeArtifact m c spec.request.encoding {}) ∧
      ∀ c changes, j.decision = .reEncode c changes →
        ∃ a, existing = .loaded a ∧ a.certificate = c := by
  simp only [prepareList, bind_eq_ok_iff] at h
  obtain ⟨existing, u, hexisting, r, v, hr, signing, w, -, d, w', hdraft, h⟩ := h
  obtain ⟨-, hworld⟩ := (Site.looks_existing _ _).of_eq_ok hexisting
  have hloaded := Site.loaded?_of_existing hexisting
  obtain ⟨-, hkind, hencoding, -⟩ := of_listRequest hr
  simp only [Site.draft, bind_eq_ok_iff, backendAt_eq_ok_iff] at hdraft
  obtain ⟨m, _, -, hdraft, -⟩ := hdraft
  rw [hb, hkind] at hdraft
  rw [hb] at hloaded
  cases hfamily : spec.request.kind with
  | ssh =>
    -- there are no lists of this kind
    rw [hfamily] at hdraft
    obtain ⟨_, hcheck, -⟩ := Outcome.bind_eq_ok_iff.1 hdraft
    unfold OpenSsh.checkRequest at hcheck
    split at hcheck
    · cases hcheck
    · cases hcheck
  | x509 =>
    rw [hfamily] at hdraft hloaded
    obtain ⟨hrequest, -⟩ := X509.digest_of_buildDraft hdraft
    have hlist : d.request.kind = .x509 := by rw [hrequest, hkind, hfamily]
    simp only [artifactJob, decide, bind_eq_ok_iff, pure_eq_ok_iff, hb, hlist] at h
    obtain ⟨decision, x, ⟨_, _, -, hdecide⟩, rfl, -⟩ := h
    refine ⟨existing, u, v, r, m, signing.identity, d, signing.key, rfl, hloaded, hworld, hr,
      hdraft, hrequest, rfl, fun m c => ?_, fun c changes hdecision => ?_⟩
    · rw [← hencoding]
      rfl
    · rw [Run.ofBackend, Run.ofOutcome_eq_ok_iff, Outcome.mapError_eq_ok_iff] at hdecide
      have hdecide := hdecide.1
      rw [show decision = .reEncode c changes from hdecision] at hdecide
      exact Existing.of_decide_reEncode hdecide

end Node

/-! ## One run -/

/-- A run for a revocation list, from some state. -/
structure ListRun (σ : Type) where
  node : Node σ
  spec : RevocationListSpec
  start : RunState σ

namespace ListRun

variable {σ : Type} {r : ListRun σ} {f : FileSystem σ} {path : String}

/-- What the run comes to. -/
def out (r : ListRun σ) : Outcome Error (Report ChangeSet Certificate) :=
  ((r.node.revocationList r.spec).run.run r.start).1

/-- The files after the run. -/
def files (r : ListRun σ) : σ := ((r.node.revocationList r.spec).run.run r.start).2.world.files

/-- The list that the run issued and put in its place. -/
def issued? (r : ListRun σ) : Option Certificate :=
  match r.out with
  | .ok report => if report.action = .issue ∧ report.written = true then report.held else none
  | .error _ => none

/-- The run is about the path. -/
structure On (r : ListRun σ) (f : FileSystem σ) (path : String) : Prop where
  files : r.node.site.files = f
  backend : r.node.site.backend = CertificateKind.backend
  target : r.spec.target.path = path

/-- No list that the run writes as DER is taken for text. -/
def IsPlain (r : ListRun σ) : Prop :=
  ∀ report c, r.out = .ok report → report.written = true → report.held = some c →
    r.spec.request.encoding = .der → ¬ X509.HoldsText c.encoded

/-- The number after that of the list before, as the lists have it. -/
def numberAfter (before : Option Certificate) : SerialNumber :=
  ⟨min (((before.bind (·.info.serialNumber)).map (·.low64)).getD 0 + 1) (bitLimit 64 - 1)⟩

/-- What a new list takes from the request, and from the list before it: its number, and the dates of
entries without a date of their own. -/
structure Lists (r : ListRun σ) (before : Option Certificate) (c : Certificate) : Prop where
  number : c.info.serialNumber = some (r.spec.request.serialNumber.getD (numberAfter before))
  entries : ∀ o ∈ c.info.revoked, ∃ e₀ ∈ r.spec.request.revoked, ∃ e₁ : RevokedCertificate,
    (r.node.completeEntry r.spec.request.kind e₀).result r.start.world = .ok e₁ ∧
    e₁.serialNumber = some o.serialNumber ∧
    (e₁.revocationDate = none → ∀ listed,
      (before.bind fun c => RevocationsDiff.firstWith? o.serialNumber c.info.revoked) =
        some listed → listed.revocationDate.nanos = 0 →
          o.revocationDate = listed.revocationDate)
  nodup : (c.info.revoked.map (·.serialNumber)).Nodup

theorem numberAfter_map {existing : Existing} :
    numberAfter (existing.loaded?.map (·.certificate)) = nextListNumber existing := by
  unfold numberAfter nextListNumber
  rw [Option.bind_map]
  rfl

/-- An entry that is listed already keeps its date. -/
theorem revocationDate_keepDate {e : RevokedCertificate} {q listed : Revocation}
    {before : List Revocation} (hserial : e.serialNumber = some q.serialNumber)
    (hnone : e.revocationDate = none)
    (hlisted : RevocationsDiff.firstWith? q.serialNumber before = some listed) :
    (e.keepDate before).revocationDate = some listed.revocationDate := by
  have hfind : before.find? (fun r => e.serialNumber == some r.serialNumber) = some listed := by
    rw [← hlisted, RevocationsDiff.firstWith?]
    congr 1
    funext r
    rw [hserial, Bool.beq_comm]
    rfl
  rw [RevokedCertificate.keepDate, hnone, hfind]
  rfl

/-- A list that was signed takes from the request and the list before it what it has to. -/
theorem lists_of_signDraft {existing : Existing} {u v : RunState σ} {rq : CertificateRequest}
    {m : Moment} {signer : SignerIdentity} {d : Draft} {key : PrivateKey} {digest : Option Digest}
    {c : Certificate} (hworld : u.world = r.start.world)
    (hrequest : (r.node.listRequest r.spec.request existing).run.run u = (.ok rq, v))
    (hd : X509.buildDraft m .crl rq signer.publicKey signer = .ok d)
    (hs : X509.signDraft (Node.numbered existing d) key digest = .ok c) :
    r.Lists (existing.loaded?.map (·.certificate)) c := by
  obtain ⟨hnumber, -, -, hentries⟩ := Node.of_listRequest hrequest
  rw [Node.numbered_eq hd] at hs
  obtain ⟨-, hserial, hrevoked, -⟩ := X509.of_signDraft_list hd hs
  obtain ⟨_, window, revoked, _, f, -, -, hlisted, -, hrenders, rfl⟩ :=
    X509.renders_of_buildDraft_list hd
  replace hrevoked : c.info.revoked = revoked.map X509.settledEntry :=
    hrevoked.trans hrenders.revoked
  refine ⟨?_, fun o ho => ?_, ?_⟩
  · rw [hserial, hnumber, numberAfter_map]
  · rw [hrevoked] at ho
    obtain ⟨q, hq, rfl⟩ := List.mem_map.1 ho
    obtain ⟨e, he, hserial, hdate, -⟩ := X509.of_mem_revocationsOf hlisted q hq
    obtain ⟨e₀, he₀, e₁, hcomplete, rfl⟩ := hentries e he
    rw [hworld] at hcomplete
    refine ⟨e₀, he₀, e₁, hcomplete, hserial, fun hnone listed hbefore hwhole => ?_⟩
    replace hbefore : RevocationsDiff.firstWith? q.serialNumber
        ((existing.loaded?.map (·.certificate.info.revoked)).getD []) = some listed := by
      cases hloaded : existing.loaded? with
      | none =>
        rw [hloaded] at hbefore
        cases hbefore
      | some a =>
        rw [hloaded] at hbefore
        exact hbefore
    have hkept : e₁.serialNumber = some q.serialNumber := hserial
    rw [revocationDate_keepDate hkept hnone hbefore, Option.getD_some] at hdate
    show q.revocationDate.wholeSecond = listed.revocationDate
    rw [hdate, X509.wholeSecond_of_nanos hwhole]
  · rw [hrevoked, List.map_map]
    exact X509.nodup_revocationsOf hlisted

/-- **What one run does to the list.** It leaves the list as it is, or it issues one that takes from
the request and from the list before it what it has to. If it is plain, that is what the path shows
then. -/
theorem cases_list (hr : r.On f path) (hfiles : f.IsFaithful path) :
    (r.issued? = none ∧
      (r.IsPlain → f.list? path r.files = f.list? path r.start.world.files)) ∨
    ∃ c, r.issued? = some c ∧ r.Lists (f.list? path r.start.world.files) c ∧
      (r.IsPlain → ∃ c', f.list? path r.files = some c' ∧
        c'.info.serialNumber = c.info.serialNumber ∧ c'.info.revoked = c.info.revoked) := by
  obtain ⟨rfl, hb, rfl⟩ := hr
  have hrun : (r.node.manage (.revocationList r.spec)).run.run r.start =
      (r.out, ((r.node.revocationList r.spec).run.run r.start).2) := rfl
  rcases Node.cases_sight (a := .revocationList r.spec) trivial hfiles hrun with
    ⟨hsight, hidle⟩ | ⟨j, t, b, data, m, report, hj, hmakes, hencode, hsight, hreport, haction,
      hwritten, hheld⟩
  · refine .inl ⟨?_, fun _ => FileSystem.list?_of_sight hsight⟩
    unfold issued?
    split
    · rename_i report hreport
      refine if_neg fun hissued => ?_
      exact Bool.false_ne_true ((hidle report hreport).2.symm.trans hissued.2)
    · rfl
  obtain ⟨existing, u, v, rq, m', signer, d, key, hkind, hloaded, hworld, hrequest, hd, hdrafted,
    hissue, hencodes, hagain⟩ := Node.of_prepareList hb hj
  rw [hencodes] at hencode
  have hbefore : r.node.site.files.list? r.spec.target.path r.start.world.files =
      existing.loaded?.map (·.certificate) := by
    rw [hloaded]
    rfl
  have hafter {i : CertificateInfo} (hi : X509.listInfo b.encoded = .ok i)
      (hlist : b.info.artifact = .crl) (hplain : r.IsPlain) :
      r.node.site.files.list? r.spec.target.path r.files = some ⟨b.encoded, i⟩ := by
    have hload := X509.loadList_encodeArtifact hi hlist hencode
      (hplain report b hreport hwritten hheld)
    have hshown : r.node.site.files.shown? r.spec.target.path X509.loadList r.files = some _ :=
      FileSystem.shown?_of_loads hsight hload
    unfold FileSystem.list?
    rw [hshown]
    rfl
  have hissued : r.issued? = if report.action = .issue ∧ report.written = true then
      report.held else none := by
    unfold issued?
    rw [hreport]
  rw [haction, hwritten, hheld] at hissued
  unfold Job.Makes at hmakes
  cases hdecision : j.decision with
  | keep c =>
    rw [hdecision] at hmakes
    exact hmakes.elim
  | reEncode c changes =>
    -- the list that was found is written again
    rw [hdecision] at hmakes hissued
    obtain rfl := hmakes
    obtain ⟨a, rfl, rfl⟩ := hagain b changes hdecision
    obtain ⟨found, hfound⟩ := FileSystem.exists_of_shown? hloaded.symm
    have hi := X509.listInfo_of_loadList hfound
    refine .inl ⟨hissued, fun hplain => ?_⟩
    rw [hbefore, hafter hi (X509.artifact_of_listInfo hi) hplain]
    rfl
  | issue reason changes =>
    rw [hdecision] at hmakes hissued
    obtain ⟨x, y, hmakes⟩ := hmakes
    rw [hissue, Site.sign] at hmakes
    simp only [bind_eq_ok_iff, backendAt_eq_ok_iff] at hmakes
    obtain ⟨_, _, -, m, _, -, hs, -⟩ := hmakes
    obtain ⟨-, hfamily, -⟩ := Node.of_listRequest hrequest
    have hx509 : (Node.numbered existing d).request.kind = .x509 := by
      rw [Node.numbered_eq hd, hdrafted, hfamily, hkind]
    rw [hb, hx509] at hs
    have hlists : r.Lists (existing.loaded?.map (·.certificate)) b :=
      lists_of_signDraft hworld hrequest hd hs
    have hsigned := hs
    rw [Node.numbered_eq hd] at hsigned
    obtain ⟨hlist, -, -, i, hi, hnumber, hrevoked⟩ := X509.of_signDraft_list hd hsigned
    exact .inr ⟨b, hissued, hbefore ▸ hlists, fun hplain =>
      ⟨⟨b.encoded, i⟩, hafter hi hlist hplain, hnumber, hrevoked⟩⟩

end ListRun

/-! ## One run after another -/

/-- Runs on one path, one after another. Nobody else writes there: each finds what the last one left,
or what was there at first. -/
inductive Follow {σ : Type} (f : FileSystem σ) (path : String) : σ → List (ListRun σ) → Prop where
  | nil (files : σ) : Follow f path files []
  | cons {files : σ} {r : ListRun σ} {rs : List (ListRun σ)} (on : r.On f path)
      (plain : r.IsPlain) (found : f.sight path r.start.world.files = f.sight path files)
      (rest : Follow f path r.files rs) : Follow f path files (r :: rs)

/-! ## A list with the last number -/

section

open X509 Der

/-- A list of one certificate, with the last number of 64 bits. -/
def lastList : Bytes :=
  let date := element tagUtcTime (Bytes.ofText "700101000000Z")
  seqOf [
    seqOf [nat 1, keyIdentifierOf .ed25519, seqOf [], date, date, seqOf [seqOf [nat 5, date]],
      explicit 0 (seqOf [(Extension.mk oidListNumber false (nat (bitLimit 64 - 1))).encode])],
    keyIdentifierOf .ed25519, Der.bits []]

/-- Another certificate is to be listed, a minute later. -/
def lastRun : ListRun FileStore where
  node := Node.keeper
  spec :=
    { target := { path := "/ca.crl", mode := Target.artifactMode }
      request :=
        { CertificateRequest.new .x509 with
          signingPrivateKey := some (.inline houseKey.encoded)
          revoked := [{ serialNumber := some ⟨7⟩ }, { serialNumber := some ⟨5⟩ }] } }
  start :=
    { world :=
        { files := ({} : FileStore).put "/ca.crl" (.file lastList Target.artifactMode)
          now := .ofSeconds 60, seed := [] } }

/-- A list is issued, and the certificate that was listed is still there. -/
theorem issued_lastRun : ∃ c o, lastRun.issued? = some c ∧
    RevocationsDiff.firstWith? ⟨5⟩ c.info.revoked = some o := by
  have hlisted : (lastRun.issued?.bind fun c =>
      RevocationsDiff.firstWith? ⟨5⟩ c.info.revoked).isSome = true := by
    simp only [lastRun, Node.keeper, CertificateKind.backend_eq]
    decide +kernel
  obtain ⟨o, ho⟩ := Option.isSome_iff_exists.1 hlisted
  obtain ⟨c, hc, ho⟩ := Option.bind_eq_some_iff.1 ho
  exact ⟨c, o, hc, ho⟩

theorem on_lastRun : lastRun.On FileStore.fileSystem "/ca.crl" := ⟨rfl, rfl, rfl⟩

theorem plain_lastRun : lastRun.IsPlain := by
  intro _ _ _ _ _ hder
  cases hder

theorem follow_lastRun :
    Follow FileStore.fileSystem "/ca.crl" lastRun.start.world.files [lastRun] :=
  .cons on_lastRun plain_lastRun rfl (.nil _)

end

end CertAuthority
