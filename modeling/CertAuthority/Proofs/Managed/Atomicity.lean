import CertAuthority.Files.Store
import CertAuthority.Proofs.Json.Members
import CertAuthority.Proofs.Managed.Operations

/-!
# Targets are written whole or not at all

Whatever goes wrong in an operation, its target stays as it was until its new content is complete.
Then it is replaced, and nothing is done after that.

* `FileSystem.IsContent` : what is seen of the files is the content of a path;
* `Run.Reaches` : what happened between two states;
* `Site.Rested`, `Site.Tried` : what an operation can have done to its target;
* `Node.target_whole_or_kept` : every operation did one of these;
* `FileStore.isContent_entry?` : the files of a store have content.
-/

namespace CertAuthority

open Run (Keeps)

/-! ## Content -/

/-- The path is replaced. -/
def Event.Replaces (path : String) (e : Event) : Prop := ∃ data mode, e = .replace path data mode

/-- What is seen of the files is the content of the path. Copying it aside does not change it, and
replacing the path puts the new content there or changes nothing. It shows whether the path is a
link. -/
structure FileSystem.IsContent {σ γ : Type} (f : FileSystem σ) (path : String) (look : σ → γ)
    (file : Bytes → Nat → γ) : Prop where
  failed : ∀ {files data mode}, (f.replace files path data mode).1 ≠ .ok () →
    look (f.replace files path data mode).2 = look files
  done : ∀ {files data mode}, (f.replace files path data mode).1 = .ok () →
    look (f.replace files path data mode).2 = file data mode
  backUp : ∀ files, look (f.backUp files path).2 = look files
  isLink : ∀ {files files'}, look files = look files' →
    f.isLink files path = f.isLink files' path

namespace FileStore

variable {s : FileStore} {path other : String}

theorem entry?_put (s : FileStore) (path : String) (e : FileEntry) (other : String) :
    FileStore.entry? (s.put path e) other = if other = path then some e else s.entry? other :=
  Json.lookup_insertMember path e s.entries other

theorem backupPath_ne (s : FileStore) (path : String) : s.backupPath path ≠ path := by
  intro h
  have hlength := congrArg String.length h
  simp only [backupPath, String.length_append] at hlength
  have hdot : ".".length = 1 := rfl
  omega

/-- The content of a path is its entry. -/
theorem isContent_entry? (path : String) : fileSystem.IsContent path (fun s => s.entry? path)
    fun data mode => some (.file data mode) := by
  refine ⟨fun {s data mode} hfailed => ?_, fun {s data mode} hdone => ?_, fun s => ?_, ?_⟩
  · show FileStore.entry? (s.replace path data mode).2 path = s.entry? path
    replace hfailed : (s.replace path data mode).1 ≠ .ok () := hfailed
    unfold replace at hfailed ⊢
    split at hfailed
    · rfl
    · exact absurd rfl hfailed
  · show FileStore.entry? (s.replace path data mode).2 path = some (.file data mode)
    replace hdone : (s.replace path data mode).1 = .ok () := hdone
    unfold replace at hdone ⊢
    split at hdone
    · cases hdone
    · exact (entry?_put s path _ path).trans (if_pos rfl)
  · show FileStore.entry? (s.backUp path).2 path = s.entry? path
    unfold backUp
    split
    · exact (entry?_put s _ _ path).trans (if_neg (s.backupPath_ne path).symm)
    · rfl
  · intro s s' h
    simp only [fileSystem, show s.entry? path = s'.entry? path from h]

end FileStore

/-! ## Between states -/

namespace Run

variable {σ γ α β : Type} {P : Event → Prop} {see : σ → PolicyCache → γ} {u v w : RunState σ}
  {x : Run σ α} {f : α → Run σ β}

/-- From the one state to the other only events `P` were added, and what is seen is the same. -/
structure Reaches (P : Event → Prop) (see : σ → PolicyCache → γ) (u v : RunState σ) : Prop where
  journal : ∃ added, v.journal = u.journal ++ added ∧ ∀ e ∈ added, P e
  seen : see v.world.files v.policies = see u.world.files u.policies

theorem Reaches.refl (u : RunState σ) : Reaches P see u u := ⟨⟨[], by simp, by simp⟩, rfl⟩

theorem Reaches.trans (h : Reaches P see u v) (h' : Reaches P see v w) : Reaches P see u w := by
  obtain ⟨first, hfirst, hp⟩ := h.journal
  obtain ⟨added, hadded, hp'⟩ := h'.journal
  refine ⟨⟨first ++ added, by rw [hadded, hfirst, List.append_assoc], fun e he => ?_⟩,
    h'.seen.trans h.seen⟩
  exact (List.mem_append.1 he).elim (hp e) (hp' e)

theorem Keeps.reaches {out : Outcome Error α} (h : Keeps P see x) (hx : x.run.run u = (out, v)) :
    Reaches P see u v := by
  refine ⟨?_, h.seen_eq hx⟩
  have hjournal := h.journal u
  rwa [hx] at hjournal

/-- The run ends in its first step, or goes on from where that has led. -/
theorem Keeps.bind_cases {out : Outcome Error β} (h : Keeps P see x)
    (hrun : (x >>= f).run.run u = (out, w)) :
    (∃ fault, out = .error fault ∧ Reaches P see u w) ∨
      ∃ a v, x.run.run u = (.ok a, v) ∧ Reaches P see u v ∧ (f a).run.run v = (out, w) := by
  rw [run_bind] at hrun
  cases hx : x.run.run u with
  | mk result v =>
    rw [hx] at hrun
    have hv := h.reaches hx
    cases result with
    | error fault =>
      obtain ⟨rfl, rfl⟩ := Prod.mk.inj hrun
      exact .inl ⟨fault, rfl, hv⟩
    | ok a => exact .inr ⟨a, v, rfl, hv, hrun⟩

end Run

/-! ## Writing -/

namespace Site

open Run (Reaches)

variable {σ γ χ α : Type} {s : Site σ} {t : Target} {look : σ → γ} {file : Bytes → Nat → γ}
  {report : Report χ α} {u v w : RunState σ} {out : Outcome Error (Report χ α)}
  {encodes : α → Bytes → Prop}

/-- Nothing but this happened, and the content of the target is what it was. -/
abbrev Leaves (t : Target) (look : σ → γ) : RunState σ → RunState σ → Prop :=
  Reaches (fun e => ¬ e.Replaces t.path) fun files _ => look files

/-- The run does nothing to the target. -/
abbrev Avoids {β : Type} (t : Target) (look : σ → γ) (x : Run σ β) : Prop :=
  Keeps (fun e => ¬ e.Replaces t.path) (fun files _ => look files) x

/-- Nothing was done to the target. -/
structure Rested (t : Target) (look : σ → γ) (u : RunState σ) (out : Outcome Error (Report χ α))
    (w : RunState σ) : Prop where
  leaves : Leaves t look u w
  idle : ∀ report, out = .ok report →
    (report.action = .noOp ∨ t.dryRun = true) ∧ report.written = false

/-- All that was done to the target was to replace it, at the end. If that succeeded, so did the
run, and what it reports is there in one of the encodings. -/
structure Tried (s : Site σ) (t : Target) (look : σ → γ) (encodes : α → Bytes → Prop)
    (u : RunState σ) (out : Outcome Error (Report χ α)) (w : RunState σ) : Prop where
  free : s.files.isLink u.world.files t.path = true → t.overwriteLink = true
  inEarnest : t.dryRun = false
  replaced : ∃ a data v, Leaves t look u v ∧ encodes a data ∧
    w.journal = v.journal ++ [.replace t.path data t.mode] ∧
    w.world.files = (s.files.replace v.world.files t.path data t.mode).2 ∧
    (∀ report, out = .ok report →
      (s.files.replace v.world.files t.path data t.mode).1 = .ok () ∧
      report.action ≠ .noOp ∧ report.written = true ∧ report.held = some a) ∧
    ((s.files.replace v.world.files t.path data t.mode).1 = .ok () → ∃ report, out = .ok report)

theorem Rested.of_reaches (h : Leaves t look u v) (h' : Rested t look v out w) :
    Rested t look u out w :=
  ⟨h.trans h'.leaves, h'.idle⟩

theorem Rested.of_error {fault : Fault Error} (h : Leaves t look u w) :
    Rested t look u (.error fault : Outcome Error (Report χ α)) w := by
  refine ⟨h, fun report hreport => ?_⟩
  cases hreport

theorem Tried.of_reaches (hlook : s.files.IsContent t.path look file) (h : Leaves t look u v)
    (h' : s.Tried t look encodes v out w) : s.Tried t look encodes u out w := by
  obtain ⟨a, data, v', hv', hrest⟩ := h'.replaced
  exact ⟨fun hlink => h'.free ((hlook.isLink h.seen).trans hlink), h'.inEarnest,
    a, data, v', h.trans hv', hrest⟩

theorem Tried.mono {encodes' : α → Bytes → Prop} (h : ∀ a data, encodes a data → encodes' a data)
    (h' : s.Tried t look encodes u out w) : s.Tried t look encodes' u out w := by
  obtain ⟨a, data, v, hleaves, hencodes, hrest⟩ := h'.replaced
  exact ⟨h'.free, h'.inEarnest, a, data, v, hleaves, h a data hencodes, hrest⟩

theorem run_guardLink (t : Target) (u : RunState σ) :
    (s.guardLink t).run.run u =
      (if !t.overwriteLink && s.files.isLink u.world.files t.path then
        .error (.error (.staged .writingArtifact (.file (.symlinkNotAllowed t.path)))) else .ok (),
        u) := by
  have hlooked : (s.isLink t.path).run.run u = (.ok (s.files.isLink u.world.files t.path), u) := rfl
  rw [guardLink, Run.run_bind, hlooked]
  dsimp only
  split <;> rfl

/-- Where the guard lets pass, the target is no link that has to stay. -/
theorem of_guardLink (h : (s.guardLink t).run.run u = (.ok (), v)) :
    s.files.isLink v.world.files t.path = true → t.overwriteLink = true := by
  rw [run_guardLink] at h
  obtain ⟨hout, rfl⟩ := Prod.mk.inj h
  intro hlink
  cases hkeep : t.overwriteLink with
  | true => rfl
  | false =>
    rw [hkeep, hlink] at hout
    cases hout

/-- The last step. -/
theorem tried_of_replace {a : α} {data : Bytes} (hencodes : encodes a data)
    (hdry : t.dryRun = false)
    (hfree : s.files.isLink u.world.files t.path = true → t.overwriteLink = true)
    (haction : report.action ≠ .noOp) (backup : Option String)
    (hrun : (Run.atStage .writingArtifact (s.replace t.path data t.mode) >>= fun _ =>
      pure { report with written := true, backup, held := some a }).run.run u = (out, w)) :
    s.Tried t look encodes u out w := by
  rw [Run.run_bind, run_atStage_replace] at hrun
  refine ⟨hfree, hdry, a, data, u, .refl u, hencodes, ?_⟩
  cases hdone : (s.files.replace u.world.files t.path data t.mode).1 with
  | error fault =>
    rw [hdone] at hrun
    obtain ⟨fault', hout, rfl⟩ : ∃ fault', out = .error fault' ∧ w = _ := by
      cases fault with
      | error e => exact ⟨_, (Prod.mk.inj hrun).1.symm, (Prod.mk.inj hrun).2.symm⟩
      | abandoned => exact ⟨_, (Prod.mk.inj hrun).1.symm, (Prod.mk.inj hrun).2.symm⟩
    refine ⟨rfl, rfl, fun report hreport => ?_, fun hok => ?_⟩
    · rw [hout] at hreport
      cases hreport
    · cases hok
  | ok done =>
    rw [hdone] at hrun
    obtain ⟨rfl, rfl⟩ := Prod.mk.inj hrun
    refine ⟨rfl, rfl, fun report hreport => ?_, fun _ => ⟨_, rfl⟩⟩
    obtain rfl := Except.ok.inj hreport
    exact ⟨rfl, haction, rfl, rfl⟩

theorem overwrite_eq (s : Site σ) (t : Target) (data : Bytes) (why : Option Reason) :
    s.overwrite t data why =
      (if t.backup && why != some .created then Run.atStage .writingArtifact (s.backUp t.path)
        else pure none) >>= fun copy =>
          Run.atStage .writingArtifact (s.replace t.path data t.mode) >>= fun _ => pure copy := by
  unfold overwrite
  split <;> rfl

/-- A run that writes does nothing to the target before its last step. -/
theorem cases_write {make : Run σ α} {encode : Moment → α → BackendResult Bytes}
    (hlook : s.files.IsContent t.path look file) (hmake : Avoids t look make)
    (haction : report.action ≠ .noOp) (hwritten : report.written = false)
    (hrun : (s.write t report make fun a => do
      Run.backendAt .encoding (encode (← Run.moment) a)).run.run u = (out, w)) :
    Rested t look u out w ∨ s.Tried t look (fun a data =>
      (∃ x y, make.run.run x = (.ok a, y)) ∧ ∃ m, encode m a = .ok data) u out w := by
  have hguard : Avoids t look (s.guardLink t) := keeps_guardLink t
  rcases hguard.bind_cases hrun with ⟨_, rfl, hleaves⟩ | ⟨_, v₁, hpassed, h₁, hrun⟩
  · exact .inl (.of_error hleaves)
  have hfree := of_guardLink hpassed
  cases hdry : t.dryRun with
  | true =>
    rw [hdry] at hrun
    obtain ⟨rfl, rfl⟩ := Prod.mk.inj hrun
    refine .inl ⟨h₁, fun report' hreport => ?_⟩
    obtain rfl := Except.ok.inj hreport
    exact ⟨.inr hdry, hwritten⟩
  | false =>
    rw [hdry] at hrun
    rcases hmake.bind_cases hrun with ⟨_, rfl, hleaves⟩ | ⟨a, v₂, hmade, h₂, hrun⟩
    · exact .inl (.of_error (h₁.trans hleaves))
    have hencode : Avoids t look
        (Run.moment >>= fun m => Run.backendAt .encoding (encode m a) : Run σ Bytes) :=
      Keeps.moment.bind fun _ => .backendAt _ _
    rcases hencode.bind_cases hrun with ⟨_, rfl, hleaves⟩ | ⟨data, v₃, hdata, h₃, hrun⟩
    · exact .inl (.of_error ((h₁.trans h₂).trans hleaves))
    obtain ⟨m, _, -, hdata⟩ := Run.bind_eq_ok_iff.1 hdata
    have hencoded := (Run.backendAt_eq_ok_iff.1 hdata).1
    have hcopy : Avoids t look (if t.backup && report.reason != some .created then
        Run.atStage .writingArtifact (s.backUp t.path) else pure none) := by
      split
      · refine .atStage _ (keeps_backUp ⟨?_, fun files _ => hlook.backUp files⟩)
        rintro ⟨_, _, h⟩
        cases h
      · exact .pure none
    rw [overwrite_eq, bind_assoc] at hrun
    rcases hcopy.bind_cases hrun with ⟨_, rfl, hleaves⟩ | ⟨backup, v₄, -, h₄, hrun⟩
    · exact .inl (.of_error (((h₁.trans h₂).trans h₃).trans hleaves))
    have hbetween := (h₂.trans h₃).trans h₄
    simp only [bind_assoc, pure_bind] at hrun
    have hplain : s.files.isLink v₄.world.files t.path = true → t.overwriteLink = true :=
      fun hlink => hfree ((hlook.isLink hbetween.seen).symm.trans hlink)
    refine .inr (.of_reaches hlook (h₁.trans hbetween) (tried_of_replace
      ⟨⟨v₁, v₂, hmade⟩, m, hencoded⟩ hdry hplain haction backup hrun))

end Site

/-- What can be written: what is to be encoded again, or what was made anew. -/
def Job.Makes {σ χ α : Type} (j : Job σ χ α) (a : α) : Prop :=
  match j.decision with
  | .keep _ => False
  | .reEncode b _ => a = b
  | .issue _ _ => ∃ u v, j.issue.run.run u = (.ok a, v)

namespace Site

variable {σ γ χ α : Type} {s : Site σ} {t : Target} {look : σ → γ} {file : Bytes → Nat → γ}
  {u w : RunState σ} {out : Outcome Error (Report χ α)}

/-- Doing what there is to do rests or writes. -/
theorem cases_finish {j : Job σ χ α} {same : χ} (hlook : s.files.IsContent t.path look file)
    (hissue : Avoids t look j.issue) (hrun : (s.finish t same j).run.run u = (out, w)) :
    Rested t look u out w ∨ s.Tried t look (fun a data =>
      j.Makes a ∧ ∃ m, j.encode m a = .ok data) u out w := by
  rw [finish, settle_eq] at hrun
  unfold Job.Makes
  cases hd : j.decision with
  | keep a =>
    rw [hd] at hrun
    obtain ⟨rfl, rfl⟩ := Prod.mk.inj hrun
    refine .inl ⟨.refl u, fun report hreport => ?_⟩
    obtain rfl := Except.ok.inj hreport
    exact ⟨.inl rfl, rfl⟩
  | reEncode a changes =>
    rw [hd] at hrun
    refine (cases_write hlook (.pure a) (fun haction => ?_) rfl hrun).imp_right
      (.mono fun b data ⟨⟨x, y, hmade⟩, hencoded⟩ => ⟨?_, hencoded⟩)
    · cases haction
    · exact (Run.pure_eq_ok_iff.1 hmade).1.symm
  | issue reason changes =>
    rw [hd] at hrun
    refine cases_write hlook hissue (fun haction => ?_) rfl hrun
    cases haction

end Site

/-! ## What is made does not touch the target -/

namespace Node

open Site (Avoids Rested Tried)

variable {σ γ χ α : Type} {n : Node σ} {look : σ → γ}

/-- The copies of issued certificates go elsewhere. -/
def CopiesApart (n : Node σ) (look : σ → γ) : Managed χ α → Prop
  | .certificate spec => ∀ p s t, (n.plan spec).run.run s = (.ok p, t) →
      ∀ r ∈ [spec.request, p.desired.draft.request], ∀ dir ∈ r.copypath, ∀ name,
        Path.isPlain name = true → n.site.files.Spares (fun e => ¬ e.Replaces spec.target.path)
          (fun files _ => look files) (Path.join dir name)
  | _ => True

/-- Other authorities do not come near what is seen. -/
def PeersApart (n : Node σ) (look : σ → γ) : Prop :=
  ∀ c ∈ n.channel, ∀ peer procedure args w,
    look ((c peer procedure args).run w).2.files = look w.files

theorem sparesInquiries_of_peersApart {P : Event → Prop} (h : n.PeersApart look)
    (hask : ∀ peer procedure args, P (.ask peer procedure args)) : n.SparesInquiries P look :=
  fun c hc k => ⟨hask k.peer _ _, fun w _ => h c hc k.peer _ _ w⟩

theorem issue_of_artifactJob {existing : Existing} {d : Desired} {threshold : Span}
    {embedKey : Option PrivateKey} {issue : Run σ Certificate} {s t : RunState σ}
    {j : Job σ ChangeSet Certificate}
    (h : (n.artifactJob existing d threshold embedKey issue).run.run s = (.ok j, t)) :
    j.issue = issue := by
  obtain ⟨_, _, -, hj⟩ := Run.bind_eq_ok_iff.1 h
  rw [← (Run.pure_eq_ok_iff.1 hj).1]

/-- Making the content anew asks, signs and writes copies. -/
theorem avoids_issue (hpeers : n.PeersApart look) {a : Managed χ α} (hcopies : n.CopiesApart look a)
    {j : Job σ χ α} {s t : RunState σ}
    (hj : (n.prepare a).run.run s = (.ok j, t)) : Avoids a.target look j.issue := by
  have hsign (d : Draft) : ¬ (Event.sign d).Replaces a.target.path := by
    rintro ⟨_, _, h⟩
    cases h
  cases a with
  | certificate spec =>
    obtain ⟨p, u, hplan, hj⟩ := Run.bind_eq_ok_iff.1 hj
    rw [issue_of_artifactJob hj]
    have hcopy := hcopies p s u hplan
    cases p.signer with
    | here m => exact Site.keeps_signCertificate (hsign _) (hcopy _ (by simp)) m.key
    | peer peer policy identity =>
      refine keeps_issueRemote (fun c hc data _ => ⟨?_, fun w _ => hpeers c hc peer _ _ w⟩)
        (hcopy _ (by simp))
      rintro ⟨_, _, h⟩
      cases h
  | signingRequest spec =>
    simp only [prepare, prepareRequest, Run.bind_eq_ok_iff] at hj
    obtain ⟨_, _, -, _, _, -, _, _, -, _, _, -, _, _, -, _, _, -, hj⟩ := hj
    rw [issue_of_artifactJob hj]
    exact Site.keeps_sign (hsign _) _
  | privateKey spec =>
    simp only [prepare, prepareKey, Run.bind_eq_ok_iff, Run.pure_eq_ok_iff] at hj
    obtain ⟨_, _, -, rfl, -⟩ := hj
    exact Keeps.moment.bind fun _ => .backendAt _ _
  | revocationList spec =>
    simp only [prepare, prepareList, Run.bind_eq_ok_iff] at hj
    obtain ⟨_, _, -, _, _, -, _, _, -, _, _, -, hj⟩ := hj
    rw [issue_of_artifactJob hj]
    exact Site.keeps_sign (hsign _) _

/-- Every operation rests, or writes once what there was to do. -/
theorem cases_manage_makes {file : Bytes → Nat → γ} {a : Managed χ α} {s s' : RunState σ}
    {out : Outcome Error (Report χ α)}
    (hlook : n.site.files.IsContent a.target.path look file) (hpeers : n.PeersApart look)
    (hcopies : n.CopiesApart look a) (h : (n.manage a).run.run s = (out, s')) :
    Rested a.target look s out s' ∨ ∃ j t, (n.prepare a).run.run s = (.ok j, t) ∧
      n.site.Tried a.target look (fun b data => j.Makes b ∧ ∃ m, j.encode m b = .ok data) s out
        s' := by
  have hread (path : String) : ¬ (Event.read path).Replaces a.target.path := by
    rintro ⟨_, _, h⟩
    cases h
  have hask : n.SparesInquiries (fun e => ¬ e.Replaces a.target.path) look := by
    refine sparesInquiries_of_peersApart hpeers fun _ _ _ => ?_
    rintro ⟨_, _, h⟩
    cases h
  rw [manage_eq] at h
  rcases (keeps_prepare hread hask a).bind_cases h with ⟨_, rfl, hleaves⟩ | ⟨j, t, hj, hleaves, h⟩
  · exact .inl (.of_error hleaves)
  · refine (Site.cases_finish hlook (avoids_issue hpeers hcopies hj) h).imp
      (.of_reaches hleaves) fun htried => ?_
    exact ⟨j, t, hj, htried.of_reaches hlook hleaves⟩

section

/-- Keeps keys in a store, and signs with nobody else. -/
def keeper : Node FileStore where
  site := ⟨FileStore.fileSystem, CertificateKind.backend⟩
  config := {}
  store _ _ := .ok none

end

end Node
end CertAuthority
