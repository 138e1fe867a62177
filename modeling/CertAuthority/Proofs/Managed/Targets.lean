import CertAuthority.Proofs.Managed.Atomicity

/-!
# What the next run finds at a target

A run knows a path by three looks: whether something is there, whether that is a link, and the bytes
it reads.

* `FileSystem.sight` : the three of them;
* `FileSystem.IsFaithful` : they are the content of the path, and what was put there is found;
* `FileStore.isFaithful` : a store is faithful at every path;
* `Node.cases_sight` : after an operation that asks nobody its target shows what it did, or the bytes
  of what there was to do.
-/

namespace CertAuthority

open Run (Keeps)

namespace FileSystem

variable {σ : Type}

/-- What a path shows. -/
def sight (f : FileSystem σ) (path : String) (files : σ) :
    Bool × Bool × Outcome FileError Bytes :=
  (f.has files path, f.isLink files path, f.read files path)

/-- What was put at the path is found there. Only replacing the path changes what it shows. -/
abbrev IsFaithful (f : FileSystem σ) (path : String) : Prop :=
  f.IsContent path (f.sight path) fun data _ => (true, false, .ok data)

variable {f : FileSystem σ} {path : String} {files files' : σ} {data : Bytes}

theorem has_of_sight (h : f.sight path files = f.sight path files') :
    f.has files path = f.has files' path := congrArg Prod.fst h

theorem read_of_sight (h : f.sight path files = f.sight path files') :
    f.read files path = f.read files' path := congrArg (·.2.2) h

end FileSystem

namespace FileStore

variable {s s' : FileStore} {path : String} {data : Bytes} {mode : Nat}

theorem sight_of_entry? (h : s.entry? path = some (.file data mode)) :
    fileSystem.sight path s = (true, false, .ok data) := by
  have htarget : s.target? path = some (.file data mode) := by
    unfold target?
    rw [h]
  have hread : s.read path = .ok data := by
    unfold read
    rw [htarget]
  show ((s.entry? path).isSome, fileSystem.isLink s path, s.read path) = _
  rw [hread]
  simp only [fileSystem, h, Option.isSome_some]

/-- A copy shows what the path shows, even where the path is a link to it. -/
theorem target?_put_backup {entry : FileEntry} (h : s.target? path = some entry) :
    target? (s.put (s.backupPath path) entry) path = some entry := by
  have hother := s.backupPath_ne path
  have hpath : FileStore.entry? (s.put (s.backupPath path) entry) path = s.entry? path := by
    rw [entry?_put, if_neg hother.symm]
  unfold target? at h ⊢
  rw [hpath]
  cases hentry : s.entry? path with
  | none =>
    rw [hentry] at h
    cases h
  | some e =>
    rw [hentry] at h
    cases e with
    | link target =>
      show FileStore.entry? (s.put (s.backupPath path) entry) target = some entry
      rw [entry?_put]
      split
      · rfl
      · exact h
    | file data mode => exact h
    | denied => exact h
    | broken => exact h

/-- **A store is faithful.** -/
theorem isFaithful (path : String) : fileSystem.IsFaithful path := by
  have hentry := isContent_entry? path
  refine ⟨fun {s data mode} hfailed => ?_, fun {s data mode} hdone => ?_, fun s => ?_,
    fun h => congrArg (·.2.1) h⟩
  · replace hfailed : (s.replace path data mode).1 ≠ .ok () := hfailed
    show fileSystem.sight path (s.replace path data mode).2 = _
    unfold replace at hfailed ⊢
    split at hfailed
    · rfl
    · exact absurd rfl hfailed
  · exact sight_of_entry? (hentry.done hdone)
  · show fileSystem.sight path (s.backUp path).2 = _
    unfold backUp
    split
    · rename_i data mode htarget
      have hcopied := target?_put_backup htarget
      have hpath : FileStore.entry? (s.put (s.backupPath path) (.file data mode)) path =
          s.entry? path := by
        rw [entry?_put, if_neg (s.backupPath_ne path).symm]
      have hread : FileStore.read (s.put (s.backupPath path) (.file data mode)) path =
          s.read path := by
        unfold read
        rw [hcopied, htarget]
      show ((FileStore.entry? (s.put (s.backupPath path) (.file data mode)) path).isSome,
        fileSystem.isLink (s.put (s.backupPath path) (.file data mode)) path,
        FileStore.read (s.put (s.backupPath path) (.file data mode)) path) = _
      rw [hread]
      simp only [FileSystem.sight, fileSystem, hpath]
    · rfl

end FileStore

/-! ## After an operation -/

/-- Nobody else is asked, and nothing is copied but the target. -/
def Managed.IsAlone {χ α : Type} : Managed χ α → Prop
  | .certificate _ => False
  | .signingRequest _ | .privateKey _ | .revocationList _ => True

namespace Node

variable {σ χ α : Type} {n : Node σ} {a : Managed χ α} {s s' : RunState σ}
  {out : Outcome Error (Report χ α)}

/-- An operation that asks nobody is the same on a node that can ask nobody. -/
theorem manage_withoutChannel (ha : a.IsAlone) :
    n.manage a = { n with channel := none }.manage a := by
  cases a with
  | certificate spec => exact ha.elim
  | signingRequest spec => rfl
  | privateKey spec => rfl
  | revocationList spec => rfl

theorem prepare_withoutChannel (ha : a.IsAlone) :
    n.prepare a = { n with channel := none }.prepare a := by
  cases a with
  | certificate spec => exact ha.elim
  | signingRequest spec => rfl
  | privateKey spec => rfl
  | revocationList spec => rfl

theorem copiesApart_of_isAlone {γ : Type} (ha : a.IsAlone) (look : σ → γ) :
    n.CopiesApart look a := by
  cases a with
  | certificate spec => exact ha.elim
  | signingRequest spec => exact trivial
  | privateKey spec => exact trivial
  | revocationList spec => exact trivial

/-- After an operation that asks nobody its target shows what it did, or the bytes of what there was
to do. -/
theorem cases_sight (ha : a.IsAlone) (hfiles : n.site.files.IsFaithful a.target.path)
    (h : (n.manage a).run.run s = (out, s')) :
    let sight := n.site.files.sight a.target.path
    (sight s'.world.files = sight s.world.files ∧ ∀ report, out = .ok report →
      (report.action = .noOp ∨ a.target.dryRun = true) ∧ report.written = false) ∨
    ∃ j t b data m report, (n.prepare a).run.run s = (.ok j, t) ∧ j.Makes b ∧
      j.encode m b = .ok data ∧ sight s'.world.files = (true, false, .ok data) ∧
      out = .ok report ∧ report.action = j.decision.action ∧ report.written = true ∧
      report.held = some b := by
  intro sight
  rw [manage_withoutChannel ha] at h
  let alone : Node σ := { n with channel := none }
  have hpeers : alone.PeersApart sight := by
    intro c hc
    cases hc
  rcases cases_manage_makes (n := alone) hfiles hpeers (copiesApart_of_isAlone ha sight) h with
    ⟨hleaves, hidle⟩ | ⟨j, t, hj, -, -, b, data, v, hleaves, ⟨hmakes, m, hencode⟩, -, hreplaced,
      hdone, hok⟩
  · exact .inl ⟨hleaves.seen, hidle⟩
  by_cases hput : (n.site.files.replace v.world.files a.target.path data a.target.mode).1 = .ok ()
  · obtain ⟨report, hreport⟩ := hok hput
    obtain ⟨-, -, hwritten, hheld⟩ := hdone report hreport
    have haction : report.action = j.decision.action := by
      rw [hreport, manage_eq] at h
      obtain ⟨j', t', hj', hfinish⟩ := Run.bind_eq_ok_iff.1 h
      obtain ⟨rfl, rfl⟩ := Run.ok_inj hj hj'
      exact (Site.of_settle hfinish).1
    refine .inr ⟨j, t, b, data, m, report, ?_, hmakes, hencode, ?_, hreport, haction, hwritten,
      hheld⟩
    · rw [prepare_withoutChannel ha]
      exact hj
    · rw [hreplaced]
      exact hfiles.done hput
  · refine .inl ⟨?_, fun report hreport => absurd (hdone report hreport).1 hput⟩
    rw [hreplaced]
    exact (hfiles.failed hput).trans hleaves.seen

end Node
end CertAuthority
