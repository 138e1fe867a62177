import CertAuthority.Detect
import CertAuthority.Issue.Run

/-!
# Managed files

An artifact or key is kept at a path. Each run looks at what is there, decides, and acts.

* `Existing`, `Site.existing` : what is at the path before the run;
* `Decision` : keep it, encode it again, or issue a new one. `Existing.decide` makes it;
* `Site.settle` : acts on a decision. Nothing is signed or written where the artifact is kept, where
  the path is a link that must stay, or in a dry run; else the path is written once, at the end.
-/

namespace CertAuthority

structure Target where
  path : String
  mode : Nat
  /-- Copy the previous file aside -/
  backup : Bool := false
  /-- A symbolic link at the path may be replaced by a file -/
  overwriteLink : Bool := false
  /-- Report the decision only -/
  dryRun : Bool := false
deriving DecidableEq, Repr, Inhabited

/-- A target as part of what is asked for, with the mode where none is named. -/
def Target.read (mode : Nat) : Json.FieldReader Target := do
  let path ← Json.field "path" Json.asString
  let named ← Json.field? "mode" (Json.asNatBelow (bitLimit 32))
  let backup ← Json.field? "backup" Json.asBool
  let overwriteLink ← Json.field? "overwrite_symlink" Json.asBool
  let dryRun ← Json.field? "dry_run" Json.asBool
  return { path, mode := named.getD mode, backup := backup.getD false
           overwriteLink := overwriteLink.getD false, dryRun := dryRun.getD false }

/-- Mode of artifacts, and that of private keys. -/
def Target.artifactMode : Nat := 0o644
def Target.keyMode : Nat := 0o400

inductive Action where
  | noOp
  /-- The same content in a new container -/
  | reEncode
  | issue
deriving DecidableEq, Repr

def Action.name : Action → String
  | .noOp => "no_op"
  | .reEncode => "re_encode"
  | .issue => "issue"

/-- Why a target has to be written. -/
inductive Reason where
  /-- Nothing is there -/
  | created
  /-- What is there cannot be read -/
  | replaced
  /-- What is there differs from what is wanted -/
  | changed
deriving DecidableEq, Repr

def Reason.name : Reason → String
  | .created => "created"
  | .replaced => "replaced"
  | .changed => "changed"

/-! ## Decisions -/

/-- What to do about a target, with the differences `χ` found; `α` is what it holds. -/
inductive Decision (χ α : Type) where
  | keep (a : α)
  | reEncode (a : α) (changes : χ)
  | issue (reason : Reason) (changes : χ)

namespace Decision

variable {χ α : Type}

def action : Decision χ α → Action
  | .keep _ => .noOp
  | .reEncode _ _ => .reEncode
  | .issue _ _ => .issue

def reason? : Decision χ α → Option Reason
  | .keep _ => none
  | .reEncode _ _ => some .changed
  | .issue reason _ => some reason

/-- The differences, given those of a target that is kept. -/
def changes (same : χ) : Decision χ α → χ
  | .keep _ => same
  | .reEncode _ changes | .issue _ changes => changes

end Decision

/-- What a run did about a target, or would do in a dry run. -/
structure Report (χ α : Type) where
  path : String
  action : Action
  reason : Option Reason
  changes : χ
  written : Bool := false
  /-- Where the previous file was copied to -/
  backup : Option String := none
  /-- What the target now holds; none after a dry run -/
  held : Option α := none

namespace Report

/-- What a report shows besides the content of the target. -/
def members {χ α : Type} (changes : χ → Json) (r : Report χ α) : List (String × Json) :=
  [("path", .str r.path), ("action", .str r.action.name),
   ("reason", Json.orNull (fun x => .str x.name) r.reason), ("changes", changes r.changes),
   ("written", .bool r.written)] ++
  Json.member? "backup" .str r.backup

end Report

/-! ## Existing artifacts -/

inductive Existing where
  | missing
  | unreadable
  | loaded (a : LoadedArtifact)

def Existing.loaded? : Existing → Option LoadedArtifact
  | .loaded a => some a
  | _ => none

/-- The decision about an artifact. -/
def Existing.decide (b : Backend) (d : Desired) (now : Instant) (threshold : Span) :
    Existing → BackendResult (Decision ChangeSet Certificate)
  | .missing => .ok (.issue .created {})
  | .unreadable => .ok (.issue .replaced {})
  | .loaded a => do
    let changes ← d.changesFrom b a now threshold
    return if changes.isEmpty then .keep a.certificate
      else if changes.isMetadataOnly then .reEncode a.certificate changes
      else .issue .changed changes

namespace Site

variable {σ χ α : Type}

def existing (s : Site σ) (path : String) (parse : Bytes → BackendResult LoadedArtifact) :
    Run σ Existing := do
  if !(← s.has path) then return .missing
  match parse (← Run.atStage .loadingExisting (s.read path)) with
  | .ok a => return .loaded a
  | .error (.error _) => return .unreadable
  | .error .abandoned => Run.ofOutcome Outcome.abandon

/-! ## Acting -/

/-- Refuses to replace a link that has to stay. -/
def guardLink (s : Site σ) (t : Target) : Run σ Unit := do
  if !t.overwriteLink && (← s.isLink t.path) then
    Run.fail (.staged .writingArtifact (.file (.symlinkNotAllowed t.path)))

/-- Writes the target, and before that the copy of the previous file. -/
def overwrite (s : Site σ) (t : Target) (data : Bytes) (reason : Option Reason) :
    Run σ (Option String) := do
  let copy ← if t.backup && reason != some .created then
      Run.atStage .writingArtifact (s.backUp t.path)
    else pure none
  Run.atStage .writingArtifact (s.replace t.path data t.mode)
  return copy

/-- Acts on a decision; `issue` makes a new artifact and `encode` its bytes. -/
def settle (s : Site σ) (t : Target) (same : χ) (d : Decision χ α) (issue : Run σ α)
    (encode : α → Run σ Bytes) : Run σ (Report χ α) :=
  let report : Report χ α :=
    { path := t.path, action := d.action, reason := d.reason?, changes := d.changes same }
  let write (make : Run σ α) : Run σ (Report χ α) := do
    s.guardLink t
    if t.dryRun then return report
    let a ← make
    let backup ← s.overwrite t (← encode a) d.reason?
    return { report with written := true, backup, held := some a }
  match d with
  | .keep a => pure { report with held := some a }
  | .reEncode a _ => write (pure a)
  | .issue _ _ => write issue

end Site
end CertAuthority
