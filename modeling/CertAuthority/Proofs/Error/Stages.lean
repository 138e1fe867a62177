import CertAuthority.Error

/-!
# Stages of an error

On its way out of the workflow an error may pass several stages. The first one is put in front of its
text, and that is all they do to it: the cause, and what a caller concludes from it, stay the same.

* `Error.atStages` : stages recorded in turn. What they do to `root` and `stage?`, one stage at a time
  and then all of them, is `root_atStages` and `stage?_atStages`;
* `Error.OfThisNode` : failures whose texts may name files of this node. A remote requester is told of
  them all in the same words (`remoteMessages_atStages`);
* `Error.stages_recorded_once` : both together.
-/

namespace CertAuthority.Error

/-- Not a stage around another error. -/
def IsBase (e : Error) : Prop := ∀ stage inner, e ≠ .staged stage inner

/-- The error with these stages recorded in turn. -/
def atStages (e : Error) (stages : List Stage) : Error :=
  stages.foldl (fun e stage => e.atStage stage) e

/-! ## What is recorded -/

theorem root_atStage (stage : Stage) (e : Error) : (e.atStage stage).root = e.root := by
  cases e <;> rfl

theorem root_atStages (e : Error) (stages : List Stage) : (e.atStages stages).root = e.root := by
  induction stages generalizing e with
  | nil => rfl
  | cons stage later ih => exact (ih (e.atStage stage)).trans (root_atStage stage e)

theorem stage?_atStage (stage : Stage) (e : Error) :
    (e.atStage stage).stage? = (e.stage? <|> some stage) := by
  cases e <;> rfl

theorem stage?_atStages (e : Error) (stages : List Stage) :
    (e.atStages stages).stage? = (e.stage? <|> stages.head?) := by
  induction stages generalizing e with
  | nil => simp [atStages]
  | cons stage later ih =>
    have hlater : (e.atStages (stage :: later)).stage? =
        ((e.stage? <|> some stage) <|> later.head?) :=
      (ih (e.atStage stage)).trans (by rw [stage?_atStage])
    rw [hlater, List.head?_cons]
    cases e.stage? <;> rfl

theorem atStage_of_isBase {e : Error} (h : e.IsBase) (stage : Stage) :
    e.atStage stage = .staged stage e := by
  cases e with
  | staged first inner => exact absurd rfl (h first inner)
  | _ => rfl

theorem root_of_isBase {e : Error} (h : e.IsBase) : e.root = e := by
  cases e with
  | staged first inner => exact absurd rfl (h first inner)
  | _ => rfl

/-- A stage that is there stays. -/
theorem atStages_staged (stage : Stage) (e : Error) (later : List Stage) :
    (Error.staged stage e).atStages later = .staged stage e := by
  induction later with
  | nil => rfl
  | cons _ _ ih => exact ih

theorem atStages_cons {e : Error} (h : e.IsBase) (stage : Stage) (later : List Stage) :
    e.atStages (stage :: later) = .staged stage e := by
  rw [atStages, List.foldl_cons, atStage_of_isBase h]
  exact atStages_staged stage e later

/-! ## What is concluded from an error -/

theorem isRetryable_atStages (e : Error) (stages : List Stage) :
    (e.atStages stages).isRetryable = e.isRetryable := by
  rw [isRetryable, root_atStages, isRetryable]

theorem isPolicyError_atStages (e : Error) (stages : List Stage) :
    (e.atStages stages).isPolicyError = e.isPolicyError := by
  rw [isPolicyError, root_atStages, isPolicyError]

/-- A failure of files, of the configuration or of the cryptographic library, whatever its text. -/
inductive OfThisNode : Error → Prop
  | file (why : FileError) : OfThisNode (.file why)
  | config (why : ConfigError) : OfThisNode (.config why)
  | crypto (text : String) : OfThisNode (.backend (.crypto text))

/-- All that is told of such a failure is a stage. -/
theorem remoteMessages_of_ofThisNode {e : Error} (h : e.root.OfThisNode) :
    e.remoteMessages =
      [match e.stage? with
        | some stage => stage.text ++ ": " ++ localFailure
        | none => localFailure] := by
  unfold remoteMessages
  generalize e.root = base at h
  cases h <;> cases e.stage? <;> rfl

theorem remoteMessages_atStages {e : Error} (h : e.OfThisNode) (stages : List Stage) :
    (e.atStages stages).remoteMessages =
      [match stages.head? with
        | some stage => stage.text ++ ": " ++ localFailure
        | none => localFailure] := by
  have hroot : (e.atStages stages).root = e := by
    rw [root_atStages]
    cases h <;> rfl
  have hstage : (e.atStages stages).stage? = stages.head? := by
    rw [stage?_atStages]
    cases h <;> rfl
  rw [remoteMessages_of_ofThisNode (hroot.symm ▸ h), hstage]

/-- **A stage is recorded once, and says no more than where an error surfaced.**

Of the stages that an error passes the first one is kept. The error under it stays the same, its text
is that of the stage with the text of the error behind it, and it can be retried, or is one of the
policy, just as before.

Of a failure of files, of the configuration or of the cryptographic library, a remote requester is
not told which of them it was, nor any path or text that it carries. -/
theorem stages_recorded_once :
    (∀ e : Error, e.IsBase → ∀ (stage : Stage) (later : List Stage),
      (e.atStages (stage :: later)).root = e ∧
      (e.atStages (stage :: later)).stage? = some stage ∧
      (e.atStages (stage :: later)).message = stage.text ++ ": " ++ e.message ∧
      (e.atStages (stage :: later)).isRetryable = e.isRetryable ∧
      (e.atStages (stage :: later)).isPolicyError = e.isPolicyError) ∧
    ∀ e other : Error, e.OfThisNode → other.OfThisNode → ∀ stages : List Stage,
      (e.atStages stages).remoteMessages = (other.atStages stages).remoteMessages := by
  refine ⟨fun e he stage later => ⟨?_, ?_, ?_, ?_, ?_⟩, fun e other he hother stages => ?_⟩
  · rw [root_atStages, root_of_isBase he]
  · rw [atStages_cons he]
    rfl
  · rw [atStages_cons he]
    rfl
  · exact isRetryable_atStages e _
  · exact isPolicyError_atStages e _
  · rw [remoteMessages_atStages he, remoteMessages_atStages hother]

/-- An encrypted key, and a path beside the text of a library, with two stages each. -/
theorem stages_recorded_once_twice :
    (Error.backend .encrypted).IsBase ∧ (Error.file (.io "/srv/pki/ca.key" "denied")).OfThisNode ∧
      (Error.backend (.crypto "bad padding")).OfThisNode ∧
      ((Error.backend .encrypted).atStages [.loadingSigningKey, .signing]).stage? =
        some .loadingSigningKey ∧
      ((Error.file (.io "/srv/pki/ca.key" "denied")).atStages
          [.loadingSigningKey, .signing]).remoteMessages =
        ((Error.backend (.crypto "bad padding")).atStages
          [.loadingSigningKey, .signing]).remoteMessages := by
  have hbase : (Error.backend .encrypted).IsBase := nofun
  have hfile : (Error.file (.io "/srv/pki/ca.key" "denied")).OfThisNode := .file _
  have hcrypto : (Error.backend (.crypto "bad padding")).OfThisNode := .crypto _
  exact ⟨hbase, hfile, hcrypto, (stages_recorded_once.1 _ hbase _ _).2.1,
    stages_recorded_once.2 _ _ hfile hcrypto _⟩

end CertAuthority.Error
