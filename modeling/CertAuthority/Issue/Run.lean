import CertAuthority.Certificate.Backend
import CertAuthority.Files.System
import CertAuthority.Policy.Store

/-!
# Runs

A run reads and writes files, signs, and asks other authorities. It either ends with a value or with
a fault; what it did until then stays done.

* `World` : what runs act on. Random bytes come from a seed, and no two moments share any;
* `Event` : one act of a run. The journal holds all of them in order, failed ones included;
* `Run` : a computation on a `RunState`;
* `Site` : the files and backends of a node, with the acts on files.
-/

namespace CertAuthority

structure World (σ : Type) where
  files : σ
  now : Instant
  seed : Bytes
  /-- Moments taken so far -/
  moments : Nat := 0

inductive Event where
  | read (path : String)
  | replace (path : String) (data : Bytes) (mode : Nat)
  | backUp (path : String)
  | sign (draft : Draft)
  | ask (peer procedure : String) (args : Json)

structure RunState (σ : Type) where
  world : World σ
  journal : List Event := []
  /-- Policies of remote authorities -/
  policies : PolicyCache := {}

abbrev Run (σ α : Type) := ExceptT (Fault Error) (StateM (RunState σ)) α

namespace Run

variable {σ α : Type}

def note (e : Event) : Run σ Unit := modify fun s => { s with journal := s.journal ++ [e] }

def ofOutcome (r : Outcome Error α) : Run σ α := liftExcept r

def ofBackend (r : BackendResult α) : Run σ α := ofOutcome (r.mapError .backend)

def fail (e : Error) : Run σ α := ofOutcome (Outcome.fail e)

/-- The value of an optional step, or `e`. -/
def ofOption (e : Error) (a : Option α) : Run σ α := ofOutcome (Outcome.ofOption e a)

/-- Records the stage in an error. -/
def atStage (stage : Stage) (x : Run σ α) : Run σ α :=
  ExceptT.mk do return Outcome.mapError (·.atStage stage) (← x.run)

/-- The result of an operation of a backend in a stage. -/
def backendAt (stage : Stage) (r : BackendResult α) : Run σ α := atStage stage (ofBackend r)

/-- The clock reading and fresh random bytes. -/
def moment : Run σ Moment := do
  let w := (← get).world
  modify fun s => { s with world := { w with moments := w.moments + 1 } }
  return ⟨w.now, w.seed ++ Bytes.ofWord32 w.moments⟩

/-- An act on the world that leaves no trace in this run's journal. -/
def onWorld (act : StateM (World σ) α) : Run σ α := do
  let (a, w) := act.run (← get).world
  modify fun s => { s with world := w }
  return a

/-- The description of a key, fetched where no description is known yet. -/
def knownPolicy (k : PolicyKey) (fetch : Run σ PolicyDescription) : Run σ PolicyDescription :=
  ExceptT.mk do
    let (d, known) ← (← get).policies.getOrFetch k fetch.run
    modify fun s => { s with policies := known }
    return d

end Run

/-- A node: its files, and its backends by certificate family. -/
structure Site (σ : Type) where
  files : FileSystem σ
  backend : CertificateKind → Backend

namespace Site

variable {σ : Type}

def has (s : Site σ) (path : String) : Run σ Bool := do
  return s.files.has (← get).world.files path

def isLink (s : Site σ) (path : String) : Run σ Bool := do
  return s.files.isLink (← get).world.files path

def read (s : Site σ) (path : String) : Run σ Bytes := do
  Run.note (.read path)
  Run.ofOutcome ((s.files.read (← get).world.files path).mapError .file)

/-- An act that changes files. -/
def changeFiles {α : Type} (act : σ → Outcome FileError α × σ) : Run σ α := do
  let result ← Run.onWorld fun w =>
    let (result, files) := act w.files
    (result, { w with files })
  Run.ofOutcome (result.mapError .file)

def replace (s : Site σ) (path : String) (data : Bytes) (mode : Nat) : Run σ Unit := do
  Run.note (.replace path data mode)
  changeFiles fun files => s.files.replace files path data mode

def backUp (s : Site σ) (path : String) : Run σ (Option String) := do
  Run.note (.backUp path)
  changeFiles fun files => s.files.backUp files path

end Site
end CertAuthority
