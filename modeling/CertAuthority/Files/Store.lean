import CertAuthority.Files.System

/-!
# A flat file store

Files by path, with nothing but the path to tell them apart. Reading follows one link. Entries can
also stand for trouble: `denied` ones can be neither read nor replaced, and reading a `broken` one
abandons the run.

* `FileStore.entry?`, `FileStore.put`, `FileStore.erase` : the store as a map from paths to entries;
* `FileStore.fileSystem` : the operations of issuance. The copy of a file is numbered.
-/

namespace CertAuthority

inductive FileEntry where
  | file (data : Bytes) (mode : Nat)
  | link (target : String)
  | denied
  | broken
deriving DecidableEq, Repr

/-- The line of an entry in a listing. -/
def FileEntry.summary : FileEntry → String
  | .file _ mode => "file " ++ modeText mode
  | .link target => "link " ++ target
  | .denied => "denied"
  | .broken => "panic"

structure FileStore where
  /-- Entries in the order of their paths -/
  entries : List (String × FileEntry) := []
  /-- Copies made so far -/
  backups : Nat := 0
deriving DecidableEq, Repr, Inhabited

namespace FileStore

def entry? (s : FileStore) (path : String) : Option FileEntry := s.entries.lookup path

def put (s : FileStore) (path : String) (e : FileEntry) : FileStore :=
  { s with entries := Json.insertMember path e s.entries }

def erase (s : FileStore) (path : String) : FileStore :=
  { s with entries := s.entries.filter (·.1 != path) }

/-! ## JSON -/

/-- Mode of a file whose content alone is given. -/
def privateMode : Nat := 0o600

/-- An entry: the content of a file, or an object with a link's target or a kind of trouble. -/
def readEntry : Json.Reader FileEntry
  | .obj [("link", j)] => .link <$> Json.asString j
  | .obj [("panic", _)] => .ok .broken
  | .obj [("denied", _)] => .ok .denied
  | j => do return .file (← Json.asContent j) privateMode

/-- The store with the entries of an object by path; `null` removes one. -/
def update (s : FileStore) : Json.Reader FileStore
  | .obj members => members.foldlM (fun s (path, j) =>
      match j with
      | .null => .ok (s.erase path)
      | j => do return s.put path (← readEntry j)) s
  | .null => .ok s
  | _ => Json.mismatch

/-! ## Operations -/

/-- The entry that reading a path comes to. -/
def target? (s : FileStore) (path : String) : Option FileEntry :=
  match s.entry? path with
  | some (.link target) => s.entry? target
  | e => e

def read (s : FileStore) (path : String) : Outcome FileError Bytes :=
  match s.target? path with
  | some (.file data _) => .ok data
  | some .denied => Outcome.fail (.denied path)
  | some .broken => Outcome.abandon
  | some (.link _) | none => Outcome.fail (.missing path)

def replace (s : FileStore) (path : String) (data : Bytes) (mode : Nat) :
    Outcome FileError Unit × FileStore :=
  match s.entry? path with
  | some .denied => (Outcome.fail (.denied path), s)
  | _ => (.ok (), s.put path (.file data mode))

/-- Where the next copy of a file goes. -/
def backupPath (s : FileStore) (path : String) : String :=
  path ++ "." ++ toString (s.backups + 1) ++ ".bak"

def backUp (s : FileStore) (path : String) : Outcome FileError (Option String) × FileStore :=
  match s.target? path with
  | some (.file data mode) =>
    let copy := s.backupPath path
    (.ok (some copy), { s.put copy (.file data mode) with backups := s.backups + 1 })
  | _ => (.ok none, s)

def fileSystem : FileSystem FileStore where
  has s path := (s.entry? path).isSome
  isLink s path := match s.entry? path with
    | some (.link _) => true
    | _ => false
  read := read
  replace := replace
  backUp := backUp

end FileStore
end CertAuthority
