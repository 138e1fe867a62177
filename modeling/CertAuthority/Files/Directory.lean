import CertAuthority.Files.System
import CertAuthority.Time.Instant

/-!
# A directory tree

Files, directories and symbolic links under one directory, with the lookup rules of a Unix file
system. Nothing above the directory can be reached.

* `Directory.resolve` : follows a path, through at most forty links;
* `Directory.makeAll` : makes a directory and those above it;
* `Directory.replace` : writes beside the path and moves the result over it, so a link is replaced
  and not followed;
* `Directory.backUp` : the copy of a file is named by the time it is made;
* `Directory.fileSystem` : the operations of issuance.
-/

namespace CertAuthority

inductive TreeEntry where
  | dir
  | file (data : Bytes) (mode : Nat)
  | link (target : String)
deriving DecidableEq, Repr

/-- Why the operating system refuses. -/
inductive OsError where
  | missing
  | occupied
  | notDirectory
  | isDirectory
  | nameTooLong
  | tooManyLinks
  | notRegular
deriving DecidableEq, Repr

def OsError.text : OsError → String
  | .missing => "No such file or directory (os error 2)"
  | .occupied => "File exists (os error 17)"
  | .notDirectory => "Not a directory (os error 20)"
  | .isDirectory => "Is a directory (os error 21)"
  | .nameTooLong => "File name too long (os error 36)"
  | .tooManyLinks => "Too many levels of symbolic links (os error 40)"
  | .notRegular => "the source path is neither a regular file nor a symlink to a regular file"

structure Directory where
  /-- Entries by the names that lead to them -/
  entries : List (List String × TreeEntry) := []
  /-- Time of the next copy -/
  clock : Instant := ⟨0, 0⟩
deriving DecidableEq, Repr

/-! ## Paths -/

namespace Path

/-- Names between the slashes; a path that ends in a slash ends in an empty name. -/
def names (path : String) : List String := Text.splitOnChar '/' path

/-- Names that mean something. -/
def steps (path : String) : List String := (names path).filter fun s => s != "" && s != "."

def hasTrailingSlash (path : String) : Bool := path.endsWith "/"

/-- The path without its last name. -/
def parent (path : String) : String :=
  let upTo := (path.toList.reverse.dropWhile (· == '/')).dropWhile (· != '/')
  String.ofList (upTo.dropWhile (· == '/')).reverse

/-- Longest name of a file, in bytes. -/
def longestName : Nat := 255

def isTooLong (name : String) : Bool := longestName < name.utf8ByteSize

end Path

namespace Directory

/-! ## Lookup -/

/-- The directory itself, or an entry under it. -/
def entry? (t : Directory) (place : List String) : Option TreeEntry :=
  if place.isEmpty then some .dir else t.entries.lookup place

/-- Where a path leads: the names that lead there without links, and what is there. -/
abbrev Place := List String × Option TreeEntry

/-- Follows names from the directory at `here`; the last name may be free, or a kept link. -/
def walk (t : Directory) (follow : Bool) (links : Nat) (here : List String) :
    List String → Except OsError Place
  | [] => .ok (here, t.entry? here)
  | name :: rest =>
    if name = "" ∨ name = "." then walk t follow links here rest
    else if name = ".." then
      if here.isEmpty then .error .missing else walk t follow links here.dropLast rest
    else if Path.isTooLong name then .error .nameTooLong
    else
      match t.entry? (here ++ [name]) with
      | some .dir => walk t follow links (here ++ [name]) rest
      | some (.file data mode) =>
        if rest.isEmpty then .ok (here ++ [name], some (.file data mode)) else .error .notDirectory
      | some (.link target) =>
        if rest.isEmpty && !follow then .ok (here ++ [name], some (.link target))
        else
          match links with
          | 0 => .error .tooManyLinks
          | links + 1 =>
            if target.startsWith "/" then .error .missing
            else walk t follow links here (Path.names target ++ rest)
      | none =>
        if rest.all (· == "") then .ok (here ++ [name], none) else .error .missing
termination_by names => (links, names.length)

/-- Links that a lookup follows at most. -/
def mostLinks : Nat := 40

def resolve (t : Directory) (follow : Bool) (path : String) : Except OsError Place :=
  t.walk follow mostLinks [] (Path.names path)

/-- What a path leads to. -/
def find? (t : Directory) (follow : Bool) (path : String) : Option TreeEntry :=
  match t.resolve follow path with
  | .ok (_, e) => e
  | .error _ => none

def has (t : Directory) (path : String) : Bool := (t.find? false path).isSome

def isLink (t : Directory) (path : String) : Bool :=
  match t.find? false path with
  | some (.link _) => true
  | _ => false

def isDir (t : Directory) (path : String) : Bool := t.find? true path == some .dir

def readFile (t : Directory) (path : String) : Except OsError Bytes := do
  match ← t.resolve true path with
  | (_, some (.file data _)) => return data
  | (_, some .dir) => .error .isDirectory
  | _ => .error .missing

/-! ## Changes -/

def put (t : Directory) (place : List String) (e : TreeEntry) : Directory :=
  { t with entries := (place, e) :: t.entries.filter (·.1 != place) }

/-- Makes one directory where nothing is. -/
def make (t : Directory) (path : String) : Except OsError Directory := do
  match ← t.resolve false path with
  | (place, none) => return t.put place .dir
  | (_, some _) => .error .occupied

/-- Makes a directory whose parent was seen to; one that is there is fine. -/
def ensureDir (t : Directory) (path : String) : Except OsError Directory :=
  match t.make path with
  | .ok made => .ok made
  | .error e => if t.isDir path then .ok t else .error e

/-- Makes the directory that the names lead to, last name first, and those above it. What was made
before a failure stays. -/
def makeAll : List String → Directory → Except OsError Unit × Directory
  | [], t => (.ok (), t)
  | name :: above, t =>
    let path := "/".intercalate (name :: above).reverse
    let settle (r : Except OsError Directory) (before : Directory) :
        Except OsError Unit × Directory :=
      match r with
      | .ok made => (.ok (), made)
      | .error e => (.error e, before)
    match t.make path with
    | .error .missing =>
      match makeAll above t with
      | (.ok _, made) => settle (made.ensureDir path) made
      | failure => failure
    | _ => settle (t.ensureDir path) t

/-- Bytes that the name of a file being written has more than the file's own. -/
def temporaryExtra : Nat := 22

/-- Moves a written file over the path. -/
def install (t : Directory) (path : String) (data : Bytes) (mode : Nat) :
    Except OsError Directory := do
  let name := (Path.steps path).getLast?.getD ""
  if Path.longestName < name.utf8ByteSize + temporaryExtra then .error .nameTooLong
  if Path.hasTrailingSlash path then .error .notDirectory
  match ← t.resolve false path with
  | (_, some .dir) => .error .isDirectory
  | (place, _) => return t.put place (.file data mode)

def failed {α : Type} (path : String) (e : OsError) : Outcome FileError α :=
  Outcome.fail (.io path e.text)

def replace (t : Directory) (path : String) (data : Bytes) (mode : Nat) :
    Outcome FileError Unit × Directory :=
  match makeAll (Path.steps path).dropLast.reverse t with
  | (.error e, partly) => (failed (Path.parent path) e, partly)
  | (.ok _, made) =>
    match made.install path data mode with
    | .ok done => (.ok (), done)
    | .error e => (failed path e, made)

/-! ## Copies -/

/-- Year, month, day, hour, minute, second and microsecond, in 20 digits. -/
def stamp (t : Instant) : String :=
  let (year, month, day) := civilFromDays (t.seconds.fdiv 86400)
  let second := (t.seconds.fmod 86400).toNat
  Text.padded 4 year.toNat ++ Text.padded 2 month.toNat ++ Text.padded 2 day.toNat ++
    Text.padded 2 (second / 3600) ++ Text.padded 2 (second / 60 % 60) ++
    Text.padded 2 (second % 60) ++ Text.padded 6 (t.nanos / 1000)

/-- No two copies are made in the same microsecond. -/
def tick (t : Instant) : Instant :=
  let nanos := t.nanos + 1000
  ⟨t.seconds + nanos / 1000000000, nanos % 1000000000⟩

/-- The path beside `path` with another last name. -/
def beside (path name : String) : String :=
  let dir := Path.parent path
  if dir = "" then name else dir ++ "/" ++ name

def backUp (t : Directory) (path : String) : Outcome FileError (Option String) × Directory :=
  match t.find? true path with
  | some (.file data mode) =>
    let copy := beside path ((Path.steps path).getLast?.getD "" ++ "." ++ stamp t.clock ++ ".bak")
    match t.resolve false copy with
    | .ok (place, _) =>
      (.ok (some copy), { t.put place (.file data mode) with clock := tick t.clock })
    | .error e => (failed path e, t)
  | some .dir => (failed path .notRegular, t)
  | _ => (.ok none, t)

/-! ## Setting up -/

def addLink (t : Directory) (path target : String) : Except OsError Directory := do
  match ← t.resolve false path with
  | (place, none) => return t.put place (.link target)
  | (_, some _) => .error .occupied

/-- Removes a file or a link. -/
def remove (t : Directory) (path : String) : Except OsError Directory := do
  match ← t.resolve false path with
  | (_, some .dir) => .error .isDirectory
  | (place, some _) => return { t with entries := t.entries.filter (·.1 != place) }
  | (_, none) => .error .missing

/-- Paths and entries, in the order of the paths. -/
def toList (t : Directory) : List (String × TreeEntry) :=
  (t.entries.map fun (place, e) => ("/".intercalate place, e)).mergeSort fun a b => a.1 ≤ b.1

def fileSystem : FileSystem Directory where
  has := has
  isLink := isLink
  read t path := match t.readFile path with
    | .ok data => .ok data
    | .error e => failed path e
  replace := replace
  backUp := backUp

end Directory
end CertAuthority
