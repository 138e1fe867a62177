import CertAuthority.Error

/-!
# Files

What issuance does to files, over any state `σ` that holds them. A path is a text.

* `FileSystem` : the five operations; a replacement is all or nothing;
* `FileError.missing`, `FileError.denied` : the two failures that every file system has;
* `Path.join`, `Path.isPlain` : a directory with a name in it.
-/

namespace CertAuthority

structure FileSystem (σ : Type) where
  /-- Something is at the path; a dangling link counts -/
  has : σ → String → Bool
  /-- The path itself is a symbolic link -/
  isLink : σ → String → Bool
  read : σ → String → Outcome FileError Bytes
  /-- Puts a regular file of that mode at the path, in place of what was there -/
  replace : σ → String → Bytes → Nat → Outcome FileError Unit × σ
  /-- Copies a file aside and names the copy; none where there is nothing to copy -/
  backUp : σ → String → Outcome FileError (Option String) × σ

/-- A file mode in octal digits. -/
def modeText (mode : Nat) : String := String.ofList (Nat.toDigits 8 mode)

namespace FileError

def missing (path : String) : FileError := .io path "No such file or directory (os error 2)"

def denied (path : String) : FileError := .io path "Permission denied (os error 13)"

end FileError

namespace Path

/-- The path of `name` in a directory. -/
def join (dir name : String) : String :=
  if dir = "" ∨ dir.endsWith "/" then dir ++ name else dir ++ "/" ++ name

/-- A name that stays in the directory it is joined to. -/
def isPlain (name : String) : Bool :=
  name != "" && name != "." && name != ".." && !name.toList.contains '/'

end Path
end CertAuthority
