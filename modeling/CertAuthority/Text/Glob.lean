import CertAuthority.Text.Basic

/-!
# Glob patterns

A pattern is a sequence of parts, each of which takes one character or any number of them.

* `Glob.parse?` : `?`, `*`, `[…]` and `[!…]`; `**` stands alone between slashes; more than two stars
  in a row, `**` beside other text and an unclosed bracket are refused;
* `Glob.accepts` : reads the text once and keeps the rests of the pattern that may still match.
-/

namespace CertAuthority

/-- A member of a bracketed class. -/
inductive GlobMember where
  | single (c : Char)
  | range (low high : Char)
deriving DecidableEq, Repr

inductive GlobPart where
  | char (c : Char)
  | any
  | oneOf (members : List GlobMember)
  | noneOf (members : List GlobMember)
  /-- Any number of characters -/
  | run
  /-- Any number of leading directories, or all the rest -/
  | directories
deriving DecidableEq, Repr

namespace GlobMember

def contains (c : Char) : GlobMember → Bool
  | .single d => c = d
  | .range low high => low ≤ c && c ≤ high

/-- Three characters with a dash in the middle are a range. -/
def ofChars : List Char → List GlobMember
  | low :: '-' :: high :: rest => .range low high :: ofChars rest
  | c :: rest => .single c :: ofChars rest
  | [] => []

end GlobMember

abbrev Glob := List GlobPart

namespace Glob

def separator : Char := '/'

/-- The class after `[` and what follows its `]`; the first character of a class may be `]`. -/
def bracket? (cs : List Char) : Option (GlobPart × List Char) :=
  let (negated, body) := match cs with
    | '!' :: rest => (true, rest)
    | _ => (false, cs)
  match body with
  | [] => none
  | first :: rest => do
    let (inside, after) ← Text.splitOnceChars? ']' rest
    let members := GlobMember.ofChars (first :: inside)
    return (if negated then .noneOf members else .oneOf members, after)

/-- A further `**` right after one adds nothing, unless the pattern begins with it. -/
def addDirectories (done : Glob) : Glob :=
  if 1 < done.length ∧ done.getLast? = some .directories then done else done ++ [.directories]

/-- Parses what is left of a pattern; `last` is the character before it, if any. Every step takes a
character, so `fuel` need not exceed the length. -/
def parseFrom : Nat → Option Char → Glob → List Char → Option Glob
  | 0, _, done, _ => some done
  | _, _, done, [] => some done
  | fuel + 1, _, done, '?' :: rest => parseFrom fuel (some '?') (done ++ [.any]) rest
  | _, _, _, '*' :: '*' :: '*' :: _ => none
  | fuel + 1, last, done, '*' :: '*' :: rest =>
    if last.any (· != separator) then none
    else
      match rest with
      | [] => some (addDirectories done)
      | c :: rest =>
        if c = separator then parseFrom fuel (some c) (addDirectories done) rest else none
  | fuel + 1, _, done, '*' :: rest => parseFrom fuel (some '*') (done ++ [.run]) rest
  | fuel + 1, _, done, '[' :: rest =>
    match bracket? rest with
    | some (part, after) => parseFrom fuel (some ']') (done ++ [part]) after
    | none => none
  | fuel + 1, _, done, c :: rest => parseFrom fuel (some c) (done ++ [.char c]) rest

def parse? (pattern : String) : Option Glob :=
  parseFrom pattern.toList.length none [] pattern.toList

/-- A part that takes exactly one character takes this one. -/
def GlobPart.takes (c : Char) : GlobPart → Bool
  | .char d => c = d
  | .any => true
  | .oneOf members => members.any (·.contains c)
  | .noneOf members => !members.any (·.contains c)
  | .run | .directories => false

/-- A pattern and the rests of it behind the parts that may take nothing. -/
def openings : Glob → List Glob
  | .run :: rest => (.run :: rest) :: openings rest
  | .directories :: rest => (.directories :: rest) :: openings rest
  | parts => [parts]

/-- Rests of a pattern after one character. -/
def afterChar (c : Char) : Glob → List Glob
  | [] => []
  | .run :: rest => openings (.run :: rest)
  | .directories :: rest =>
    (.directories :: rest) :: (if c = separator then openings rest else [])
  | part :: rest => if GlobPart.takes c part then openings rest else []

/-- Whether one of the rests matches the text. -/
def acceptsFrom (states : List Glob) : List Char → Bool
  | [] => states.any fun parts => parts.all fun p => p = .run ∨ p = .directories
  | c :: rest => acceptsFrom (states.flatMap (afterChar c)).eraseDups rest

def accepts (pattern : Glob) (s : String) : Bool := acceptsFrom (openings pattern) s.toList

end Glob
end CertAuthority
