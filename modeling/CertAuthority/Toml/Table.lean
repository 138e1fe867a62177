import CertAuthority.Json.Basic

/-!
# TOML values and tables

A date is kept as its text. Numbers other than 64-bit integers have no value here, as nothing reads
one. A table remembers where it comes from, as that decides what may still be added to it.

* `Toml.toJson` : the value as JSON, tables in key order, with dates rendered as the caller says;
* `dateAsText`, `dateAsTable` : a date read as text, and as a table that holds its text;
* `Item.under` : goes down a path and makes the tables that are missing on it;
* `addValue` : a key with dots makes tables of its own, and adds to no others;
* `openTable`, `openElement` : headers. A table has one header at most, and one that was only passed
  through may still get it.
-/

namespace CertAuthority

/-! ## Values -/

inductive Toml where
  | text (s : String)
  | integer (n : Int)
  | float
  | boolean (b : Bool)
  | date (s : String)
  | list (items : List Toml)
  | table (members : List (String × Toml))
deriving Inhabited

namespace Toml

mutual

def toJson (date : String → Json) : Toml → Json
  | .text s => .str s
  | .integer n => .int n
  | .float => .fraction
  | .boolean b => .bool b
  | .date s => date s
  | .list items => .arr (itemsToJson date items)
  | .table members => .obj (membersToJson date members)

def itemsToJson (date : String → Json) : List Toml → List Json
  | [] => []
  | v :: rest => toJson date v :: itemsToJson date rest

def membersToJson (date : String → Json) : List (String × Toml) → List (String × Json)
  | [] => []
  | (k, v) :: rest => Json.insertMember k (toJson date v) (membersToJson date rest)

end

/-- The key of a table that stands for a date. -/
def dateKey : String := "$__toml_private_datetime"

def dateAsText (s : String) : Json := .str s

def dateAsTable (s : String) : Json := .obj [(dateKey, .str s)]

end Toml
end CertAuthority

/-! ## Building tables -/

namespace CertAuthority.Toml

inductive Origin where
  /-- It has a header, or is the whole document or an element of a list of tables -/
  | header
  /-- A header passed through it -/
  | passage
  /-- A key with dots passed through it -/
  | dotted
deriving DecidableEq

inductive Item where
  | value (v : Toml)
  | table (origin : Origin) (members : List (String × Item))
  | elements (tables : List (List (String × Item)))

abbrev Members := List (String × Item)

/-- Puts an item at a key, in place of the one there. -/
def setMember (key : String) (item : Item) : Members → Members
  | [] => [(key, item)]
  | m :: rest => if m.1 = key then (key, item) :: rest else m :: setMember key item rest

/-- Changes the table at the end of a path; `origin` is that of the tables made on the way. A path
of dots may not enter a table with a header. -/
def Item.under (origin : Origin) (change : Origin → Members → Option Members) :
    List String → Origin → Members → Option Members
  | [], here, members => change here members
  | key :: path, _, members =>
    match members.lookup key with
    | none => do
      let inner ← Item.under origin change path origin []
      return setMember key (.table origin inner) members
    | some (.table inside inner) =>
      if origin = .dotted ∧ inside = .header then none
      else do
        let inner ← Item.under origin change path inside inner
        return setMember key (.table inside inner) members
    | some (.elements tables) => do
      let last ← tables.getLast?
      let inner ← Item.under origin change path .header last
      return setMember key (.elements (tables.dropLast ++ [inner])) members
    | some (.value _) => none

/-- Adds a value to a table; a table that was entered by dots has to have been made by dots. -/
def addHere (key : String) (v : Toml) (entered : Bool) (here : Origin) (members : Members) :
    Option Members :=
  if (here = .dotted) ≠ entered ∨ (members.lookup key).isSome then none
  else some (members ++ [(key, .value v)])

/-- Adds a value at a key, given as its parts before the last and its last one. -/
def addValue (path : List String) (key : String) (v : Toml) (here : Origin) (members : Members) :
    Option Members :=
  Item.under .dotted (addHere key v (!path.isEmpty)) path here members

/-- The header of a table. -/
def openTable (key : String) (_ : Origin) (members : Members) : Option Members :=
  match members.lookup key with
  | none => some (members ++ [(key, .table .header [])])
  | some (.table .passage inner) => some (setMember key (.table .header inner) members)
  | _ => none

/-- The header of one more table in a list of tables. -/
def openElement (key : String) (_ : Origin) (members : Members) : Option Members :=
  match members.lookup key with
  | none => some (members ++ [(key, .elements [[]])])
  | some (.elements tables) => some (setMember key (.elements (tables ++ [[]])) members)
  | _ => none

mutual

def Item.toToml : Item → Toml
  | .value v => v
  | .table _ members => .table (membersToToml members)
  | .elements tables => .list (tablesToToml tables)

def membersToToml : Members → List (String × Toml)
  | [] => []
  | (k, i) :: rest => (k, i.toToml) :: membersToToml rest

def tablesToToml : List Members → List Toml
  | [] => []
  | members :: rest => .table (membersToToml members) :: tablesToToml rest

end

end CertAuthority.Toml
