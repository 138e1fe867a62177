import CertAuthority.Bytes.Base64
import CertAuthority.Time.Rfc3339

/-!
# JSON values and their reading

`Json` is a JSON value whose numbers are integers; `fraction` stands for any other number. The rest
of the module reads domain values out of it.

* `Reader α` : a partial function from JSON values, with the reason for a refusal;
* records are objects, and also arrays that hold the fields in order; `Fields` hides the difference;
* a field may be required, or have a default where it is missing;
* sums are objects with one key, the case's name; a case without payload is also its bare name.
-/

namespace CertAuthority

inductive Json where
  | null
  | bool (b : Bool)
  | int (n : Int)
  | fraction
  | str (s : String)
  | arr (items : List Json)
  | obj (members : List (String × Json))
deriving Inhabited, BEq

namespace Json

/-- A refusal. A text that the library words itself is kept; any other reason is only a mismatch. -/
inductive Refusal where
  | worded (text : String)
  | mismatch
deriving DecidableEq, Repr

abbrev Reader (α : Type) := Json → Except Refusal α

def mismatch {α : Type} : Except Refusal α := .error .mismatch

/-! ## Scalars -/

def asString : Reader String
  | .str s => .ok s
  | _ => mismatch

def asBool : Reader Bool
  | .bool b => .ok b
  | _ => mismatch

def asNatBelow (bound : Nat) : Reader Nat
  | .int n => if 0 ≤ n ∧ n < bound then .ok n.toNat else mismatch
  | _ => mismatch

/-- An unsigned 64-bit number. -/
def asU64 : Reader Nat := asNatBelow (bitLimit 64)

/-- A signed 64-bit number. -/
def asI64 : Reader Int
  | .int n => if -(bitLimit 63 : Int) ≤ n ∧ n < bitLimit 63 then .ok n else mismatch
  | _ => mismatch

/-- Bytes as base64 text. -/
def asBase64 : Reader Bytes
  | .str s => match Base64.decodeText? s with
    | some b => .ok b
    | none => mismatch
  | _ => mismatch

/-- Bytes as the text they are in UTF-8, or as base64 text under the key `b64`. -/
def asContent : Reader Bytes
  | .str s => .ok (Bytes.ofText s)
  | .obj [("b64", j)] => asBase64 j
  | _ => mismatch

def asInstant : Reader Instant
  | .str s => match Rfc3339.parse? s with
    | some t => .ok t
    | none => mismatch
  | _ => mismatch

/-! ## Containers -/

def asList {α : Type} (item : Reader α) : Reader (List α)
  | .arr items => items.mapM item
  | _ => mismatch

def asPair {α β : Type} (first : Reader α) (second : Reader β) : Reader (α × β)
  | .arr [a, b] => do return (← first a, ← second b)
  | _ => mismatch

def asOption {α : Type} (value : Reader α) : Reader (Option α)
  | .null => .ok none
  | j => some <$> value j

/-- The members of an object, in key order of the text. -/
def asMembers : Reader (List (String × Json))
  | .obj members => .ok members
  | _ => mismatch

/-- Puts a member into a list in key order, in place of one of the same key. -/
def insertMember {α : Type} (key : String) (value : α) : List (String × α) → List (String × α)
  | [] => [(key, value)]
  | (k, v) :: rest =>
    if key < k then (key, value) :: (k, v) :: rest
    else if key = k then (key, value) :: rest
    else (k, v) :: insertMember key value rest

/-! ## Sums -/

/-- The name of a case without payload: bare, or as a key with `null`. -/
def asName : Reader String
  | .str s => .ok s
  | .obj [(name, .null)] => .ok name
  | _ => mismatch

/-! ## Records -/

/-- A record's fields, by name or by position. -/
inductive Fields where
  | named (members : List (String × Json))
  | positional (items : List Json)

/-- A record being read: what is left of it, and the refusal to report so far with its field. -/
structure Reading where
  fields : Fields
  refused : Option (String × Refusal)

/-- Reads one field after another from a record; a refused field does not stop it. -/
abbrev FieldReader (α : Type) := StateM Reading α

/-- Of two refusals the one of the smaller key counts in an object, the earlier one in an array. -/
def Reading.refuse (r : Reading) (name : String) (why : Refusal) : Reading :=
  match r.refused, r.fields with
  | some (other, _), .named _ => if name < other then { r with refused := some (name, why) } else r
  | some _, .positional _ => r
  | none, _ => { r with refused := some (name, why) }

/-- The next field: the member of that name, or the next item. -/
def nextField (name : String) : FieldReader (Option Json) := do
  let r ← get
  match r.fields with
  | .named members => return members.lookup name
  | .positional [] => return none
  | .positional (item :: rest) =>
    set { r with fields := .positional rest }
    return some item

/-- A field with a default for where it is missing. -/
def fieldD {α : Type} (name : String) (value : Reader α) (default : α) : FieldReader α := do
  match ← nextField name with
  | none => return default
  | some j =>
    match value j with
    | .ok a => return a
    | .error why =>
      modify (·.refuse name why)
      return default

/-- A sort key behind every field name, for fields that are missing. -/
def missing : String := "\uffff"

/-- A required field. -/
def field {α : Type} [Inhabited α] (name : String) (value : Reader α) : FieldReader α := do
  match ← fieldD name (fun j => some <$> value j) none with
  | some a => return a
  | none =>
    modify (·.refuse missing .mismatch)
    return default

/-- An optional field; missing and `null` are the same. -/
def field? {α : Type} (name : String) (value : Reader α) : FieldReader (Option α) :=
  fieldD name (asOption value) none

def Reading.finish {α : Type} (value : α) (r : Reading) : Except Refusal α :=
  match r.refused, r.fields with
  | some (_, why), _ => .error why
  | none, .positional (_ :: _) => mismatch
  | none, _ => .ok value

/-- Runs a field reader over a record; items past the last field are refused. -/
def asRecord {α : Type} (fields : FieldReader α) : Reader α
  | .obj members => let (value, r) := fields.run ⟨.named members, none⟩; r.finish value
  | .arr items => let (value, r) := fields.run ⟨.positional items, none⟩; r.finish value
  | _ => mismatch

/-- Refuses members whose key is none of `names`. -/
def denyUnknown {α : Type} (names : List String) (read : Reader α) : Reader α
  | .obj members =>
    if members.all fun (k, _) => names.contains k then read (.obj members) else mismatch
  | j => read j

/-! ## Writing -/

def ofNat (n : Nat) : Json := .int n

def ofBytes (b : Bytes) : Json := .str (Base64.encode b)

/-- Text where the bytes are UTF-8, and base64 otherwise. -/
def ofContent (b : Bytes) : Json :=
  match Bytes.text? b with
  | some s => .str s
  | none => .obj [("b64", ofBytes b)]

def ofInstant (t : Instant) : Json := .str (Rfc3339.print t)

def ofStrings (ss : List String) : Json := .arr (ss.map .str)

/-- The value of a member that is always there. -/
def orNull {α : Type} (write : α → Json) : Option α → Json
  | some a => write a
  | none => .null

/-- A member that is written only where the value is there. -/
def member? {α : Type} (name : String) (write : α → Json) : Option α → List (String × Json)
  | some a => [(name, write a)]
  | none => []

/-- A member that is written only where it is not the default. -/
def memberUnless (isDefault : Bool) (name : String) (value : Json) : List (String × Json) :=
  if isDefault then [] else [(name, value)]

end Json
end CertAuthority
