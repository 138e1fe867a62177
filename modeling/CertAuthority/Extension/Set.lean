import CertAuthority.Extension.Kind

/-!
# Extension sets

A set holds at most one entry per kind, so it is a function from kinds to optional entries, and two
sets are equal when they agree at every kind. Entries are listed in the order of the kinds.

* `get?`, `insert`, `erase`, `overlay`, `filter`, with one lemma each for `get?`;
* `toList`, `kinds`, `size`, `isEmpty` go over all kinds;
* `Allowed` : an allow-list of kinds, or no restriction.
-/

namespace CertAuthority

structure ExtensionSet where
  get? : ExtensionKind → Option ExtensionValue

namespace ExtensionSet

def empty : ExtensionSet := ⟨fun _ => none⟩

instance : Inhabited ExtensionSet := ⟨empty⟩

@[ext] theorem ext {a b : ExtensionSet} (h : ∀ k, a.get? k = b.get? k) : a = b := by
  cases a; cases b; congr; exact funext h

instance : DecidableEq ExtensionSet := fun a b =>
  decidable_of_iff (∀ k ∈ ExtensionKind.all, a.get? k = b.get? k)
    ⟨fun h => ext fun k => h k (ExtensionKind.mem_all k), fun h => h ▸ fun _ _ => rfl⟩

/-! ## Views -/

def toList (s : ExtensionSet) : List (ExtensionKind × ExtensionValue) :=
  ExtensionKind.all.filterMap fun k => (s.get? k).map fun v => (k, v)

def contains (s : ExtensionSet) (k : ExtensionKind) : Bool := (s.get? k).isSome

def kinds (s : ExtensionSet) : List ExtensionKind := ExtensionKind.all.filter s.contains

def size (s : ExtensionSet) : Nat := s.kinds.length

def isEmpty (s : ExtensionSet) : Bool := s.kinds.isEmpty

/-! ## Operations -/

def insert (s : ExtensionSet) (k : ExtensionKind) (v : ExtensionValue) : ExtensionSet :=
  ⟨fun j => if j = k then some v else s.get? j⟩

def erase (s : ExtensionSet) (k : ExtensionKind) : ExtensionSet :=
  ⟨fun j => if j = k then none else s.get? j⟩

/-- The entries of `upper`, and those of `s` at the kinds `upper` does not have. -/
def overlay (s upper : ExtensionSet) : ExtensionSet :=
  ⟨fun k => upper.get? k <|> s.get? k⟩

def filter (keep : ExtensionKind → ExtensionValue → Bool) (s : ExtensionSet) : ExtensionSet :=
  ⟨fun k => (s.get? k).filter (keep k)⟩

/-- Inserts the entries in order, so the last of a kind stays. -/
def ofList (entries : List (ExtensionKind × ExtensionValue)) : ExtensionSet :=
  entries.foldl (fun s (k, v) => s.insert k v) empty

def insertRaw (s : ExtensionSet) (k : ExtensionKind) (raw : String) : ExtensionSet :=
  s.insert k (k.parseValue raw)

@[simp] theorem get?_empty (k : ExtensionKind) : empty.get? k = none := rfl

@[simp] theorem get?_insert (s : ExtensionSet) (k j : ExtensionKind) (v : ExtensionValue) :
    (s.insert k v).get? j = if j = k then some v else s.get? j := rfl

@[simp] theorem get?_erase (s : ExtensionSet) (k j : ExtensionKind) :
    (s.erase k).get? j = if j = k then none else s.get? j := rfl

@[simp] theorem get?_overlay (s upper : ExtensionSet) (k : ExtensionKind) :
    (s.overlay upper).get? k = (upper.get? k <|> s.get? k) := rfl

@[simp] theorem get?_filter (keep : ExtensionKind → ExtensionValue → Bool) (s : ExtensionSet)
    (k : ExtensionKind) : (s.filter keep).get? k = (s.get? k).filter (keep k) := rfl

/-! ## JSON -/

def toJson (s : ExtensionSet) : Json :=
  .obj (s.toList.map fun (k, v) => (k.name, v.toJson))

def readEntry (m : String × Json) : Except Json.Refusal (ExtensionKind × ExtensionValue) := do
  return (← ExtensionKind.ofName m.1, ← ExtensionValue.read m.2)

def read : Json.Reader ExtensionSet
  | .obj members => ofList <$> members.mapM readEntry
  | _ => Json.mismatch

end ExtensionSet

/-! ## Allow-lists -/

/-- The kinds a requester may set. -/
inductive Allowed where
  /-- No restriction, written `*` -/
  | any
  | only (permitted : ExtensionKind → Bool)

namespace Allowed

instance : Inhabited Allowed := ⟨any⟩

def permits : Allowed → ExtensionKind → Bool
  | .any, _ => true
  | .only permitted, k => permitted k

def ofKinds (ks : List ExtensionKind) : Allowed := .only ks.contains

def names : Allowed → List String
  | .any => ["*"]
  | .only permitted => (ExtensionKind.all.filter permitted).map (·.name)

/-- `*` anywhere lifts the restriction, whatever else is listed. -/
def ofNames (ns : List String) : Except Json.Refusal Allowed :=
  if ns.contains "*" then .ok .any else ofKinds <$> ns.mapM ExtensionKind.ofName

def toJson (a : Allowed) : Json := Json.ofStrings a.names

def read : Json.Reader Allowed := fun j => do ofNames (← Json.asList Json.asString j)

end Allowed
end CertAuthority
