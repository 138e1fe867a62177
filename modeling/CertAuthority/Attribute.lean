import CertAuthority.Bytes.Hex
import CertAuthority.Json.Basic

/-!
# Attribute values

The payload of an extension or option. Text and lists flatten into tokens; `ofTokens` goes the other
way, so a value with no token is a bare flag, one with a single token is text, and only longer ones
are lists. Map entries stand in ascending key order.
-/

namespace CertAuthority

inductive AttributeValue where
  /-- A flag without payload -/
  | present
  | text (s : String)
  | bytes (b : Bytes)
  | integer (n : Int)
  | list (items : List AttributeValue)
  | map (entries : List (String × AttributeValue))
deriving Repr, Inhabited

namespace AttributeValue

/-! ## Equality -/

mutual

def same : AttributeValue → AttributeValue → Bool
  | .present, .present => true
  | .text a, .text b => a == b
  | .bytes a, .bytes b => a == b
  | .integer a, .integer b => a == b
  | .list a, .list b => sameItems a b
  | .map a, .map b => sameEntries a b
  | _, _ => false

def sameItems : List AttributeValue → List AttributeValue → Bool
  | [], [] => true
  | a :: as, b :: bs => same a b && sameItems as bs
  | _, _ => false

def sameEntries : List (String × AttributeValue) → List (String × AttributeValue) → Bool
  | [], [] => true
  | (k, a) :: as, (l, b) :: bs => k == l && same a b && sameEntries as bs
  | _, _ => false

end

mutual

theorem same_iff : ∀ a b : AttributeValue, same a b = true ↔ a = b
  | .present, b => by cases b <;> simp [same]
  | .text _, b => by cases b <;> simp [same]
  | .bytes _, b => by cases b <;> simp [same]
  | .integer _, b => by cases b <;> simp [same]
  | .list as, b => by cases b <;> simp [same, sameItems_iff as]
  | .map as, b => by cases b <;> simp [same, sameEntries_iff as]

theorem sameItems_iff : ∀ as bs : List AttributeValue, sameItems as bs = true ↔ as = bs
  | [], bs => by cases bs <;> simp [sameItems]
  | a :: as, bs => by cases bs <;> simp [sameItems, same_iff a, sameItems_iff as]

theorem sameEntries_iff :
    ∀ as bs : List (String × AttributeValue), sameEntries as bs = true ↔ as = bs
  | [], bs => by cases bs <;> simp [sameEntries]
  | (k, a) :: as, bs => by
    cases bs with
    | nil => simp [sameEntries]
    | cons b bs => simp [sameEntries, same_iff a, sameEntries_iff as, Prod.ext_iff]

end

instance : DecidableEq AttributeValue := fun a b => decidable_of_iff _ (same_iff a b)

/-! ## Tokens -/

def asText? : AttributeValue → Option String
  | .text s => some s
  | _ => none

/-- Token of a list item: text or an integer. -/
def itemToken? : AttributeValue → Option String
  | .text s => some (Text.trim s)
  | .integer n => some (toString n)
  | _ => none

/-- The value as text tokens: text split at commas, lists flattened one level. Bytes, maps and
nested lists have none. -/
def tokens? : AttributeValue → Option (List String)
  | .present => some []
  | .text s => some (Text.commaPieces s)
  | .integer n => some [toString n]
  | .list items => items.mapM itemToken?
  | .bytes _ | .map _ => none

def ofTokens : List String → AttributeValue
  | [] => .present
  | [t] => .text t
  | ts => .list (ts.map .text)

/-! ## Display -/

mutual

def display : AttributeValue → String
  | .present => "true"
  | .text s => s
  | .bytes b => Hex.encode b
  | .integer n => toString n
  | .list items => ",".intercalate (displayItems items)
  | .map entries => ",".intercalate (displayEntries entries)

def displayItems : List AttributeValue → List String
  | [] => []
  | a :: as => display a :: displayItems as

def displayEntries : List (String × AttributeValue) → List String
  | [] => []
  | (k, a) :: as => (k ++ ":" ++ display a) :: displayEntries as

end

/-! ## JSON -/

mutual

def toJson : AttributeValue → Json
  | .present => .str "present"
  | .text s => .obj [("text", .str s)]
  | .bytes b => .obj [("bytes", Json.ofBytes b)]
  | .integer n => .obj [("integer", .int n)]
  | .list items => .obj [("list", .arr (itemsToJson items))]
  | .map entries => .obj [("map", .obj (entriesToJson entries))]

def itemsToJson : List AttributeValue → List Json
  | [] => []
  | a :: as => toJson a :: itemsToJson as

def entriesToJson : List (String × AttributeValue) → List (String × Json)
  | [] => []
  | (k, a) :: as => (k, toJson a) :: entriesToJson as

end

mutual

def read : Json.Reader AttributeValue
  | .str "present" => .ok .present
  | .obj [("present", .null)] => .ok .present
  | .obj [("text", j)] => .text <$> Json.asString j
  | .obj [("bytes", j)] => .bytes <$> Json.asBase64 j
  | .obj [("integer", j)] => .integer <$> Json.asI64 j
  | .obj [("list", .arr items)] => .list <$> readItems items
  | .obj [("map", .obj members)] => .map <$> readEntries members
  | _ => Json.mismatch

def readItems : List Json → Except Json.Refusal (List AttributeValue)
  | [] => .ok []
  | j :: js => do return (← read j) :: (← readItems js)

def readEntries : List (String × Json) → Except Json.Refusal (List (String × AttributeValue))
  | [] => .ok []
  | (k, j) :: js => do
    let a ← read j
    return Json.insertMember k a (← readEntries js)

end

end AttributeValue
end CertAuthority
