import CertAuthority.Asn1.Encode

/-!
# Reading encoded elements

`Der.Parser` reads values off the front of a byte string. It runs under one of two rules:
`Rules.distinguished` takes only the encoding that a writer would choose, `Rules.tolerant` also
lengths with more octets than they need.

* `Der.anyElement`, `Der.tagged` : the next element;
* `Der.within` : parses the content of an element and ignores what is left of it; `Der.filling`
  refuses a rest;
* `Der.many` : as many as there are.
-/

namespace CertAuthority.Der

inductive Rules where
  | tolerant | distinguished
deriving DecidableEq, Repr

/-- An element with its identifier octet, its content and all of its bytes. -/
structure Element where
  tag : UInt8
  content : Bytes
  raw : Bytes
deriving DecidableEq, Repr, Inhabited

abbrev Parser (α : Type) := ReaderT Rules (StateT Bytes Option) α

namespace Parser

/-- Value and rest. -/
def runOn {α : Type} (p : Parser α) (rules : Rules) (b : Bytes) : Option (α × Bytes) := (p rules) b

/-- Value, whatever is left. -/
def parse? {α : Type} (p : Parser α) (rules : Rules) (b : Bytes) : Option α :=
  (p.runOn rules b).map (·.1)

/-- Value, if nothing is left. -/
def parseAll? {α : Type} (p : Parser α) (rules : Rules) (b : Bytes) : Option α :=
  match p.runOn rules b with
  | some (a, []) => some a
  | _ => none

end Parser

def fail {α : Type} : Parser α := fun _ _ => none

def rest : Parser Bytes := fun _ b => some (b, b)

def atEnd : Parser Bool := fun _ b => some (b.isEmpty, b)

def rules : Parser Rules := fun r b => some (r, b)

def ofOption {α : Type} : Option α → Parser α
  | some a => pure a
  | none => fail

/-- A length in up to eight octets, and what follows it. -/
def takeLength (r : Rules) : Bytes → Option (Nat × Bytes)
  | [] => none
  | first :: b =>
    if first < 128 then some (first.toNat, b)
    else
      let size := first.toNat - 128
      let n := Bytes.toNat (b.take size)
      if size = 0 ∨ 8 < size ∨ b.length < size then none
      else if r = .distinguished ∧ (n < 128 ∨ (b.take size).head? = some 0) then none
      else some (n, b.drop size)

def anyElement : Parser Element := fun r b =>
  match b with
  | [] => none
  | tag :: b' =>
    if tag &&& 0x1f = 0x1f then none
    else
      match takeLength r b' with
      | none => none
      | some (n, content) =>
        if content.length < n then none
        else some (⟨tag, content.take n, b.take (b.length - (content.length - n))⟩, content.drop n)

/-- Identifier octet of the next element. -/
def peek : Parser (Option UInt8) := fun _ b => some (b.head?, b)

/-- Content of the next element, which has this identifier octet. -/
def tagged (tag : UInt8) : Parser Bytes := do
  let e ← anyElement
  if e.tag = tag then return e.content else fail

/-- Content of the next element, if it has this identifier octet. -/
def taggedIf (tag : UInt8) : Parser (Option Bytes) := do
  if (← peek) = some tag then some <$> tagged tag else return none

def within {α : Type} (p : Parser α) (content : Bytes) : Parser α := fun r b =>
  (p.parse? r content).map fun a => (a, b)

def filling {α : Type} (p : Parser α) (content : Bytes) : Parser α := fun r b =>
  (p.parseAll? r content).map fun a => (a, b)

/-- The fields of the next element, which is a sequence. -/
def inSequence {α : Type} (p : Parser α) : Parser α := do within p (← tagged tagSequence)

/-- The same, with nothing after the fields. -/
def inWholeSequence {α : Type} (p : Parser α) : Parser α := do filling p (← tagged tagSequence)

/-- The next value, if `p` reads one. -/
def optionally {α : Type} (p : Parser α) : Parser (Option α) := fun r b =>
  match (p r) b with
  | some (a, b') => some (some a, b')
  | none => some (none, b)

def manyFuel {α : Type} (p : Parser α) : Nat → Parser (List α)
  | 0 => pure []
  | fuel + 1 => do
    match ← optionally p with
    | some a => return a :: (← manyFuel p fuel)
    | none => return []

/-- Values until `p` reads no more. -/
def many {α : Type} (p : Parser α) : Parser (List α) := do manyFuel p (← rest).length

/-- Values up to the end. -/
def manyToEnd {α : Type} (p : Parser α) : Parser (List α) := do
  let values ← many p
  if ← atEnd then return values else fail

/-! ## Primitive types -/

def boolValue? : Bytes → Option Bool
  | [0] => some false
  | [0xff] => some true
  | _ => none

def boolValue : Parser Bool := do ofOption (boolValue? (← tagged tagBoolean))

/-- No superfluous leading octet. -/
def isMinimalInteger : Bytes → Bool
  | [] => false
  | [_] => true
  | a :: b :: _ => !(a == 0 && b < 128 || a == 0xff && 128 ≤ b)

/-- Content of an integer. -/
def integerContent : Parser Bytes := do
  let content ← tagged tagInteger
  if (← rules) = .distinguished ∧ !isMinimalInteger content then fail else return content

/-- An integer that is not negative. -/
def natValue : Parser Nat := do
  match ← integerContent with
  | [] => fail
  | d :: ds => if d < 128 then return Bytes.toNat (d :: ds) else fail

def natBelow (bound : Nat) : Parser Nat := do
  let n ← natValue
  if n < bound then return n else fail

/-- Unused bits of a bit string are clear, and fewer than eight. -/
def bitsOfContent? : Bytes → Option (Nat × Bytes)
  | [] => none
  | unused :: b =>
    let clear : Bool := match b.getLast? with
      | none => unused == 0
      | some last => last.toNat % bitLimit unused.toNat == 0
    if unused < 8 ∧ clear then some (unused.toNat, b) else none

/-- Bytes of a bit string. -/
def bitsValue : Parser Bytes := do
  let (_, b) ← ofOption (bitsOfContent? (← tagged tagBitString))
  return b

/-- Bytes of a bit string of whole bytes. -/
def wholeBits : Parser Bytes := do
  match ← ofOption (bitsOfContent? (← tagged tagBitString)) with
  | (0, b) => return b
  | _ => fail

/-! ## Object identifiers -/

/-- Arcs from groups of seven bits; `n` is the value of the groups of the arc so far. -/
def arcsFrom (n : Nat) : Bytes → List Nat
  | [] => []
  | b :: bs =>
    let n := n * 128 + b.toNat % 128
    if b < 128 then n :: arcsFrom 0 bs else arcsFrom n bs

/-- Arcs of an identifier's content. The first two arcs share the first octet. -/
def arcsOfContent? : Bytes → Option (List Nat)
  | [] => none
  | first :: rest =>
    if rest.getLast?.getD 0 < 128 ∧ (first < 128 ∨ rest ≠ []) then
      some (first.toNat / 40 :: first.toNat % 40 :: arcsFrom 0 rest)
    else none

def oidValue : Parser (List Nat) := do ofOption (arcsOfContent? (← tagged tagOid))

def dotted (arcs : List Nat) : String := ".".intercalate (arcs.map toString)

end CertAuthority.Der
