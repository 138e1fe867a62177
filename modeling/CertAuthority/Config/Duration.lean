import CertAuthority.Json.Basic
import CertAuthority.Text.Quoted

/-!
# Durations in configuration files

A duration is a number of seconds, written bare or as numbers with units, such as `1d12h`.

* `Duration.parse` : units in any order and repetition, added up; the sum has to fit 64 bits;
* `Duration.text` : the largest units first, none of them more often than the next one allows;
* `Duration.toSpan` : the longest span where the duration exceeds it.
-/

namespace CertAuthority

/-- Whole seconds. -/
structure Duration where
  seconds : Nat
deriving DecidableEq, Repr, Inhabited

inductive DurationError where
  | empty
  | unknownUnit (c : Char) (text : String)
  /-- No number before the unit, or one of more than 64 bits -/
  | missingNumber (unit : Char) (text : String)
  | tooLarge (text : String)
  | trailingNumber (text : String)
deriving DecidableEq, Repr

def DurationError.message : DurationError → String
  | .empty => "empty duration"
  | .unknownUnit c s => "unknown time unit " ++ Text.quotedChar c ++ " in " ++ Text.quoted s
  | .missingNumber c s => "missing number before " ++ Text.quotedChar c ++ " in " ++ Text.quoted s
  | .tooLarge s => "duration " ++ Text.quoted s ++ " is too large"
  | .trailingNumber s => "trailing number without unit in " ++ Text.quoted s

namespace Duration

/-- Durations and their parts stay below this number of seconds. -/
def bound : Nat := bitLimit 64

def week : Nat := 604800
def day : Nat := 86400
def hour : Nat := 3600
def minute : Nat := 60

/-- Seconds in a unit, whatever the case of its letter. -/
def unitSeconds? (c : Char) : Option Nat :=
  match Text.lowerChar c with
  | 's' => some 1
  | 'm' => some minute
  | 'h' => some hour
  | 'd' => some day
  | 'w' => some week
  | _ => none

/-- Adds up the parts of `text`: `total` is their sum so far and `digits` the number begun. -/
def sumParts (text : String) (total : Nat) (digits : List Char) :
    List Char → Except DurationError Nat
  | [] => if digits.isEmpty then .ok total else .error (.trailingNumber text)
  | c :: rest =>
    if Text.isDigit c then sumParts text total (digits ++ [c]) rest
    else
      match unitSeconds? c, Text.natBelow? bound digits with
      | none, _ => .error (.unknownUnit c text)
      | some _, none => .error (.missingNumber c text)
      | some size, some n =>
        if total + n * size < bound then sumParts text (total + n * size) [] rest
        else .error (.tooLarge text)

def parse (s : String) : Except DurationError Duration :=
  let trimmed := Text.trim s
  if trimmed = "" then .error .empty
  else
    match Text.natBelow? bound trimmed.toList with
    | some n => .ok ⟨n⟩
    | none => mk <$> sumParts trimmed 0 [] trimmed.toList

/-- The units of a text, larger ones first. -/
def units : List (Nat × String) := [(week, "w"), (day, "d"), (hour, "h"), (minute, "m"), (1, "s")]

/-- One part for each unit that fits. -/
def parts (seconds : Nat) : List (Nat × String) → List String
  | [] => []
  | (size, name) :: rest =>
    if size ≤ seconds then (toString (seconds / size) ++ name) :: parts (seconds % size) rest
    else parts seconds rest

def text (d : Duration) : String :=
  if d.seconds = 0 then "0s" else String.join (parts d.seconds units)

def toSpan (d : Duration) : Span := (Span.ofSeconds? d.seconds).getD .longest

/-- A number of seconds or a text. -/
def read : Json.Reader Duration
  | .int n => mk <$> Json.asU64 (.int n)
  | .str s => match parse s with
    | .ok d => .ok d
    | .error e => .error (.worded e.message)
  | _ => Json.mismatch

def toJson (d : Duration) : Json := .str d.text

end Duration
end CertAuthority
