import CertAuthority.Text.Basic
import CertAuthority.Time.Instant

/-!
# Dates as RFC 3339 text

Printed in UTC with `Z`, and a fraction of three, six or nine digits if there is one; a year outside
0–9999 carries its sign. Reading is laxer: blanks may stand before each number and separator, a
blank or `t` may stand for `T`, the offset may be `UTC`, and its colon may be missing.
-/

namespace CertAuthority.Rfc3339

/-! ## Printing -/

def yearText (year : Int) : String :=
  if 0 ≤ year ∧ year ≤ 9999 then Text.padded 4 year.toNat
  else (if year < 0 then "-" else "+") ++ Text.padded 4 year.natAbs

/-- The fraction with as few groups of three digits as it takes. -/
def fractionText (nanos : Nat) : String :=
  if nanos = 0 then ""
  else if nanos % 1000000 = 0 then "." ++ Text.padded 3 (nanos / 1000000)
  else if nanos % 1000 = 0 then "." ++ Text.padded 6 (nanos / 1000)
  else "." ++ Text.padded 9 nanos

def print (t : Instant) : String :=
  let days := t.seconds.fdiv 86400
  let rest := (t.seconds.fmod 86400).toNat
  let (year, month, day) := civilFromDays days
  let leap := if t.nanos ≥ 1000000000 then 1 else 0
  yearText year ++ "-" ++ Text.padded 2 month.toNat ++ "-" ++ Text.padded 2 day.toNat ++ "T" ++
    Text.padded 2 (rest / 3600) ++ ":" ++ Text.padded 2 (rest / 60 % 60) ++ ":" ++
    Text.padded 2 (rest % 60 + leap) ++ fractionText (t.nanos % 1000000000) ++ "Z"

/-! ## Reading -/

/-- At most `width` digits, at least one. -/
def digits? (width : Nat) (cs : List Char) : Option (Nat × List Char) :=
  let ds := (cs.take width).takeWhile Text.isDigit
  if ds.isEmpty then none else some (Text.digitsValue ds, cs.drop ds.length)

/-- A number after optional blanks. -/
def number? (width : Nat) (cs : List Char) : Option (Nat × List Char) :=
  digits? width (Text.trimStartChars cs)

/-- A year: four digits at most, or any number of digits after a sign. -/
def year? (cs : List Char) : Option (Int × List Char) :=
  match Text.trimStartChars cs with
  | '-' :: rest => (digits? rest.length rest).map fun (n, r) => (-(n : Int), r)
  | '+' :: rest => (digits? rest.length rest).map fun (n, r) => ((n : Int), r)
  | rest => (digits? 4 rest).map fun (n, r) => ((n : Int), r)

/-- The separator `c` after optional blanks. -/
def sep? (c : Char) (cs : List Char) : Option (List Char) :=
  match Text.trimStartChars cs with
  | x :: rest => if x = c then some rest else none
  | [] => none

/-- Nanoseconds of a fraction after `.`; digits beyond the ninth are dropped. -/
def fraction? (cs : List Char) : Option (Nat × List Char) :=
  match cs with
  | '.' :: rest =>
    let ds := (rest.take 9).takeWhile Text.isDigit
    if ds.isEmpty then none
    else some (Text.digitsValue ds * Nat.pow 10 (9 - ds.length),
      (rest.drop ds.length).dropWhile Text.isDigit)
  | _ => some (0, cs)

/-- Offset from UTC in seconds: `Z`, or a sign, two digits, and two digits below 60. -/
def offset? (cs : List Char) : Option (Int × List Char) :=
  match cs with
  | 'u' :: rest | 'U' :: rest =>
    match rest with
    | t :: c :: tail =>
      if Text.lowerChar t = 't' ∧ Text.lowerChar c = 'c' then some (0, tail) else none
    | _ => none
  | 'z' :: rest | 'Z' :: rest => some (0, rest)
  | s :: h1 :: h2 :: rest =>
    if (s = '+' ∨ s = '-' ∨ s = '−') ∧ Text.isDigit h1 ∧ Text.isDigit h2 then
      let hours := Text.digitsValue [h1, h2]
      match rest.dropWhile fun c => c == ':' || Text.isBlank c with
      | m1 :: m2 :: tail =>
        if Text.isDigit m1 ∧ Text.isDigit m2 ∧ m1 < '6' then
          let total : Int := hours * 3600 + Text.digitsValue [m1, m2] * 60
          if total < 86400 then some (if s = '+' then total else -total, tail) else none
        else none
      | _ => none
    else none
  | _ => none

/-- The instant a text names; blanks may follow it. -/
def parse? (s : String) : Option Instant := do
  let (year, cs) ← year? s.toList
  let cs ← sep? '-' cs
  let (month, cs) ← number? 2 cs
  let cs ← sep? '-' cs
  let (day, cs) ← number? 2 cs
  let cs ← match cs with
    | 't' :: rest | 'T' :: rest | ' ' :: rest => some rest
    | _ => none
  let (hour, cs) ← number? 2 cs
  let cs ← sep? ':' cs
  let (minute, cs) ← number? 2 cs
  let cs ← sep? ':' cs
  let (second, cs) ← number? 2 cs
  let (nanos, cs) ← fraction? cs
  let (offset, cs) ← offset? (Text.trimStartChars cs)
  if !(Text.trimStartChars cs).isEmpty then none
  else if month < 1 ∨ 12 < month ∨ day < 1 ∨ daysInMonth year month < day then none
  else if 23 < hour ∨ 59 < minute ∨ 60 < second then none
  else
    let leap := second = 60
    let clock : Int := hour * 3600 + minute * 60 + (if leap then 59 else second)
    let t : Instant :=
      ⟨daysFromCivil year month day * 86400 + clock - offset,
        nanos + if leap then 1000000000 else 0⟩
    if t.representable then some t else none

end CertAuthority.Rfc3339
