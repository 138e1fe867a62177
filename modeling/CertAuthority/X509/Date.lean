import CertAuthority.Asn1.Decode
import CertAuthority.Text.Basic
import CertAuthority.Time.Instant

/-!
# Dates in certificates

Dates of the years 1950 to 2049 have two digits for the year, others four. Seconds are whole.

* `X509.Date.encode?`, `X509.Date.encodeLong?` : fail beyond the year 9999 and before the year 0;
  the second always writes four digits;
* `X509.Date.parser` : seconds may be missing, and an offset may stand for `Z`.
-/

namespace CertAuthority.X509.Date

open Der

/-- Dates that fit a certificate's arithmetic: years −9999 to 9999. -/
def isInRange (t : Instant) : Bool := -377705116800 ≤ t.seconds && t.seconds ≤ 253402300799

def clockText (month day : Int) (rest : Nat) : String :=
  Text.padded 2 month.toNat ++ Text.padded 2 day.toNat ++ Text.padded 2 (rest / 3600) ++
    Text.padded 2 (rest / 60 % 60) ++ Text.padded 2 (rest % 60) ++ "Z"

/-- The year, and the text of what follows it. -/
def parts (t : Instant) : Int × String :=
  let (year, month, day) := civilFromDays (t.seconds.fdiv 86400)
  (year, clockText month day (t.seconds.fmod 86400).toNat)

def encodeLong? (t : Instant) : Option Bytes :=
  let (year, clock) := parts t
  if 0 ≤ year ∧ year ≤ 9999 then
    some (element tagGeneralizedTime (Bytes.ofText (Text.padded 4 year.toNat ++ clock)))
  else none

def encode? (t : Instant) : Option Bytes :=
  let (year, clock) := parts t
  if 1950 ≤ year ∧ year < 2050 then
    some (element tagUtcTime (Bytes.ofText (Text.padded 2 (year % 100).toNat ++ clock)))
  else encodeLong? t

/-! ## Reading -/

/-- `n` digits off the front. -/
def digits? (n : Nat) (cs : List Char) : Option (Nat × List Char) :=
  let ds := cs.take n
  if ds.length = n ∧ ds.all Text.isDigit then some (Text.digitsValue ds, cs.drop n) else none

/-- Seconds, or zero where an offset follows at once. -/
def seconds? (cs : List Char) : Option (Nat × List Char) :=
  match digits? 2 cs with
  | some r => some r
  | none => some (0, cs)

/-- A fraction is skipped. -/
def skipFraction : List Char → List Char
  | '.' :: rest => rest.dropWhile Text.isDigit
  | cs => cs

/-- Seconds east of Greenwich at the end of a date. -/
def offset? : List Char → Option Int
  | ['Z'] => some 0
  | sign :: rest => do
    let (h, rest) ← digits? 2 rest
    let (m, rest) ← digits? 2 rest
    let n : Int := h * 3600 + m * 60
    if rest ≠ [] ∨ 59 < m then none
    else if sign = '+' then some n
    else if sign = '-' then some (-n)
    else none
  | [] => none

def afterYear? (year : Int) (cs : List Char) : Option Instant := do
  let (month, cs) ← digits? 2 cs
  let (day, cs) ← digits? 2 cs
  let (hour, cs) ← digits? 2 cs
  let (minute, cs) ← digits? 2 cs
  let (second, cs) ← seconds? cs
  let offset ← offset? (skipFraction cs)
  if 1 ≤ month ∧ month ≤ 12 ∧ 1 ≤ day ∧ day ≤ daysInMonth year month ∧ hour ≤ 23 ∧ minute ≤ 59 ∧
      second ≤ 59 then
    some (.ofSeconds (daysFromCivil year month day * 86400 + hour * 3600 + minute * 60 + second -
      offset))
  else none

def ofContent? (tag : UInt8) (content : Bytes) : Option Instant := do
  let cs := (← Bytes.text? content).toList
  if tag = tagUtcTime then
    let (y, rest) ← digits? 2 cs
    afterYear? (if y < 50 then 2000 + y else 1900 + y) rest
  else if tag = tagGeneralizedTime then
    let (y, rest) ← digits? 4 cs
    afterYear? y rest
  else none

def parser : Parser Instant := do
  let e ← anyElement
  ofOption (ofContent? e.tag e.content)

end CertAuthority.X509.Date
