import CertAuthority.Bytes.Basic

/-!
# Instants and spans

An instant is a count of seconds since 1970-01-01T00:00:00Z and a fraction in nanoseconds; a
fraction of a whole second or more stands for a leap second. Instants order by seconds, then by
fraction. The calendar is the proleptic Gregorian one, in Coordinated Universal Time.

* `daysFromCivil`, `civilFromDays` : days since 1970-01-01 of a calendar date, and back;
* `Instant.representable` : years −262143 to 262142, the range every computation stays in;
* `Instant.plus?` : the instant a span later, if it is representable;
* `Span` : a signed span in nanoseconds, at most `2 ^ 63 - 1` milliseconds long.
-/

namespace CertAuthority

/-! ## Calendar -/

/-- Days from 1970-01-01 to the given date of the proleptic Gregorian calendar. -/
def daysFromCivil (year month day : Int) : Int :=
  let y := if month ≤ 2 then year - 1 else year
  let era := y.fdiv 400
  let yoe := y - era * 400
  let doy := (153 * (if month > 2 then month - 3 else month + 9) + 2).fdiv 5 + day - 1
  let doe := yoe * 365 + yoe.fdiv 4 - yoe.fdiv 100 + doy
  era * 146097 + doe - 719468

/-- Calendar date of a day counted from 1970-01-01. -/
def civilFromDays (days : Int) : Int × Int × Int :=
  let z := days + 719468
  let era := z.fdiv 146097
  let doe := z - era * 146097
  let yoe := (doe - doe.fdiv 1460 + doe.fdiv 36524 - doe.fdiv 146096).fdiv 365
  let doy := doe - (365 * yoe + yoe.fdiv 4 - yoe.fdiv 100)
  let mp := (5 * doy + 2).fdiv 153
  let day := doy - (153 * mp + 2).fdiv 5 + 1
  let month := if mp < 10 then mp + 3 else mp - 9
  (yoe + era * 400 + (if month ≤ 2 then 1 else 0), month, day)

def isLeapYear (year : Int) : Bool :=
  year.fmod 4 == 0 && (year.fmod 100 != 0 || year.fmod 400 == 0)

def daysInMonth (year month : Int) : Int :=
  if month = 2 then (if isLeapYear year then 29 else 28)
  else if month = 4 ∨ month = 6 ∨ month = 9 ∨ month = 11 then 30 else 31

/-! ## Spans -/

/-- A signed length of time. -/
structure Span where
  nanos : Int
deriving DecidableEq, Repr

namespace Span

def nanosPerSecond : Int := 1000000000

/-- Longest span, `2 ^ 63 - 1` milliseconds. -/
def longest : Span := ⟨(bitLimit 63 - 1) * 1000000⟩

def zero : Span := ⟨0⟩

/-- A span of whole seconds, if it is not longer than `longest`. -/
def ofSeconds? (s : Int) : Option Span :=
  if s.natAbs ≤ (bitLimit 63 - 1) / 1000 then some ⟨s * nanosPerSecond⟩ else none

/-- Whole seconds, the fraction dropped. -/
def seconds (d : Span) : Int := d.nanos.tdiv nanosPerSecond

end Span

/-! ## Instants -/

structure Instant where
  seconds : Int
  nanos : Nat
deriving DecidableEq, Repr

namespace Instant

def ofSeconds (s : Int) : Instant := ⟨s, 0⟩

def lt (a b : Instant) : Bool :=
  a.seconds < b.seconds || (a.seconds == b.seconds && a.nanos < b.nanos)

def le (a b : Instant) : Bool := !lt b a

/-- First second of year −262143. -/
def earliest : Instant := ⟨daysFromCivil (-262143) 1 1 * 86400, 0⟩

/-- Last second of year 262142. -/
def latestSecond : Int := daysFromCivil 262142 12 31 * 86400 + 86399

def representable (t : Instant) : Bool :=
  earliest.seconds ≤ t.seconds && t.seconds ≤ latestSecond

/-- Time `t` falls in a leap second. -/
def isLeap (t : Instant) : Bool := Span.nanosPerSecond ≤ t.nanos

/-- Seconds since midnight. -/
def clock (t : Instant) : Int := t.seconds.fmod 86400

/-- The instant so many nanoseconds after the beginning of a second. -/
def fromSecond (seconds nanos : Int) : Instant :=
  ⟨seconds + nanos.fdiv Span.nanosPerSecond, (nanos.fmod Span.nanosPerSecond).toNat⟩

/-- The instant `d` after `t`. A leap second is not counted once it is over. -/
def moved (t : Instant) (d : Span) : Instant :=
  let nanos := t.nanos + d.nanos
  if t.isLeap ∧ Span.nanosPerSecond ≤ nanos then
    if nanos < 2 * Span.nanosPerSecond then ⟨t.seconds, nanos.toNat⟩
    else fromSecond t.seconds (t.nanos % Span.nanosPerSecond + d.nanos)
  else fromSecond t.seconds nanos

/-- The instant `d` after `t`, unless it leaves the representable range. -/
def plus? (t : Instant) (d : Span) : Option Instant :=
  if (t.moved d).representable then some (t.moved d) else none

/-- From `s` to `t`. A leap second counts if the clock has gone on past it by the other instant. -/
def since (t s : Instant) : Span :=
  let leap : Int :=
    if s.isLeap ∧ s.clock < t.clock then 1
    else if t.isLeap ∧ t.clock < s.clock then -1
    else 0
  ⟨(t.seconds - s.seconds + leap) * Span.nanosPerSecond + (t.nanos - s.nanos : Int)⟩

/-- The whole second `t` falls in. -/
def wholeSecond (t : Instant) : Instant := ⟨t.seconds, 0⟩

end Instant
end CertAuthority
