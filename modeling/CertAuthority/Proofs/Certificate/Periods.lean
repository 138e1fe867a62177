import CertAuthority.Proofs.Merge.RequestedEnd

/-!
# Which periods a request gets

The length that a request names is a natural number of any size. Spans hold fewer seconds, and from
the first date to the last there are fewer still. A period that would end after the last date is
refused, and so is one that does not end after it begins. All others are given to the nanosecond.

* `Instant.later` : some whole seconds later, without any bound;
* `Instant.laterBy?_eq` : reckoning with spans and dates gives that instant if it is a date, and
  nothing else;
* `SettlesPeriod` : how the period of a request comes out;
* `periods_settled` : certificates and revocation lists, each with a length of its own where the
  request names none.
-/

namespace CertAuthority

/-! ## Later instants -/

namespace Instant

variable {t : Instant} {n : Nat}

/-- The instant `n` seconds later. A leap second is over by then, and its fraction is that of the
next second. -/
def later (t : Instant) (n : Nat) : Instant :=
  if n = 0 then t else ⟨t.seconds + n, t.nanos % 1000000000⟩

theorem later_eq_moved (hn : n ≠ 0) : t.later n = t.moved ⟨n * Span.nanosPerSecond⟩ := by
  rw [later, moved_seconds, if_neg hn, if_neg (by omega)]

theorem isLater_later (t : Instant) (n : Nat) : t.IsLater n (t.later n) := by
  by_cases hn : n = 0
  · subst hn
    constructor <;> simp [later, since]
  · rw [later_eq_moved hn]
    exact isLater_moved t n

theorem representable_iff (t : Instant) :
    t.representable = true ↔ earliest.seconds ≤ t.seconds ∧ t.seconds ≤ latestSecond := by
  simp [representable]

/-- Between two dates there are fewer seconds than a span can have. -/
theorem IsLater.le_of_representable {u : Instant} (h : t.IsLater n u)
    (ht : t.representable = true) (hu : u.representable = true) :
    n ≤ (bitLimit 63 - 1) / 1000 := by
  have hdates : latestSecond - earliest.seconds ≤ (bitLimit 63 - 1) / 1000 := by decide
  rw [representable_iff] at ht hu
  rw [h.seconds] at hu
  omega

/-- Spans are no bound of their own. -/
theorem laterBy?_eq_plus? (h : t.representable = true) (n : Nat) :
    t.laterBy? n = t.plus? ⟨n * Span.nanosPerSecond⟩ := by
  rw [laterBy?, Span.ofSeconds?_min]
  by_cases hspan : n ≤ (bitLimit 63 - 1) / 1000
  · rw [if_pos hspan]
    rfl
  · rw [if_neg hspan, plus?,
      if_neg fun hmoved => hspan ((isLater_moved t n).le_of_representable h hmoved)]
    rfl

theorem laterBy?_eq (h : t.representable = true) (hn : n ≠ 0) :
    t.laterBy? n = if (t.later n).representable = true then some (t.later n) else none := by
  rw [laterBy?_eq_plus? h, later_eq_moved hn]
  rfl

/-- Without a second the end does not follow the start. -/
theorem exists_laterBy?_zero (h : t.representable = true) :
    ∃ u, t.laterBy? 0 = some u ∧ t.lt u = false := by
  have hmoved : (t.moved ⟨(0 : Nat) * Span.nanosPerSecond⟩).representable = true := by
    rw [representable, (isLater_moved t 0).seconds, Int.natCast_zero, Int.add_zero]
    exact h
  refine ⟨t.moved ⟨(0 : Nat) * Span.nanosPerSecond⟩, ?_, ?_⟩
  · rw [laterBy?_eq_plus? h, plus?, if_pos hmoved]
  · have hle : (t.moved ⟨(0 : Nat) * Span.nanosPerSecond⟩).le t = true := by
      rw [le_iff, moved_seconds]
      split
      · exact .inr ⟨rfl, Nat.le_refl _⟩
      · exact .inr ⟨Int.add_zero _, Nat.mod_le ..⟩
    simpa [le] using hle

end Instant

/-! ## Periods -/

/-- The period from `start` to `stop` is given if it is one. Otherwise the length is out of range,
or the end does not follow the start. -/
structure SettlesPeriod (start stop : Instant) (outOfRange notLater : String)
    (result : BackendResult (Instant × Instant)) : Prop where
  eq_ok_iff : ∀ p, result = .ok p ↔
    p = (start, stop) ∧ start.lt stop = true ∧ stop.representable = true
  of_outOfRange : stop.representable = false →
    result = Outcome.fail (.invalidSpec "ttl" outOfRange)
  of_notLater : stop.representable = true → start.lt stop = false →
    result = Outcome.fail (.invalidSpec "not_after" notLater)

section

variable {now start stop : Instant} {r : CertificateRequest} {outOfRange notLater : String}

/-- The period that begins with `start`, if it is one. -/
def periodTo (start stop : Instant) (notLater : String) : BackendResult (Instant × Instant) := do
  Outcome.ensure (!stop.le start) (.invalidSpec "not_after" notLater)
  return (start, stop)

theorem periodTo_of_lt (h : start.lt stop = true) :
    periodTo start stop notLater = .ok (start, stop) := by
  simp [periodTo, Instant.le, h, Outcome.ensure]

theorem periodTo_of_not_lt (h : start.lt stop = false) :
    periodTo start stop notLater = Outcome.fail (.invalidSpec "not_after" notLater) := by
  simp [periodTo, Instant.le, h, Outcome.ensure]
  rfl

theorem settles_periodTo (hstop : stop.representable = true) :
    SettlesPeriod start stop outOfRange notLater (periodTo start stop notLater) := by
  cases hlt : start.lt stop with
  | true =>
    rw [periodTo_of_lt hlt]
    refine ⟨fun p => ?_, by simp [hstop], by simp [hlt]⟩
    simp [hlt, hstop, eq_comm]
  | false =>
    rw [periodTo_of_not_lt hlt]
    refine ⟨fun p => ?_, by simp [hstop], fun _ _ => rfl⟩
    simp [hlt, Outcome.fail]

theorem settles_outOfRange (hstop : stop.representable = false) :
    SettlesPeriod start stop outOfRange notLater
      (Outcome.fail (.invalidSpec "ttl" outOfRange)) := by
  refine ⟨fun p => ?_, fun _ => rfl, by simp [hstop]⟩
  simp [hstop, Outcome.fail]

/-- First and last instant of a period, with the length `fallback` where the request names none. -/
def periodOf (fallback : Nat) (outOfRange notLater : String) (now : Instant)
    (r : CertificateRequest) : BackendResult (Instant × Instant) := do
  let start := r.notBefore.getD now
  let stop ← Outcome.ofOption (.invalidSpec "ttl" outOfRange)
    (r.notAfter <|> start.laterBy? (r.ttl.getD fallback))
  periodTo start stop notLater

theorem validity_eq_periodOf (now : Instant) (r : CertificateRequest) : validity now r =
    periodOf fallbackSeconds "validity period out of range" "must be later than not_before" now r :=
  rfl

theorem X509.updateWindow_eq_periodOf (now : Instant) (r : CertificateRequest) :
    updateWindow now r = periodOf fallbackListSeconds "update window out of range"
      "next update must follow this update" now r :=
  rfl

/-- The end of the period that begins with `start`: the one that is asked for, or as many seconds
later as are asked for. -/
def CertificateRequest.endFrom (r : CertificateRequest) (start : Instant) (fallback : Nat) :
    Instant :=
  r.notAfter.getD (start.later (r.ttl.getD fallback))

theorem settles_periodOf (fallback : Nat) (outOfRange notLater : String)
    (hdates : ∀ t ∈ now :: (r.notBefore.toList ++ r.notAfter.toList), t.representable = true) :
    SettlesPeriod (r.notBefore.getD now) (r.endFrom (r.notBefore.getD now) fallback)
      outOfRange notLater (periodOf fallback outOfRange notLater now r) := by
  simp only [List.forall_mem_cons, List.forall_mem_append, Option.mem_toList] at hdates
  obtain ⟨hnow, hfirst, hlast⟩ := hdates
  have hstart : (r.notBefore.getD now).representable = true := by
    cases hstart : r.notBefore with
    | none => exact hnow
    | some t => exact hfirst t hstart
  rw [periodOf, CertificateRequest.endFrom]
  cases hstop : r.notAfter with
  | some e => exact settles_periodTo (hlast e hstop)
  | none =>
    generalize r.notBefore.getD now = start at hstart
    generalize r.ttl.getD fallback = n
    by_cases hn : n = 0
    · obtain ⟨u, hu, hlt⟩ := Instant.exists_laterBy?_zero hstart
      have hself : start.lt start = false := by simp [Instant.lt]
      rw [hn, hu]
      show SettlesPeriod start start outOfRange notLater (periodTo start u notLater)
      rw [periodTo_of_not_lt hlt, ← periodTo_of_not_lt hself]
      exact settles_periodTo hstart
    · rw [Instant.laterBy?_eq hstart hn]
      split
      · rename_i hlater
        exact settles_periodTo hlater
      · rename_i hlater
        exact settles_outOfRange (Bool.eq_false_iff.2 hlater)

end

/-- **A request gets the period it asks for, or is refused.** Its dates can be represented; the
length can be any number. The period begins with the date that is asked for, or now. It ends with the
one that is asked for, or as many seconds later as are asked for or usual: exactly so many, with the
fraction of a second kept. It is given if its end is a date and follows its start. Otherwise it is
refused as an invalid value of the request, for certificates and revocation lists alike. -/
theorem periods_settled {now : Instant} {r : CertificateRequest}
    (hdates : ∀ t ∈ now :: (r.notBefore.toList ++ r.notAfter.toList), t.representable = true) :
    let start := r.notBefore.getD now
    SettlesPeriod start (r.endFrom start fallbackSeconds) "validity period out of range"
        "must be later than not_before" (validity now r) ∧
      SettlesPeriod start (r.endFrom start X509.fallbackListSeconds) "update window out of range"
        "next update must follow this update" (X509.updateWindow now r) ∧
      ∀ (t : Instant) (n : Nat), t.IsLater n (t.later n) := by
  rw [validity_eq_periodOf, X509.updateWindow_eq_periodOf]
  exact ⟨settles_periodOf fallbackSeconds _ _ hdates,
    settles_periodOf X509.fallbackListSeconds _ _ hdates, Instant.isLater_later⟩

/-- Asks for a certificate that lasts so many seconds. -/
def CertificateRequest.lasting (n : Nat) : CertificateRequest :=
  { CertificateRequest.new .x509 with ttl := some n }

/-- A period from 1970 on can end with the last second of the calendar, but not with the next one,
and the greatest length of 64 bits is out of range. -/
theorem periods_settled_at_limits :
    let last := Instant.latestSecond.toNat
    validity (.ofSeconds 0) (.lasting last) = .ok (.ofSeconds 0, .ofSeconds last) ∧
      validity (.ofSeconds 0) (.lasting (last + 1)) =
        Outcome.fail (.invalidSpec "ttl" "validity period out of range") ∧
      X509.updateWindow (.ofSeconds 0) (.lasting (bitLimit 64 - 1)) =
        Outcome.fail (.invalidSpec "ttl" "update window out of range") := by
  intro last
  have hdates : ∀ t ∈ [Instant.ofSeconds 0], t.representable = true := by decide
  refine ⟨?_, ?_, ?_⟩
  · exact ((periods_settled (r := .lasting last) hdates).1.eq_ok_iff _).2
      ⟨by decide, by decide, by decide⟩
  · exact (periods_settled (r := .lasting (last + 1)) hdates).1.of_outOfRange (by decide)
  · exact (periods_settled (r := .lasting (bitLimit 64 - 1)) hdates).2.1.of_outOfRange (by decide)

end CertAuthority
