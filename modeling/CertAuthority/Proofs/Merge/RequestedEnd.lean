import CertAuthority.Proofs.Merge.Validity

/-!
# The end of validity a request names

Without a ceiling the end a request names is the end of its period. A ceiling turns it into a
length, and only where the request names its start, too: the end then comes no later than asked for,
except that a leap second the requested end lies in may go by uncounted. A request that names its
end and leaves the start to the clock gets the length it would get without that end.

* `Instant.moved_le_iff` : whole seconds within the span to an instant end by that instant, unless
  it lies in a leap second and they go on past it;
* `of_validity` : what a period consists of;
* `SigningPolicy.resolve_withEnd` : under a ceiling an end without a start says nothing;
* `SigningPolicy.KeepsEnd` : the requests whose period ends when they ask for, or earlier;
* `SigningPolicy.requested_end_kept_iff` : these are exactly those;
* `SigningPolicy.requested_end_exceeded` : the other ones exist, for both reasons.
-/

namespace CertAuthority

/-! ## Seconds from one instant towards another -/

namespace Instant

variable {s e : Instant} {n : Nat}

theorem le_iff (a b : Instant) :
    a.le b = true ↔ a.seconds < b.seconds ∨ a.seconds = b.seconds ∧ a.nanos ≤ b.nanos := by
  simp only [le, lt, Bool.not_eq_true', Bool.or_eq_false_iff, Bool.and_eq_false_iff,
    decide_eq_false_iff_not, beq_eq_false_iff_ne]
  omega

theorem pos_of_moved (h : (s.moved ⟨n * Span.nanosPerSecond⟩).le s = false) : 0 < n := by
  refine Nat.pos_of_ne_zero fun hn => ?_
  subst hn
  rw [← Bool.not_eq_true, le_iff, moved_seconds] at h
  split at h <;> simp at h
  omega

/-- A fraction of a second is dropped, so this many whole ones fit into the span. -/
theorem mul_le_of_le_seconds {d : Span} (hn : 0 < n) (h : (n : Int) ≤ d.seconds) :
    (n : Int) * 1000000000 ≤ d.nanos := by
  have hdrop := Int.tdiv_mul_le d.nanos (b := 1000000000) (by decide)
  simp only [Span.seconds, Span.nanosPerSecond] at h
  split at hdrop <;> omega

/-- The fraction of the later instant is no greater than that of `e` in the same second, and a later
second is reached only where `e` lies in a leap second. -/
theorem moved_le_iff (hn : 0 < n) (h : (n : Int) ≤ (e.since s).seconds) :
    (s.moved ⟨n * Span.nanosPerSecond⟩).le e = true ↔
      (e.isLeap = true → s.seconds + n ≤ e.seconds) := by
  have hfits := mul_le_of_le_seconds hn h
  have hzero : ¬ (n = 0 ∧ s.nanos < 2000000000) := by omega
  rw [le_iff, moved_seconds, if_neg hzero]
  simp only [since, isLeap_eq_true_iff, Span.nanosPerSecond] at hfits ⊢
  split at hfits
  · omega
  · split at hfits <;> omega

end Instant

/-! ## Ends of periods -/

variable {p : SigningPolicy} {r : CertificateRequest} {now start stop e : Instant} {limit : Nat}

theorem of_validity (h : validity now r = .ok (start, stop)) :
    start = r.notBefore.getD now ∧
      (r.notAfter <|> start.laterBy? (r.ttl.getD fallbackSeconds)) = some stop ∧
      stop.le start = false := by
  simp only [validity, Outcome.bind_eq_ok_iff, Outcome.ofOption_eq_ok_iff,
    Outcome.ensure_eq_ok_iff] at h
  obtain ⟨_, hend, _, hlater, h⟩ := h
  obtain ⟨rfl, rfl⟩ := Prod.mk.inj (Except.ok.inj h)
  exact ⟨rfl, hend, by simpa using hlater⟩

namespace SigningPolicy

/-- Seconds that a request without a start gets under a ceiling. -/
def openLength (p : SigningPolicy) (limit : Nat) (r : CertificateRequest) : Nat :=
  (r.ttl.map (min · limit)).getD (p.ttl.getD limit)

/-- Under a ceiling the policy makes the same of every end, if the request names no start. -/
theorem resolve_withEnd (hlimit : p.ceiling? = some limit) (hs : r.notBefore = none)
    (e : Option Instant) : p.resolve { r with notAfter := e } = p.resolve r := by
  have hspan : requestedSpan? { r with notAfter := e } = requestedSpan? r := by
    cases e <;> cases he : r.notAfter <;> simp [requestedSpan?, hs, he]
  have httl : p.ttlFor { r with notAfter := e } = p.ttlFor r := by
    simp only [ttlFor, requestedTtl?, hspan]
  have hend : p.notAfterFor { r with notAfter := e } = p.notAfterFor r := by
    simp only [notAfterFor, hlimit, Option.isSome_some, if_true]
  unfold resolve applyIdentity
  rw [httl, hend]
  cases p.kind <;> rfl

theorem ttlFor_of_open (hlimit : p.ceiling? = some limit) (hs : r.notBefore = none) :
    p.ttlFor r = some (p.openLength limit r) := by
  have hspan : requestedSpan? r = none := by
    cases he : r.notAfter <;> simp [requestedSpan?, hs, he]
  simp only [ttlFor, requestedTtl?, hlimit, hspan, openLength]
  cases r.ttl <;> cases p.ttl <;> rfl

theorem ttlFor_of_dates {s : Instant} (hlimit : p.ceiling? = some limit)
    (hs : r.notBefore = some s) (he : r.notAfter = some e) :
    p.ttlFor r = some (min (e.since s).seconds.toNat limit) := by
  simp only [ttlFor, requestedTtl?, hlimit, requestedSpan?, hs, he]
  rfl

/-- The period of a request ends no later than it asks for: there is no ceiling; or it also names
its start, and the span from there does not count a leap second at its end; or the clock and the
lengths that count without any end happen to give an earlier one. -/
def KeepsEnd (p : SigningPolicy) (r : CertificateRequest) (now e : Instant) : Prop :=
  match p.ceiling?, r.notBefore with
  | none, _ => True
  | some limit, some s =>
    e.isLeap = true → s.seconds + min (e.since s).seconds.toNat limit ≤ e.seconds
  | some limit, none => ∃ u, now.laterBy? (p.openLength limit r) = some u ∧ u.le e = true

/-- Without dates of the policy's own, the start is the requested one and the end what is left of the
requested end. -/
theorem of_validity_under (hstart : p.overrides.notBefore = none)
    (hend : p.overrides.notAfter = none) (h : validity now (r.under (some p)) = .ok (start, stop)) :
    start = r.notBefore.getD now ∧
      (p.notAfterFor r <|> start.laterBy? ((p.ttlFor r).getD fallbackSeconds)) = some stop ∧
      stop.le start = false := by
  have hs : (r.under (some p)).notBefore = r.notBefore := by
    simp only [CertificateRequest.under, resolve, applyOverrides, applyIdentity, hstart]
    cases p.kind <;> rfl
  have hn : (r.under (some p)).notAfter = p.notAfterFor r := by
    rw [CertificateRequest.under, notAfter_resolve, hend]
    rfl
  obtain ⟨hfirst, hlast, hlater⟩ := of_validity h
  rw [hs] at hfirst
  rw [hn] at hlast
  exact ⟨hfirst, hlast, hlater⟩

/-- **When the period of a request ends no later than it asks for.** The policy sets no dates of its
own, and the request names its end. Under a ceiling that end alone makes no difference: the policy
makes the same of every other one. -/
theorem requested_end_kept_iff (hstart : p.overrides.notBefore = none)
    (hend : p.overrides.notAfter = none) (he : r.notAfter = some e)
    (h : validity now (r.under (some p)) = .ok (start, stop)) :
    (stop.le e = true ↔ p.KeepsEnd r now e) ∧
      (p.ceiling?.isSome = true → r.notBefore = none → ∀ other : Option Instant,
        ({ r with notAfter := other } : CertificateRequest).under (some p) = r.under (some p)) := by
  obtain ⟨hfirst, hlast, hlater⟩ := of_validity_under hstart hend h
  unfold KeepsEnd
  cases hlimit : p.ceiling? with
  | none =>
    obtain rfl : e = stop := by simpa [notAfterFor, hlimit, he] using hlast
    simp [Instant.le_iff]
  | some limit =>
    refine ⟨?_, fun _ hasked other => resolve_withEnd hlimit hasked other⟩
    have hnone : p.notAfterFor r = none := by simp [notAfterFor, hlimit]
    rw [hnone] at hlast
    cases hasked : r.notBefore with
    | none =>
      obtain rfl : start = now := by simpa [hasked] using hfirst
      rw [ttlFor_of_open hlimit hasked] at hlast
      have hopen : start.laterBy? (p.openLength limit r) = some stop := hlast
      simp [hopen]
    | some s =>
      obtain rfl : start = s := by simpa [hasked] using hfirst
      rw [ttlFor_of_dates hlimit hasked he, Option.getD_some] at hlast
      obtain rfl := Instant.eq_moved_of_laterBy? hlast
      have hpos : 0 < min (e.since start).seconds.toNat limit := Instant.pos_of_moved hlater
      exact Instant.moved_le_iff hpos (by omega)

/-- The policy of a service that grants two hours at most. -/
def twoHours : SigningPolicy := { kind := .x509, maxTtl := some 7200 }

/-- Asks for a certificate from a minute past midnight until one. -/
def untilOne : CertificateRequest :=
  { CertificateRequest.new .x509 with
    notBefore := some (.ofSeconds 60), notAfter := some (.ofSeconds 3600) }

/-- It gets one for that time. -/
theorem requested_end_kept_iff_dates :
    ∃ stop, validity (.ofSeconds 0) (untilOne.under (some twoHours)) =
        .ok (.ofSeconds 60, stop) ∧ stop.le (.ofSeconds 3600) = true := by
  have h : validity (.ofSeconds 0) (untilOne.under (some twoHours)) =
      .ok (.ofSeconds 60, .ofSeconds 3600) :=
    Outcome.toOption_eq_some_iff.1 (by decide +kernel)
  obtain ⟨hkept, -⟩ := requested_end_kept_iff rfl rfl rfl h
  refine ⟨_, h, hkept.2 ?_⟩
  intro hleap
  cases hleap

/-- Without the start it gets one until two. And where the end is asked for in the leap second at the
end of a minute, the period goes on into the next minute. -/
theorem requested_end_exceeded :
    let bare : CertificateRequest := { untilOne with notBefore := none }
    let leap : CertificateRequest :=
      { untilOne with notBefore := some (.ofSeconds 0), notAfter := some ⟨59, 1500000000⟩ }
    (∃ start stop, validity (.ofSeconds 0) (bare.under (some twoHours)) = .ok (start, stop) ∧
        bare.notAfter = some (.ofSeconds 3600) ∧ stop.le (.ofSeconds 3600) = false) ∧
      (∃ start stop, validity (.ofSeconds 0) (leap.under (some twoHours)) = .ok (start, stop) ∧
        leap.notAfter = some ⟨59, 1500000000⟩ ∧ stop.le ⟨59, 1500000000⟩ = false) ∧
      twoHours.overrides.notBefore = none ∧ twoHours.overrides.notAfter = none := by
  intro bare leap
  have hbare : validity (.ofSeconds 0) (bare.under (some twoHours)) =
      .ok (.ofSeconds 0, .ofSeconds 7200) :=
    Outcome.toOption_eq_some_iff.1 (by decide +kernel)
  have hleap : validity (.ofSeconds 0) (leap.under (some twoHours)) =
      .ok (.ofSeconds 0, .ofSeconds 60) :=
    Outcome.toOption_eq_some_iff.1 (by decide +kernel)
  exact ⟨⟨_, _, hbare, rfl, rfl⟩, ⟨_, _, hleap, rfl, rfl⟩, rfl, rfl⟩

end SigningPolicy
end CertAuthority
