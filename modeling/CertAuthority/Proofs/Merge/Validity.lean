import CertAuthority.Merge
import CertAuthority.Proofs.Certificate.Drafts
import CertAuthority.Proofs.X509.Period

/-!
# How long a certificate is valid under a ceiling

A ceiling turns whatever dates and lengths a request names into one length, and the backends turn
that length into dates. So no certificate or revocation list covers a longer period.

* `Instant.IsLater` : one instant is some seconds after another, as artifacts count seconds;
* `Instant.isLater_of_laterBy?` : so is the instant that a period ends with;
* `SigningPolicy.ttlFor_of_ceiling` : the length under a ceiling;
* `CertificateKind.lastsFor_of_buildDraft` : a draft covers the length of its request;
* `SigningPolicy.ceiling_kept` : the two together.
-/

namespace CertAuthority

/-! ## Later instants -/

/-- A length that is cut to what fits is still longer than any span. -/
theorem Span.ofSeconds?_min (n : Nat) : ofSeconds? (min n (bitLimit 63 - 1)) =
    if n ≤ (bitLimit 63 - 1) / 1000 then some ⟨n * nanosPerSecond⟩ else none := by
  have hlimit : 1 < bitLimit 63 := by decide
  rw [ofSeconds?]
  by_cases hn : (n : Int) ≤ bitLimit 63 - 1
  · rw [Int.min_eq_left hn, Int.natAbs_natCast]
  · rw [Int.min_eq_right (by omega), if_neg (by omega), if_neg (by omega)]

namespace Instant

/-- `u` is `n` seconds after `t` by the count of seconds, which is what artifacts hold. By the clock
it is never more, and exactly as much unless `t` falls in a leap second, which may go uncounted. -/
structure IsLater (t : Instant) (n : Nat) (u : Instant) : Prop where
  seconds : u.seconds = t.seconds + n
  clock_le : (u.since t).nanos ≤ n * Span.nanosPerSecond
  clock_eq : t.isLeap = false → u.since t = ⟨n * Span.nanosPerSecond⟩

theorem isLeap_eq_true_iff (t : Instant) : t.isLeap = true ↔ 1000000000 ≤ t.nanos := by
  rw [isLeap, decide_eq_true_iff, Span.nanosPerSecond]
  omega

theorem fromSecond_eq (s nanos : Int) :
    fromSecond s nanos = ⟨s + nanos / 1000000000, (nanos % 1000000000).toNat⟩ := by
  have hpos : (0 : Int) ≤ 1000000000 := by decide
  rw [fromSecond, Span.nanosPerSecond, Int.fdiv_eq_ediv_of_nonneg nanos hpos,
    Int.fmod_eq_emod_of_nonneg nanos hpos]

/-- Some whole seconds later, the fraction of a leap second is that of the next second. -/
theorem moved_seconds (t : Instant) (n : Nat) :
    t.moved ⟨n * Span.nanosPerSecond⟩ =
      if n = 0 ∧ t.nanos < 2000000000 then t
      else ⟨t.seconds + n, t.nanos % 1000000000⟩ := by
  obtain ⟨s, f⟩ := t
  simp only [moved, isLeap_eq_true_iff, fromSecond_eq, Span.nanosPerSecond]
  split
  · split <;> split <;> simp only [Instant.mk.injEq, true_and] <;> omega
  · split <;> simp only [Instant.mk.injEq] <;> omega

theorem isLater_moved (t : Instant) (n : Nat) :
    t.IsLater n (t.moved ⟨n * Span.nanosPerSecond⟩) := by
  rw [moved_seconds]
  split
  · rename_i hzero
    obtain ⟨rfl, -⟩ := hzero
    constructor <;> simp [since]
  · refine ⟨rfl, ?_, fun hl => ?_⟩
    · simp only [since, isLeap_eq_true_iff, Span.nanosPerSecond]
      split
      · omega
      · split <;> omega
    · rw [← Bool.not_eq_true, isLeap_eq_true_iff] at hl
      simp only [since, isLeap_eq_true_iff, Span.nanosPerSecond, Span.mk.injEq]
      split
      · omega
      · split <;> omega

theorem eq_moved_of_laterBy? {t u : Instant} {n : Nat} (h : t.laterBy? n = some u) :
    u = t.moved ⟨n * Span.nanosPerSecond⟩ := by
  simp only [laterBy?, Option.bind_eq_bind, Option.bind_eq_some_iff, Span.ofSeconds?_min,
    Option.ite_none_right_eq_some, plus?, Option.some.injEq] at h
  obtain ⟨_, ⟨-, rfl⟩, -, rfl⟩ := h
  rfl

theorem isLater_of_laterBy? {t u : Instant} {n : Nat} (h : t.laterBy? n = some u) :
    t.IsLater n u := by
  rw [eq_moved_of_laterBy? h]
  exact isLater_moved t n

theorem IsLater.wholeSecond {t u : Instant} {n : Nat} (h : t.IsLater n u) :
    t.wholeSecond.IsLater n u.wholeSecond := by
  have hsince : u.wholeSecond.since t.wholeSecond = ⟨n * Span.nanosPerSecond⟩ := by
    have hs := h.seconds
    simp only [since, Instant.wholeSecond, isLeap, Span.nanosPerSecond, Span.mk.injEq]
    simp
    omega
  exact ⟨h.seconds, hsince ▸ Int.le_refl _, fun _ => hsince⟩

end Instant

/-! ## Periods of drafts -/

/-- The view covers a period of `n` seconds. -/
def CertificateInfo.LastsFor (i : CertificateInfo) (n : Nat) : Prop :=
  ∃ start stop, i.notBefore = some start ∧ i.notAfter = some stop ∧ start.IsLater n stop

section

variable {now start stop : Instant} {r : CertificateRequest} {n : Nat}

/-- The end that both kinds of period have, for whichever length counts where none is named. -/
theorem isLater_of_end {e : BackendError} {fallback : Nat}
    (h : Outcome.ofOption e (r.notAfter <|> start.laterBy? (r.ttl.getD fallback)) = .ok stop)
    (hend : r.notAfter = none) (hn : r.ttl = some n) : start.IsLater n stop := by
  rw [Outcome.ofOption_eq_ok_iff, hend, hn, Option.getD_some] at h
  exact Instant.isLater_of_laterBy? h

theorem isLater_of_validity (h : validity now r = .ok (start, stop)) (hend : r.notAfter = none)
    (hn : r.ttl = some n) : start.IsLater n stop := by
  simp only [validity, Outcome.bind_eq_ok_iff] at h
  obtain ⟨_, hlater, _, -, h⟩ := h
  obtain ⟨rfl, rfl⟩ := Prod.mk.inj (Except.ok.inj h)
  exact isLater_of_end hlater hend hn

theorem X509.isLater_of_updateWindow (h : updateWindow now r = .ok (start, stop))
    (hend : r.notAfter = none) (hn : r.ttl = some n) : start.IsLater n stop := by
  simp only [updateWindow, Outcome.bind_eq_ok_iff] at h
  obtain ⟨_, hlater, _, -, h⟩ := h
  obtain ⟨rfl, rfl⟩ := Prod.mk.inj (Except.ok.inj h)
  exact isLater_of_end hlater hend hn

end

section

variable {m : Moment} {artifact : ArtifactKind} {r : CertificateRequest} {subject : PublicKey}
  {signer : SignerIdentity} {d : Draft} {n : Nat}

theorem X509.lastsFor_of_buildDraft (h : X509.buildDraft m artifact r subject signer = .ok d)
    (hend : r.notAfter = none) (hn : r.ttl = some n) (hcsr : artifact ≠ .csr) :
    d.info.LastsFor n := by
  obtain ⟨window, hwindow, hstart, hstop⟩ := X509.period_of_buildDraft h
  cases artifact with
  | csr => exact absurd rfl hcsr
  | certificate =>
    obtain ⟨_, hperiod, rfl⟩ := Outcome.map_eq_ok_iff.1 hwindow
    exact ⟨_, _, hstart, hstop, (isLater_of_validity hperiod hend hn).wholeSecond⟩
  | crl =>
    obtain ⟨_, hperiod, rfl⟩ := Outcome.map_eq_ok_iff.1 hwindow
    exact ⟨_, _, hstart, hstop, (X509.isLater_of_updateWindow hperiod hend hn).wholeSecond⟩

theorem X509.undated_of_buildDraft (h : X509.buildDraft m .csr r subject signer = .ok d) :
    d.info.notBefore = none ∧ d.info.notAfter = none := by
  obtain ⟨window, hwindow, hstart, hstop⟩ := X509.period_of_buildDraft h
  obtain rfl := Except.ok.inj hwindow
  exact ⟨hstart, hstop⟩

theorem OpenSsh.lastsFor_of_buildDraft (h : OpenSsh.buildDraft m artifact r subject signer = .ok d)
    (hend : r.notAfter = none) (hn : r.ttl = some n) : d.info.LastsFor n := by
  obtain ⟨-, -, -, start, stop, hperiod, hstart, hstop⟩ := OpenSsh.of_buildDraft h
  exact ⟨start, stop, hstart, hstop, isLater_of_validity hperiod hend hn⟩

/-- Where a request has a length and no end, a draft for it covers that length. A signing request
has no dates at all. -/
theorem CertificateKind.lastsFor_of_buildDraft {k : CertificateKind}
    (h : k.backend.buildDraft m artifact r subject signer = .ok d)
    (hend : r.notAfter = none) (hn : r.ttl = some n) :
    if artifact = .csr then d.info.notBefore = none ∧ d.info.notAfter = none
    else d.info.LastsFor n := by
  cases k with
  | x509 =>
    split
    · rename_i hcsr
      subst hcsr
      exact X509.undated_of_buildDraft h
    · rename_i hcsr
      exact X509.lastsFor_of_buildDraft h hend hn hcsr
  | ssh =>
    obtain ⟨-, rfl, -⟩ := OpenSsh.of_buildDraft h
    exact OpenSsh.lastsFor_of_buildDraft h hend hn

end

/-! ## Lengths under a ceiling -/

namespace SigningPolicy

variable {p : SigningPolicy} {limit : Nat}

/-- A length that is asked for, in seconds or by both dates, is cut at the ceiling. Where none is
asked for, the policy's own counts. -/
theorem ttlFor_of_ceiling (hlimit : p.ceiling? = some limit) (r : CertificateRequest) :
    ∃ t, p.ttlFor r = some t ∧ t ≤ max limit (p.ttl.getD 0) ∧
      (r.ttl.isSome ∨ r.notBefore.isSome ∧ r.notAfter.isSome → t ≤ limit) := by
  unfold ttlFor
  cases hasked : p.requestedTtl? r with
  | some asked =>
    have hle : min asked limit ≤ limit := Nat.min_le_right asked limit
    exact ⟨min asked limit, by simp [hlimit], Nat.le_trans hle (Nat.le_max_left _ _),
      fun _ => hle⟩
  | none =>
    have hnone : ¬ (r.ttl.isSome ∨ r.notBefore.isSome ∧ r.notAfter.isSome) := by
      rw [requestedTtl?, hlimit] at hasked
      cases hend : r.notAfter <;> cases hstart : r.notBefore <;> cases hn : r.ttl <;>
        simp_all [requestedSpan?]
    cases ht : p.ttl with
    | none => exact ⟨limit, by simp [hlimit], Nat.le_max_left _ _, fun h => absurd h hnone⟩
    | some t => exact ⟨t, by simp, Nat.le_max_right _ _, fun h => absurd h hnone⟩

/-- **No request obtains a longer period than its policy grants.** Under a ceiling, and unless the
policy sets an end of its own, every request resolves to a length `t` in place of an end. `t` is at
most the ceiling, unless the request asks for no length and the policy's own is longer. Whatever
either backend drafts for the resolved request covers exactly `t` seconds, if it has dates. -/
theorem ceiling_kept (p : SigningPolicy) {limit : Nat} (hlimit : p.ceiling? = some limit)
    (hend : p.overrides.notAfter = none) (r : CertificateRequest) :
    ∃ t, (r.under p).ttl = some t ∧ (r.under p).notAfter = none ∧
      t ≤ max limit (p.ttl.getD 0) ∧
      (r.ttl.isSome ∨ r.notBefore.isSome ∧ r.notAfter.isSome → t ≤ limit) ∧
      ∀ (k : CertificateKind) (m : Moment) (artifact : ArtifactKind) (subject : PublicKey)
        (signer : SignerIdentity) (d : Draft),
        k.backend.buildDraft m artifact (r.under p) subject signer = .ok d →
          if artifact = .csr then d.info.notBefore = none ∧ d.info.notAfter = none
          else d.info.LastsFor t := by
  obtain ⟨t, ht, hmax, hle⟩ := ttlFor_of_ceiling hlimit r
  have httl : (r.under p).ttl = some t := ht
  have hnone : (r.under p).notAfter = none := by
    rw [CertificateRequest.under, notAfter_resolve, hend, notAfterFor, hlimit]
    rfl
  exact ⟨t, httl, hnone, hmax, hle, fun k m artifact subject signer d h =>
    CertificateKind.lastsFor_of_buildDraft h hnone httl⟩

/-- An hour at most, and two hours for who asks for nothing. -/
def hourPolicy : SigningPolicy := { kind := .ssh, ttl := some 7200, maxTtl := some 3600 }

/-- Asks for a day, by its dates, and for a week. -/
def dayRequest : CertificateRequest :=
  { CertificateRequest.new .ssh with
    notBefore := some (.ofSeconds 86400)
    notAfter := some (.ofSeconds 172800)
    ttl := some 604800
    serialNumber := some ⟨7⟩ }

/-- The request for a day gets a certificate for an hour. -/
theorem ceiling_kept_hour :
    hourPolicy.ceiling? = some 3600 ∧ hourPolicy.overrides.notAfter = none ∧
      ∃ d, Backend.ssh.buildDraft ⟨.ofSeconds 0, []⟩ .certificate (dayRequest.under hourPolicy)
          OpenSsh.hostKey ⟨OpenSsh.hostKey, none⟩ = .ok d ∧ d.info.LastsFor 3600 := by
  obtain ⟨t, ht, -, -, -, hlasts⟩ := ceiling_kept hourPolicy rfl rfl dayRequest
  obtain rfl : 3600 = t := Option.some.inj ht
  obtain ⟨d, hd⟩ : ∃ d, Backend.ssh.buildDraft ⟨.ofSeconds 0, []⟩ .certificate
      (dayRequest.under hourPolicy) OpenSsh.hostKey ⟨OpenSsh.hostKey, none⟩ = .ok d :=
    Outcome.exists_eq_ok_of_isOk (by decide +kernel)
  exact ⟨rfl, rfl, d, hd, hlasts .ssh _ _ _ _ d hd⟩

end SigningPolicy
end CertAuthority
