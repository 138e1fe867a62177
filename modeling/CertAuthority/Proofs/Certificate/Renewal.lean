import CertAuthority.Managed.Target
import CertAuthority.Proofs.Certificate.Changes
import CertAuthority.Proofs.Certificate.Periods

/-!
# When an artifact is due for renewal

An artifact is due if it ends before the renewal limit, the instant that is as far ahead of the
current one as the threshold says. A threshold that the configuration names may be any number of
seconds below `2 ^ 64`, and the limit has to be a date.

* `Duration.isSome_plus?_iff` : the limit of a configured threshold is a date if the seconds up to
  it are; a threshold that is cut to the longest span is beyond every date all the same;
* `Instant.lt_moved_iff` : what has ended by now ends before the limit, unless the limit is now and
  it ends now;
* `detection_answers_iff` : configured thresholds for which detection has an answer;
* `expired_due_iff` : expired artifacts, and what is decided about them.
-/

namespace CertAuthority

/-! ## The renewal limit -/

namespace Instant

variable {t u : Instant} {d : Span}

theorem lt_iff (t u : Instant) :
    t.lt u = true ↔ t.seconds < u.seconds ∨ t.seconds = u.seconds ∧ t.nanos < u.nanos := by
  simp [lt]

/-- All whole seconds of a span are counted, in a leap second too. -/
theorem add_le_seconds_moved (t : Instant) (d : Span) :
    t.seconds + d.nanos / Span.nanosPerSecond ≤ (t.moved d).seconds := by
  simp only [moved, isLeap_eq_true_iff, fromSecond_eq, Span.nanosPerSecond]
  split
  · split <;> dsimp only <;> omega
  · dsimp only
    omega

/-- A fraction of less than two seconds stays where no time goes by. -/
theorem moved_zero (ht : t.nanos < 2000000000) : t.moved .zero = t := by
  have h := moved_seconds t 0
  rw [if_pos ⟨rfl, ht⟩] at h
  exact h

/-- Any other span leads to a later instant. -/
theorem lt_moved (ht : t.nanos < 2000000000) (hd : 0 < d.nanos) : t.lt (t.moved d) = true := by
  rw [lt_iff]
  simp only [moved, isLeap_eq_true_iff, fromSecond_eq, Span.nanosPerSecond]
  split
  · split <;> dsimp only <;> omega
  · dsimp only
    omega

/-- What is no later than an instant is before all later ones. -/
theorem lt_moved_iff (ht : t.nanos < 2000000000) (hd : 0 ≤ d.nanos) (hu : u.le t = true) :
    u.lt (t.moved d) = true ↔ ¬(d = .zero ∧ u = t) := by
  rw [le_iff] at hu
  obtain hd | hd := Int.lt_or_eq_of_le hd
  · have hlater := lt_moved ht hd
    rw [lt_iff] at hlater ⊢
    have hne : d ≠ .zero := by
      rintro rfl
      exact Int.lt_irrefl 0 hd
    simp only [hne, false_and, not_false_eq_true, iff_true]
    omega
  · obtain rfl : d = .zero := by
      cases d
      rw [Span.zero, hd]
    rw [moved_zero ht, lt_iff]
    obtain ⟨s, f⟩ := t
    obtain ⟨s', f'⟩ := u
    simp only [Instant.mk.injEq, true_and]
    dsimp only at hu
    omega

end Instant

/-- A number of seconds leads to a date or not, whether or not it is cut to the longest span. -/
theorem Duration.isSome_plus?_iff {t : Instant} (h : t.representable = true) (d : Duration) :
    (t.plus? d.toSpan).isSome = true ↔ t.seconds + d.seconds ≤ Instant.latestSecond := by
  have hdates : Instant.latestSecond - Instant.earliest.seconds <
      Span.longest.nanos / Span.nanosPerSecond := by decide
  have hspans : Span.longest.nanos / Span.nanosPerSecond = (bitLimit 63 - 1) / 1000 := by decide
  have hsome : (t.plus? d.toSpan).isSome = (t.moved d.toSpan).representable := by
    rw [Instant.plus?]
    cases (t.moved d.toSpan).representable <;> rfl
  rw [Instant.representable_iff] at h
  rw [hsome, Instant.representable_iff, toSpan, Span.ofSeconds?, Int.natAbs_natCast]
  by_cases hspan : (d.seconds : Int) ≤ (bitLimit 63 - 1) / 1000
  · rw [if_pos (by omega), Option.getD_some, (Instant.isLater_moved t d.seconds).seconds]
    omega
  · have hlongest := Instant.add_le_seconds_moved t .longest
    rw [if_neg (by omega), Option.getD_none]
    omega

/-! ## Configured thresholds -/

/-- The remaining validity at which a configuration has an artifact renewed. -/
def RenewalConfig.remaining (r : RenewalConfig) : ArtifactKind → CertificateKind → CertType → Duration
  | .crl, _, _ => r.crl
  | _, .x509, _ => r.x509
  | _, .ssh, .user => r.sshUser
  | _, .ssh, .host => r.sshHost

/-- The threshold that detection is given for it. -/
def Config.thresholdFor (c : Config) (artifact : ArtifactKind) (kind : CertificateKind)
    (certType : Option CertType) : Span :=
  if artifact = .crl then c.crlThreshold else c.renewalThreshold kind certType

theorem Config.thresholdFor_eq (c : Config) (artifact : ArtifactKind) (kind : CertificateKind)
    (certType : Option CertType) : c.thresholdFor artifact kind certType =
      (c.renewal.remaining artifact kind (certType.getD .user)).toSpan := by
  rw [thresholdFor, renewalThreshold.eq_def]
  cases artifact <;> cases kind <;> cases certType.getD .user <;> rfl

section

variable {b : Backend} {existing : LoadedArtifact} {d : Desired} {now : Instant} {threshold : Span}

theorem Desired.changesFrom_eq_abandon_iff :
    d.changesFrom b existing now threshold = Outcome.abandon ↔
      d.draft.info.artifact ≠ .csr ∧ existing.certificate.info.notAfter ≠ none ∧
        (now.plus? threshold).isSome = false := by
  rw [changesFrom]
  by_cases hcsr : d.draft.info.artifact = .csr
  · simp [hcsr, Outcome.abandon]
  · rw [if_neg hcsr, CertificateInfo.expiresWithin]
    cases existing.certificate.info.notAfter with
    | none => simp [Outcome.abandon, Except.map]
    | some t => cases now.plus? threshold <;> simp [hcsr, Outcome.abandon, Except.map]

/-- There is no other failure. -/
theorem Desired.exists_changesFrom_eq_ok_iff :
    (∃ changes, d.changesFrom b existing now threshold = .ok changes) ↔
      d.changesFrom b existing now threshold ≠ Outcome.abandon := by
  rw [changesFrom, CertificateInfo.expiresWithin]
  split
  · simp [Outcome.abandon]
  · split
    · simp [Outcome.abandon, Except.map]
    · split <;> simp [Outcome.abandon, Except.map]

/-- **When detection with a configured threshold has an answer.** It has one for signing requests, for
artifacts without an end, and otherwise if the current time and the configured seconds come to no
more than the last date of the calendar. In all other cases it abandons, so that the run ends with
neither a change set nor an error. This is so whatever the configuration says. -/
theorem detection_answers_iff (hnow : now.representable = true) (c : Config)
    (kind : CertificateKind) (certType : Option CertType) :
    let artifact := d.draft.info.artifact
    let threshold := c.thresholdFor artifact kind certType
    let remaining := c.renewal.remaining artifact kind (certType.getD .user)
    let answers := artifact = .csr ∨ existing.certificate.info.notAfter = none ∨
      now.seconds + remaining.seconds ≤ Instant.latestSecond
    ((∃ changes, d.changesFrom b existing now threshold = .ok changes) ↔ answers) ∧
      (d.changesFrom b existing now threshold = Outcome.abandon ↔ ¬answers) := by
  intro artifact threshold remaining answers
  have hlimit : (now.plus? threshold).isSome = true ↔
      now.seconds + remaining.seconds ≤ Instant.latestSecond := by
    rw [← Duration.isSome_plus?_iff hnow, ← c.thresholdFor_eq]
  have habandon : d.changesFrom b existing now threshold = Outcome.abandon ↔ ¬answers := by
    rw [Desired.changesFrom_eq_abandon_iff, ← Bool.not_eq_true, hlimit, not_or, not_or]
  refine ⟨?_, habandon⟩
  rw [Desired.exists_changesFrom_eq_ok_iff, Ne, habandon, not_not]

end

/-- A certificate that is valid until the given time. -/
def LoadedArtifact.lasting (stop : Instant) : LoadedArtifact :=
  { certificate := ⟨[], { publicKey := default, notAfter := some stop }⟩, encoding := .pem }

/-- The draft of another one like it. -/
def Desired.sameAgain : Desired :=
  { draft :=
      { request := .new .x509, signer := ⟨default, none⟩, info := { publicKey := default } }
    encoding := .pem }

/-- The last threshold with an answer in 1970 ends with the calendar. -/
theorem detection_answers_iff_last :
    let c : Config := { renewal := { x509 := ⟨Instant.latestSecond.toNat⟩ } }
    (Instant.ofSeconds 0).representable = true ∧
      ∃ changes, Desired.sameAgain.changesFrom default (.lasting (.ofSeconds 0)) (.ofSeconds 0)
        (c.thresholdFor .certificate .x509 none) = .ok changes := by
  intro c
  have hnow : (Instant.ofSeconds 0).representable = true := by decide
  refine ⟨hnow, ?_⟩
  obtain ⟨hanswers, -⟩ := @detection_answers_iff default (.lasting (.ofSeconds 0)) .sameAgain
    (.ofSeconds 0) hnow c .x509 none
  exact hanswers.2 (.inr (.inr (by decide)))

/-- A configuration of one setting, a threshold of some `2 ^ 64` seconds. -/
def endlessConfig : String := "[renewal]\nx509_remaining = \"30500568904943w\""

/-- It is accepted, and no certificate with an end can be compared under it at any time. -/
theorem endless_threshold_abandons :
    ∃ c, Config.parse endlessConfig = .ok c ∧
      ∀ (b : Backend) (now stop : Instant), now.representable = true →
        Desired.sameAgain.changesFrom b (.lasting stop) now (c.renewalThreshold .x509 none) =
          Outcome.abandon := by
  have hparse : (Config.parse endlessConfig).toOption.map (·.renewal.x509.seconds) =
      some 18446744073709526400 := by
    decide +kernel
  obtain ⟨c, hc, hseconds⟩ := Option.map_eq_some_iff.1 hparse
  refine ⟨c, Outcome.toOption_eq_some_iff.1 hc, fun b now stop hnow => ?_⟩
  have hdates : Instant.latestSecond - Instant.earliest.seconds < 18446744073709526400 := by decide
  have hlimit := Duration.isSome_plus?_iff hnow c.renewal.x509
  rw [Instant.representable_iff] at hnow
  rw [Desired.changesFrom_eq_abandon_iff]
  refine ⟨nofun, nofun, ?_⟩
  rw [← Bool.not_eq_true]
  refine fun h => absurd (hlimit.1 h) ?_
  omega

/-! ## Expired artifacts -/

section

variable {b : Backend} {existing : LoadedArtifact} {d : Desired} {now : Instant} {threshold : Span}

theorem Desired.requiresReissue_of_expiration :
    (differences b existing d true).requiresReissue = true := by
  simp [ChangeSet.requiresReissue, ChangeSet.signedAspects, differences]

/-- A difference that a new signature is needed for leads to a new artifact. -/
theorem Existing.decide_of_requiresReissue {changes : ChangeSet}
    (h : d.changesFrom b existing now threshold = .ok changes)
    (hreissue : changes.requiresReissue = true) :
    Existing.decide b d now threshold (.loaded existing) = .ok (.issue .changed changes) := by
  simp only [Existing.decide, h]
  simp [ChangeSet.isEmpty, ChangeSet.isMetadataOnly, hreissue, bind, Except.bind, pure, Except.pure]

/-- **What has expired is issued anew.** Detection reports the expiration of every artifact whose end
is not after the current time, for every threshold that is not negative, and the decision is then to
issue a new one. The one exception is an artifact that ends at this very instant under a threshold of
zero, as nothing is left of its validity, which is not less than the threshold. The fraction of a
second that a clock shows is less than two seconds, in a leap second. -/
theorem expired_due_iff (hsigned : d.draft.info.artifact ≠ .csr)
    (hexpired : existing.certificate.info.isExpired now = true)
    (hnow : now.nanos < 2000000000) (hthreshold : 0 ≤ threshold.nanos)
    (hlimit : (now.plus? threshold).isSome = true) :
    ∃ changes, d.changesFrom b existing now threshold = .ok changes ∧
      (changes.expiration = true ↔
        ¬(threshold = .zero ∧ existing.certificate.info.notAfter = some now)) ∧
      (changes.expiration = true →
        Existing.decide b d now threshold (.loaded existing) = .ok (.issue .changed changes)) := by
  obtain ⟨stop, hstop, hle⟩ : ∃ stop, existing.certificate.info.notAfter = some stop ∧
      stop.le now = true := by
    simpa [CertificateInfo.isExpired, Option.any_eq_true] using hexpired
  obtain ⟨limit, hlimit⟩ := Option.isSome_iff_exists.1 hlimit
  obtain rfl : now.moved threshold = limit := by
    rw [Instant.plus?, Option.ite_none_right_eq_some] at hlimit
    exact Option.some.inj hlimit.2
  have hchanges := @Desired.changesFrom_eq_ok b existing d now _ threshold hsigned hlimit
  have hdue : (existing.certificate.info.notAfter.any (·.lt (now.moved threshold))) = true ↔
      ¬(threshold = .zero ∧ existing.certificate.info.notAfter = some now) := by
    rw [hstop]
    simpa using Instant.lt_moved_iff hnow hthreshold hle
  refine ⟨_, hchanges, hdue, fun h => ?_⟩
  rw [show existing.certificate.info.notAfter.any (·.lt (now.moved threshold)) = true from h]
    at hchanges ⊢
  exact Existing.decide_of_requiresReissue hchanges Desired.requiresReissue_of_expiration

end

/-- A certificate that ends now is due under a threshold of an hour. -/
theorem expired_due_iff_hour :
    ∃ changes, Existing.decide default .sameAgain (.ofSeconds 0) ⟨3600 * Span.nanosPerSecond⟩
      (.loaded (.lasting (.ofSeconds 0))) = .ok (.issue .changed changes) := by
  obtain ⟨changes, -, hdue, hissue⟩ := @expired_due_iff default (.lasting (.ofSeconds 0))
    .sameAgain (.ofSeconds 0) ⟨3600 * Span.nanosPerSecond⟩ (by decide) (by decide) (by decide)
    (by decide) (by decide)
  exact ⟨changes, hissue (hdue.2 (by decide))⟩

/-- Under a threshold of zero it is kept, though it has expired. -/
theorem expired_kept :
    let b : Backend := { (default : Backend) with verifies := fun _ _ => true }
    let existing := LoadedArtifact.lasting (.ofSeconds 0)
    let now := Instant.ofSeconds 0
    existing.certificate.info.isExpired now = true ∧ (now.plus? .zero).isSome = true ∧
      Desired.sameAgain.changesFrom b existing now .zero = .ok {} ∧
      Existing.decide b .sameAgain now .zero (.loaded existing) = .ok (.keep existing.certificate) := by
  intro b existing now
  have hlimit : now.plus? .zero = some now := by decide
  have hsame : Desired.sameAgain.changesFrom b existing now .zero = .ok {} := by
    rw [Desired.changesFrom_eq_ok (by decide) hlimit]
    decide
  refine ⟨by decide, by decide, hsame, ?_⟩
  simp only [Existing.decide, hsame]
  rfl

end CertAuthority
