import CertAuthority.X509.RevocationList
import Mathlib.Data.List.Forall2

/-!
# The entries that a request asks for

One pass over the requested entries makes those of the list. At each entry it may stop since there is
no serial number, skip the entry, or stop since the number is listed already, in this order.

* `IsDropped` : an entry that is skipped, and `keptEntries` all others in the order of the request;
* `IsEntryOf` : what the list says of a requested entry, and `listedAs?` the entry that says so;
* `revocationsFrom_cons_eq_ok_iff` : one step of the pass, `revocationsFrom_eq_ok_iff` the pass from
  any point on, and `revocationsOf_eq_ok_iff` all of it;
* `revocations_follow_request` : the entries of a list are those that were asked for and are kept.
-/

namespace CertAuthority.X509

variable {r r' : CertificateRequest} {now : Instant} {e : RevokedCertificate} {o : Revocation}
  {out listed : List Revocation} {entries : List RevokedCertificate} {s : SerialNumber}

/-! ## Entries that are kept -/

/-- The certificate has expired, and the request does not ask for such entries. -/
def IsDropped (r : CertificateRequest) (now : Instant) (e : RevokedCertificate) : Prop :=
  r.includeExpired = false ∧ ∃ t, e.notAfter = some t ∧ t.le now = true

theorem isKept_eq_false_iff : isKept r now e = false ↔ IsDropped r now e := by
  cases h : e.notAfter <;> simp [isKept, IsDropped, h]

instance : Decidable (IsDropped r now e) := decidable_of_iff _ isKept_eq_false_iff

/-- The requested entries that are not dropped. -/
def keptEntries (r : CertificateRequest) (now : Instant) : List RevokedCertificate :=
  r.revoked.filter fun e => ¬IsDropped r now e

/-! ## Entries of the list -/

/-- What the list says of a requested entry: its own reason and invalidity date, and its own
revocation date or else the time of the list. -/
structure IsEntryOf (now : Instant) (e : RevokedCertificate) (o : Revocation) : Prop where
  serialNumber : e.serialNumber = some o.serialNumber
  revocationDate : o.revocationDate = e.revocationDate.getD now
  reason : o.reason = e.reason
  invalidityDate : o.invalidityDate = e.invalidityDate

/-- The entry of the list for a requested one, if that has a serial number. -/
def listedAs? (now : Instant) (e : RevokedCertificate) : Option Revocation :=
  e.serialNumber.map fun s => ⟨s, e.revocationDate.getD now, e.reason, e.invalidityDate⟩

theorem listedAs?_of_serialNumber (hs : e.serialNumber = some s) :
    listedAs? now e = some ⟨s, e.revocationDate.getD now, e.reason, e.invalidityDate⟩ := by
  rw [listedAs?, hs]
  rfl

theorem listedAs?_eq_some_iff : listedAs? now e = some o ↔ IsEntryOf now e o := by
  rw [listedAs?, Option.map_eq_some_iff]
  constructor
  · rintro ⟨s, hs, rfl⟩
    exact ⟨hs, rfl, rfl, rfl⟩
  · rintro ⟨hs, hdate, hreason, hinvalidity⟩
    exact ⟨o.serialNumber, hs, by rw [← hdate, ← hreason, ← hinvalidity]⟩

/-- Entries with serial numbers are listed one by one. -/
theorem forall₂_filterMap_listedAs? (h : ∀ e ∈ entries, e.serialNumber.isSome = true) :
    List.Forall₂ (IsEntryOf now) entries (entries.filterMap (listedAs? now)) := by
  induction entries with
  | nil => exact .nil
  | cons e entries ih =>
    obtain ⟨he, hentries⟩ := List.forall_mem_cons.1 h
    obtain ⟨s, hs⟩ := Option.isSome_iff_exists.1 he
    have hlisted : listedAs? now e = some _ := listedAs?_of_serialNumber hs
    rw [List.filterMap_cons_some hlisted]
    exact .cons (listedAs?_eq_some_iff.1 hlisted) (ih hentries)

/-! ## The pass over the request -/

/-- Of the request the pass sees only whether expired entries are included. -/
theorem revocationsFrom_congr (h : r.includeExpired = r'.includeExpired) :
    revocationsFrom r now out entries = revocationsFrom r' now out entries := by
  have hkept : isKept r now = isKept r' now := by
    funext e
    rw [isKept, isKept, h]
  induction entries generalizing out with
  | nil => rfl
  | cons e entries ih =>
    rw [revocationsFrom, revocationsFrom, hkept]
    simp only [ih]

/-- An entry needs a serial number in any case, and one that is kept a new number. -/
theorem revocationsFrom_cons_eq_ok_iff :
    revocationsFrom r now out (e :: entries) = .ok listed ↔
      ∃ s, e.serialNumber = some s ∧
        if IsDropped r now e then revocationsFrom r now out entries = .ok listed
        else (∀ o ∈ out, o.serialNumber ≠ s) ∧
          revocationsFrom r now (out ++ (listedAs? now e).toList) entries = .ok listed := by
  rw [revocationsFrom]
  cases hs : e.serialNumber with
  | none => exact iff_of_false nofun fun ⟨_, h, _⟩ => nomatch h
  | some s =>
    simp only [Option.some.injEq, exists_eq_left', listedAs?_of_serialNumber hs, Option.toList_some]
    by_cases hdropped : IsDropped r now e
    · rw [if_pos hdropped, isKept_eq_false_iff.2 hdropped]
      rfl
    · rw [if_neg hdropped, eq_true_of_ne_false (mt isKept_eq_false_iff.1 hdropped)]
      by_cases hdouble : ∃ o ∈ out, o.serialNumber = s
      · have hany : (out.any fun o => o.serialNumber == s) = true := by simpa using hdouble
        obtain ⟨o, ho, hos⟩ := hdouble
        rw [hany]
        exact iff_of_false nofun fun h => h.1 o ho hos
      · have hany : (out.any fun o => o.serialNumber == s) = false := by simpa using hdouble
        rw [hany]
        exact (and_iff_right fun o ho hos => hdouble ⟨o, ho, hos⟩).symm

/-- From any point on: the numbers of kept entries differ from each other and from those that are
listed already. -/
theorem revocationsFrom_eq_ok_iff :
    revocationsFrom r now out entries = .ok listed ↔
      (∀ e ∈ entries, e.serialNumber.isSome = true) ∧
        ((entries.filter fun e => ¬IsDropped r now e).Pairwise
          fun e e' => e.serialNumber ≠ e'.serialNumber) ∧
        (∀ e ∈ entries.filter fun e => ¬IsDropped r now e,
          ∀ o ∈ out, some o.serialNumber ≠ e.serialNumber) ∧
        listed = out ++ (entries.filter fun e => ¬IsDropped r now e).filterMap (listedAs? now) := by
  induction entries generalizing out with
  | nil => simpa [revocationsFrom] using eq_comm
  | cons e entries ih =>
    rw [revocationsFrom_cons_eq_ok_iff, List.forall_mem_cons]
    cases hs : e.serialNumber with
    | none => simp
    | some s =>
      simp only [Option.some.injEq, exists_eq_left', Option.isSome_some, true_and]
      by_cases hdropped : IsDropped r now e
      · rw [if_pos hdropped, ih, List.filter_cons_of_neg (by simpa using hdropped)]
      · rw [if_neg hdropped, ih, List.filter_cons_of_pos (by simpa using hdropped)]
        simp only [List.forall_mem_cons, List.pairwise_cons, List.forall_mem_append, hs,
          listedAs?_of_serialNumber hs, List.filterMap_cons, Option.toList_some,
          List.append_assoc, List.singleton_append, Option.some.injEq, ne_eq, forall_and]
        -- a later entry differs from this one, be it as kept or as listed by then
        tauto

theorem revocationsOf_eq_ok_iff :
    revocationsOf r now = .ok listed ↔
      (∀ e ∈ r.revoked, e.serialNumber.isSome = true) ∧
        ((keptEntries r now).Pairwise fun e e' => e.serialNumber ≠ e'.serialNumber) ∧
        listed = (keptEntries r now).filterMap (listedAs? now) := by
  rw [revocationsOf, revocationsFrom_eq_ok_iff]
  simp only [keptEntries, List.not_mem_nil, false_implies, implies_true, true_and, List.nil_append]

/-- No two entries of a list are for one serial number. -/
theorem nodup_revocationsOf (h : revocationsOf r now = .ok listed) :
    (listed.map (·.serialNumber)).Nodup := by
  obtain ⟨-, hpair, rfl⟩ := revocationsOf_eq_ok_iff.1 h
  rw [List.Nodup, List.pairwise_map, List.pairwise_filterMap]
  refine hpair.imp fun {e e'} hne o ho o' ho' heq => hne ?_
  rw [(listedAs?_eq_some_iff.1 ho).serialNumber, (listedAs?_eq_some_iff.1 ho').serialNumber, heq]

/-- An entry that is listed was asked for. -/
theorem of_mem_revocationsOf (h : revocationsOf r now = .ok listed) :
    ∀ o ∈ listed, ∃ e ∈ r.revoked, IsEntryOf now e o := by
  obtain ⟨-, -, rfl⟩ := revocationsOf_eq_ok_iff.1 h
  intro o ho
  obtain ⟨e, he, hlisted⟩ := List.mem_filterMap.1 ho
  exact ⟨e, List.mem_of_mem_filter he, listedAs?_eq_some_iff.1 hlisted⟩

/-- **The entries of a list are those that were asked for and are kept.** There is a list if and only
if every requested entry has a serial number, the dropped ones included, and no two kept ones have the
same. It has one entry for each kept one and no others, in the order of the request. -/
theorem revocations_follow_request (r : CertificateRequest) (now : Instant) :
    ((∃ listed, revocationsOf r now = .ok listed) ↔
      (∀ e ∈ r.revoked, e.serialNumber.isSome = true) ∧
        (keptEntries r now).Pairwise fun e e' => e.serialNumber ≠ e'.serialNumber) ∧
    ∀ listed, revocationsOf r now = .ok listed →
      List.Forall₂ (IsEntryOf now) (keptEntries r now) listed := by
  simp only [revocationsOf_eq_ok_iff]
  refine ⟨⟨?_, ?_⟩, ?_⟩
  · rintro ⟨_, hall, hpair, -⟩
    exact ⟨hall, hpair⟩
  · rintro ⟨hall, hpair⟩
    exact ⟨_, hall, hpair, rfl⟩
  · rintro _ ⟨hall, -, rfl⟩
    exact forall₂_filterMap_listedAs? fun e he => hall e (List.mem_of_mem_filter he)

end CertAuthority.X509
