import CertAuthority.Merge
import CertAuthority.Proofs.Certificate.Drafts

/-!
# Who an OpenSSH certificate is for

An empty list of principals stands for everyone in the OpenSSH format, while a policy may well leave
nothing of a requested list. The two agree because no draft is built from an empty list.

* `OpenSsh.draftPrincipals_list_eq_ok_iff` : a draft keeps a list, unless it is empty;
* `SigningPolicy.principalsFor_of_allowed` : under an allow list there is always a list, of allowed
  names and of the policy's defaults;
* `SigningPolicy.principals_confined` : so a draft names some principals, and only such.
-/

namespace CertAuthority

theorem OpenSsh.draftPrincipals_list_eq_ok_iff {names : List String} {q : Principals} :
    draftPrincipals (.list names) = .ok q ↔ names ≠ [] ∧ q = .list names := by
  cases names with
  | nil => simp [draftPrincipals, Outcome.fail]
  | cons name names => simp [draftPrincipals, eq_comm]

namespace SigningPolicy

variable {p : SigningPolicy} {allowed : List String}

/-- Without an explicit list the defaults come before the allowed names, and who asks for everyone
gets the allowed ones. -/
theorem principalsFor_of_allowed (hallowed : p.allowedPrincipals = some allowed)
    (hforced : p.principals = .unspecified) (requested : Principals) :
    ∃ names, p.principalsFor requested = .list names ∧
      (∀ n ∈ names, n ∈ allowed ∨ n ∈ p.defaultPrincipals.getD []) ∧
      (∀ asked, requested = .list asked → names = asked.filter allowed.contains) := by
  have hset : p.principals.isUnspecified = true := by rw [hforced]; rfl
  cases requested with
  | list asked =>
    refine ⟨asked.filter allowed.contains, by simp [principalsFor, hset, hallowed],
      fun n hn => ?_, fun _ h => by rw [Principals.list.inj h]⟩
    exact .inl (List.contains_iff_mem.1 (List.mem_filter.1 hn).2)
  | all =>
    exact ⟨allowed, by simp [principalsFor, hset, hallowed], fun n hn => .inl hn,
      fun _ h => Principals.noConfusion h⟩
  | unspecified =>
    cases hdefault : p.defaultPrincipals with
    | some defaults =>
      exact ⟨defaults, by simp [principalsFor, hset, hdefault], fun n hn => .inr hn,
        fun _ h => Principals.noConfusion h⟩
    | none =>
      exact ⟨allowed, by simp [principalsFor, hset, hdefault, hallowed], fun n hn => .inl hn,
        fun _ h => Principals.noConfusion h⟩

/-- **A certificate is for named principals only, and for none that the policy does not name.**
Where a policy has an allow list and sets no principals outright, a draft for any request holds a
list with at least one name. Every name is allowed or one of the policy's defaults, and of a
requested list it is exactly the allowed names that are left, in their order. -/
theorem principals_confined {p : SigningPolicy} (hk : p.kind = .ssh) {allowed : List String}
    (hallowed : p.allowedPrincipals = some allowed) (hforced : p.principals = .unspecified)
    {m : Moment} {artifact : ArtifactKind} {r : CertificateRequest} {subject : PublicKey}
    {signer : SignerIdentity} {d : Draft}
    (h : Backend.ssh.buildDraft m artifact (r.under p) subject signer = .ok d) :
    ∃ names, d.info.principals = .list names ∧ names ≠ [] ∧
      (∀ n ∈ names, n ∈ allowed ∨ n ∈ p.defaultPrincipals.getD []) ∧
      (∀ asked, r.principals = .list asked → names = asked.filter allowed.contains) := by
  obtain ⟨names, hnames, hmem, hasked⟩ := principalsFor_of_allowed hallowed hforced r.principals
  obtain ⟨-, -, hdraft, -⟩ := OpenSsh.of_buildDraft h
  rw [CertificateRequest.under, principals_resolve hk, hnames,
    OpenSsh.draftPrincipals_list_eq_ok_iff] at hdraft
  obtain ⟨hne, hd⟩ := hdraft
  exact ⟨names, hd, hne, hmem, hasked⟩

/-- For two groups of machines, and for operators where no one is named. -/
def machinePolicy : SigningPolicy where
  kind := .ssh
  allowedPrincipals := some ["web", "db"]
  defaultPrincipals := some ["ops"]

/-- Asks for three names, one of them not allowed. -/
def machineRequest : CertificateRequest :=
  { CertificateRequest.new .ssh with
    principals := .list ["db", "root", "web"]
    serialNumber := some ⟨7⟩ }

/-- The name that is not allowed is left out. -/
theorem principals_confined_machines :
    machinePolicy.kind = .ssh ∧ machinePolicy.allowedPrincipals = some ["web", "db"] ∧
      machinePolicy.principals = .unspecified ∧
      ∃ d, Backend.ssh.buildDraft ⟨.ofSeconds 0, []⟩ .certificate
          (machineRequest.under machinePolicy) OpenSsh.hostKey ⟨OpenSsh.hostKey, none⟩ = .ok d ∧
        d.info.principals = .list ["db", "web"] := by
  obtain ⟨d, hd⟩ : ∃ d, Backend.ssh.buildDraft ⟨.ofSeconds 0, []⟩ .certificate
      (machineRequest.under machinePolicy) OpenSsh.hostKey ⟨OpenSsh.hostKey, none⟩ = .ok d :=
    Outcome.exists_eq_ok_of_isOk (by decide +kernel)
  obtain ⟨names, hlist, -, -, hasked⟩ := principals_confined (p := machinePolicy) rfl rfl rfl hd
  rw [hasked ["db", "root", "web"] rfl] at hlist
  exact ⟨rfl, rfl, rfl, d, hd, hlist⟩

end SigningPolicy
end CertAuthority
