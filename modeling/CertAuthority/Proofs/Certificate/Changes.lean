import CertAuthority.Detect

/-!
# What detection reads, and when nothing differs

* `ExtensionDiff.not_lists_compare_iff`, `ExtensionDiff.between_eq_none_iff` : what the difference
  of two sets leaves out is the same in both;
* `ExtensionDiff.between_self`, `principalsDiff_self` : no part of a view differs from itself;
* `Desired.changesFrom_eq_ok` : what detection answers with, where the renewal limit is a time that
  can be represented;
* `Desired.exists_changesFrom_eq_ok` : it answers at all;
* `CertificateRequest.SameContent` : requests that ask for the same artifact, at whatever time and
  signed in whatever way;
* `Draft.SameBody` : drafts of the same content. Dates do not count, nor does a number that the
  request does not name, and neither does how the artifact is signed;
* `Draft.Alike.changesFrom_eq` : of two drafts that agree on their signature as well, detection
  reports the same changes.
-/

namespace CertAuthority

/-! ## Differences -/

namespace ExtensionDiff

variable {existing desired : ExtensionSet} {k : ExtensionKind}

/-- The kind is in one of the lists. -/
def Lists (d : ExtensionDiff) (k : ExtensionKind) : Prop :=
  k ∈ d.added ∨ k ∈ d.changed ∨ k ∈ d.removed

/-- A kind is not listed if and only if both sets have the same for it. -/
theorem not_lists_compare_iff :
    ¬(compare existing desired).Lists k ↔ existing.get? k = desired.get? k := by
  simp only [Lists, compare, ExtensionSet.kinds, List.mem_filter, ExtensionKind.mem_all, true_and,
    ExtensionSet.contains]
  cases existing.get? k with
  | none => cases desired.get? k <;> simp
  | some v => cases desired.get? k <;> simp

/-- Nothing differs between equal sets, and between no others. -/
theorem between_eq_none_iff : between existing desired = none ↔ existing = desired := by
  have hempty : between existing desired = none ↔
      (compare existing desired).added = [] ∧ (compare existing desired).changed = [] ∧
        (compare existing desired).removed = [] := by
    simp [between, isEmpty, and_assoc]
  rw [hempty, ExtensionSet.ext_iff]
  constructor
  · rintro ⟨hadded, hchanged, hremoved⟩ k
    rw [← not_lists_compare_iff, Lists, hadded, hchanged, hremoved]
    simp
  · intro h
    have hnone := fun k => not_lists_compare_iff.2 (h k)
    exact ⟨List.eq_nil_iff_forall_not_mem.2 fun k hk => hnone k (.inl hk),
      List.eq_nil_iff_forall_not_mem.2 fun k hk => hnone k (.inr (.inl hk)),
      List.eq_nil_iff_forall_not_mem.2 fun k hk => hnone k (.inr (.inr hk))⟩

theorem between_self (s : ExtensionSet) : between s s = none := between_eq_none_iff.2 rfl

end ExtensionDiff

theorem principalsDiff_self (p : Principals) : principalsDiff p p = none := by
  have hmissing : ((principalNames p).filter (!(principalNames p).contains ·)) = [] := by
    rw [List.filter_eq_nil_iff]
    intro s hs
    simp [hs]
  simp only [principalsDiff, hmissing]
  rfl

namespace Desired

variable {b : Backend} {existing : LoadedArtifact} {d : Desired} {now limit : Instant}
  {threshold : Span}

/-- An artifact is due if it ends before the renewal limit. -/
theorem changesFrom_eq_ok (hsigned : d.draft.info.artifact ≠ .csr)
    (hlimit : now.plus? threshold = some limit) :
    changesFrom b existing d now threshold =
      .ok (differences b existing d (existing.certificate.info.notAfter.any (·.lt limit))) := by
  rw [changesFrom, if_neg hsigned]
  cases hend : existing.certificate.info.notAfter with
  | none =>
    simp only [CertificateInfo.expiresWithin, hend]
    rfl
  | some t =>
    simp only [CertificateInfo.expiresWithin, hend, hlimit]
    rfl

/-- Signing requests have no end, and for them the limit does not matter. -/
theorem exists_changesFrom_eq_ok
    (hlimit : d.draft.info.artifact = .csr ∨ (now.plus? threshold).isSome = true) :
    ∃ expiration, changesFrom b existing d now threshold =
      .ok (differences b existing d expiration) := by
  by_cases hcsr : d.draft.info.artifact = .csr
  · exact ⟨false, if_pos hcsr⟩
  · obtain ⟨limit, h⟩ := Option.isSome_iff_exists.1 (hlimit.resolve_left hcsr)
    exact ⟨_, changesFrom_eq_ok hcsr h⟩

end Desired

/-! ## Contents of requests and drafts -/

/-- The requests agree on everything that the content of an artifact is made of, keys apart. -/
structure CertificateRequest.SameContent (r s : CertificateRequest) : Prop where
  kind : r.kind = s.kind
  subject : r.subject = s.subject
  nameAttributes : r.nameAttributes = s.nameAttributes
  principals : r.principals = s.principals
  keyId : r.keyId = s.keyId
  certType : r.certType = s.certType
  options : r.options = s.options
  extensions : r.extensions = s.extensions
  serialNumber : r.serialNumber = s.serialNumber

theorem CertificateRequest.SameContent.refl (r : CertificateRequest) : r.SameContent r := by
  constructor <;> rfl

/-! ## Entries of lists -/

/-- The entry without its own date. -/
def Revocation.undated (e : Revocation) : Revocation := { e with revocationDate := .ofSeconds 0 }

namespace RevocationsDiff

theorem firstWith?_undated (s : SerialNumber) (es : List Revocation) :
    firstWith? s (es.map Revocation.undated) = (firstWith? s es).map Revocation.undated :=
  List.find?_map ..

/-- Detection does not look at the dates of entries. -/
theorem between_undated (old want : List Revocation) :
    between old (want.map Revocation.undated) = between old want := by
  have hof : RevocationsDiff.of old (want.map Revocation.undated) = RevocationsDiff.of old want := by
    simp only [RevocationsDiff.of, List.filter_map, List.map_map, firstWith?_undated,
      Option.isNone_map]
    rfl
  rw [between, between, hof]

theorem between_undated_left (old want : List Revocation) :
    between (old.map Revocation.undated) want = between old want := by
  have hof : RevocationsDiff.of (old.map Revocation.undated) want = RevocationsDiff.of old want := by
    simp only [RevocationsDiff.of, List.filter_map, List.map_map, firstWith?_undated,
      Option.isNone_map, Option.any_map]
    rfl
  rw [between, between, hof]

end RevocationsDiff

/-! ## Drafts -/

namespace Draft

/-- The drafts are of the same content, and of the same number where one is asked for. -/
structure SameBody (d d' : Draft) : Prop where
  kind : d.info.kind = d'.info.kind
  artifact : d.info.artifact = d'.info.artifact
  publicKey : d.info.publicKey = d'.info.publicKey
  subject : d.info.subject = d'.info.subject
  issuer : d.info.issuer = d'.info.issuer
  principals : d.info.principals = d'.info.principals
  keyId : d.info.keyId = d'.info.keyId
  certType : d.info.certType = d'.info.certType
  options : d.info.options = d'.info.options
  extensions : d.info.extensions = d'.info.extensions
  requested : d.request.serialNumber = d'.request.serialNumber
  serialNumber : d.request.serialNumber.isSome = true → d.info.serialNumber = d'.info.serialNumber

/-- The drafts are of the same content for the same signature. -/
structure Alike (d d' : Draft) : Prop extends SameBody d d' where
  signer : d.signer.publicKey = d'.signer.publicKey
  digest : d.info.digest = d'.info.digest
  revoked : d.info.artifact = .crl →
    d.info.revoked.map Revocation.undated = d'.info.revoked.map Revocation.undated

variable {d d' : Draft}

theorem Alike.differences_eq (h : d.Alike d') (b : Backend) (existing : LoadedArtifact)
    (desired : Desired) (expiration : Bool) :
    Desired.differences b existing { desired with draft := d } expiration =
      Desired.differences b existing { desired with draft := d' } expiration := by
  have hserial (s : Option SerialNumber) :
      (d'.request.serialNumber.isSome && s != d.info.serialNumber) =
        (d'.request.serialNumber.isSome && s != d'.info.serialNumber) := by
    cases hnumbered : d'.request.serialNumber.isSome with
    | false => rfl
    | true => rw [h.serialNumber (h.requested ▸ hnumbered)]
  have hrevoked (old : List Revocation) :
      (if d'.info.artifact == .crl then RevocationsDiff.between old d.info.revoked else none) =
        if d'.info.artifact == .crl then RevocationsDiff.between old d'.info.revoked else none := by
    split
    · rename_i hcrl
      rw [← RevocationsDiff.between_undated old d.info.revoked,
        h.revoked (h.artifact.trans (beq_iff_eq.1 hcrl)), RevocationsDiff.between_undated]
    · rfl
  simp only [Desired.differences, h.kind, h.artifact, h.publicKey, h.subject, h.issuer,
    h.principals, h.keyId, h.certType, h.options, h.extensions, h.requested, h.signer, h.digest,
    hserial, hrevoked]

theorem Alike.changesFrom_eq (h : d.Alike d') (b : Backend) (existing : LoadedArtifact)
    (desired : Desired) (now : Instant) (threshold : Span) :
    Desired.changesFrom b existing { desired with draft := d } now threshold =
      Desired.changesFrom b existing { desired with draft := d' } now threshold := by
  have hdifferences : Desired.differences b existing { desired with draft := d } =
      Desired.differences b existing { desired with draft := d' } :=
    funext (h.differences_eq b existing desired)
  rw [Desired.changesFrom, Desired.changesFrom, hdifferences, h.artifact]

end Draft
end CertAuthority
