import CertAuthority.Proofs.Managed.RevocationLists

/-!
# Revocation dates stay

A serial number is listed with the date it was first listed with, whatever is done to the list around
it, unless a request gives it another date.

* `dateIn?` : the date of a serial number in a list;
* `ListRun.dateIn?_of_list` : what one run does to it;
* `Follow.dates_stay` : what runs one after another do to it;
* `textList_not_found` : a list that a file loses with all its dates.
-/

namespace CertAuthority

variable {σ : Type} {f : FileSystem σ} {path : String} {files : σ} {rs : List (ListRun σ)}
  {x : SerialNumber} {day : Instant}

/-- The date that a list has for a serial number. -/
def dateIn? (x : SerialNumber) (list : Option Certificate) : Option Instant :=
  (list.bind fun c => RevocationsDiff.firstWith? x c.info.revoked).map (·.revocationDate)

/-- Lists that are shown have dates without fractions of a second. -/
theorem nanos_of_dateIn? (h : dateIn? x (f.list? path files) = some day) : day.nanos = 0 := by
  obtain ⟨e, he, rfl⟩ := Option.map_eq_some_iff.1 h
  obtain ⟨c, hc, he⟩ := Option.bind_eq_some_iff.1 he
  obtain ⟨a, ha, rfl⟩ := Option.map_eq_some_iff.1 hc
  obtain ⟨data, hload⟩ := FileSystem.exists_of_shown? ha
  exact X509.whole_of_listInfo (X509.listInfo_of_loadList hload) e (List.mem_of_find?_eq_some he)

namespace ListRun

variable {r : ListRun σ}

/-- The request gives no date for the serial number, neither with the number nor with a certificate
that has it. -/
def LeavesDate (r : ListRun σ) (x : SerialNumber) : Prop :=
  ∀ e ∈ r.spec.request.revoked, ∀ e' : RevokedCertificate,
    (r.node.completeEntry r.spec.request.kind e).result r.start.world = .ok e' →
      e'.serialNumber = some x → e.revocationDate = none

/-- Completing an entry gives it no date. -/
theorem revocationDate_completeEntry {n : Node σ} {kind : CertificateKind}
    {e e' : RevokedCertificate} {w : World σ} (h : (n.completeEntry kind e).result w = .ok e') :
    e'.revocationDate = e.revocationDate := by
  have hrun : ∃ v, (n.completeEntry kind e).run.run ⟨w, [], {}⟩ = (.ok e', v) := ⟨_, Prod.ext h rfl⟩
  obtain ⟨v, hrun⟩ := hrun
  unfold Node.completeEntry at hrun
  split at hrun
  · obtain ⟨rfl, -⟩ := Run.pure_eq_ok_iff.1 hrun
    rfl
  · obtain ⟨_, _, -, hrun⟩ := Run.bind_eq_ok_iff.1 hrun
    obtain ⟨rfl, -⟩ := Run.pure_eq_ok_iff.1 hrun
    rfl

/-- In a list that is issued the serial number has the date it had before. -/
theorem date_of_issued {c : Certificate} (hr : r.On f path) (hfiles : f.IsFaithful path)
    (hleaves : r.LeavesDate x)
    (hday : dateIn? x (f.list? path r.start.world.files) = some day) (hc : r.issued? = some c) :
    ∀ o ∈ c.info.revoked, o.serialNumber = x → o.revocationDate = day := by
  rcases r.cases_list hr hfiles with ⟨hidle, -⟩ | ⟨c', hissued, hlists, -⟩
  · rw [hc] at hidle
    cases hidle
  obtain rfl := Option.some.inj (hc.symm.trans hissued)
  rintro o ho rfl
  have hwhole := nanos_of_dateIn? hday
  obtain ⟨listed, hlisted, rfl⟩ := Option.map_eq_some_iff.1 hday
  obtain ⟨e₀, he₀, e₁, hcomplete, hserial, hdate⟩ := hlists.entries o ho
  have hnone := hleaves e₀ he₀ e₁ hcomplete hserial
  rw [← revocationDate_completeEntry hcomplete] at hnone
  exact hdate hnone listed hlisted hwhole

/-- A serial number that stays in the list keeps its date. -/
theorem dateIn?_of_list (hr : r.On f path) (hfiles : f.IsFaithful path) (hplain : r.IsPlain)
    (hleaves : r.LeavesDate x)
    (hday : dateIn? x (f.list? path r.start.world.files) = some day)
    (hstays : (dateIn? x (f.list? path r.files)).isSome = true) :
    dateIn? x (f.list? path r.files) = some day := by
  rcases r.cases_list hr hfiles with ⟨-, hkept⟩ | ⟨c, hissued, -, hafter⟩
  · rw [hkept hplain, hday]
  · obtain ⟨c', hlist, -, hsame⟩ := hafter hplain
    have hdates := r.date_of_issued hr hfiles hleaves hday hissued
    rw [hlist] at hstays ⊢
    obtain ⟨day', hday'⟩ := Option.isSome_iff_exists.1 hstays
    obtain ⟨o, ho, rfl⟩ := Option.map_eq_some_iff.1 hday'
    have hmem : o ∈ c.info.revoked := by
      rw [← hsame]
      exact List.mem_of_find?_eq_some ho
    replace ho : c'.info.revoked.find? (fun e => e.serialNumber == x) = some o := ho
    have hserial : (o.serialNumber == x) = true :=
      List.find?_some (p := fun e : Revocation => e.serialNumber == x) ho
    rw [hday', hdates o hmem (beq_iff_eq.1 hserial)]

end ListRun

/-- **Revocation dates stay.** Of runs on one path, one after another, whatever they ask for and
whatever they come to: a serial number that the list has at first and after each run, and that no
request gives a date, keeps its date. It has it in the list that the path shows after each run, and in
every list that is issued. What is asked of the runs is that no list they write as DER is taken for
text; such a list is not found again. -/
theorem Follow.dates_stay (hfiles : f.IsFaithful path) (hruns : Follow f path files rs)
    (hday : dateIn? x (f.list? path files) = some day)
    (hleaves : ∀ r ∈ rs, r.LeavesDate x)
    (hstays : ∀ r ∈ rs, (dateIn? x (f.list? path r.files)).isSome = true) :
    ∀ r ∈ rs, dateIn? x (f.list? path r.files) = some day ∧ ∀ c, r.issued? = some c →
      ∀ o ∈ c.info.revoked, o.serialNumber = x → o.revocationDate = day := by
  induction hruns with
  | nil files =>
    intro r hr
    cases hr
  | @cons files r rs on plain found _ ih =>
    rw [List.forall_mem_cons] at hleaves hstays
    rw [← FileSystem.list?_of_sight found] at hday
    have hafter := r.dateIn?_of_list on hfiles plain hleaves.1 hday hstays.1
    exact List.forall_mem_cons.2
      ⟨⟨hafter, fun c hc => r.date_of_issued on hfiles hleaves.1 hday hc⟩,
        ih hafter hleaves.2 hstays.2⟩

/-! ## Another list in the place of the last one -/

section

open X509 Der

theorem leavesDate_lastRun (x : SerialNumber) : lastRun.LeavesDate x := by
  intro e he _ _ _
  rcases List.mem_cons.1 he with rfl | he
  · rfl
  · obtain rfl := List.mem_singleton.1 he
    rfl

/-- The certificate that is listed already is still listed. -/
theorem stays_lastRun :
    (dateIn? ⟨5⟩ (FileStore.fileSystem.list? "/ca.crl" lastRun.files)).isSome = true := by
  obtain ⟨c, o, hc, ho⟩ := issued_lastRun
  rcases lastRun.cases_list on_lastRun (FileStore.isFaithful "/ca.crl") with
    ⟨hidle, -⟩ | ⟨c', hissued, -, hafter⟩
  · rw [hc] at hidle
    cases hidle
  · obtain rfl := Option.some.inj (hc.symm.trans hissued)
    obtain ⟨shown, hlist, -, hsame⟩ := hafter plain_lastRun
    rw [hlist, dateIn?, Option.bind_some, hsame, ho]
    rfl

/-- The date of the certificate that is listed already stays, whatever comes before it now. -/
theorem dates_stay_of_lastRun :
    FileStore.fileSystem.IsFaithful "/ca.crl" ∧
    Follow FileStore.fileSystem "/ca.crl" lastRun.start.world.files [lastRun] ∧
    dateIn? ⟨5⟩ (FileStore.fileSystem.list? "/ca.crl" lastRun.start.world.files) =
      some (.ofSeconds 0) ∧ lastRun.LeavesDate ⟨5⟩ ∧
    (dateIn? ⟨5⟩ (FileStore.fileSystem.list? "/ca.crl" lastRun.files)).isSome = true ∧
    dateIn? ⟨5⟩ (FileStore.fileSystem.list? "/ca.crl" lastRun.files) = some (.ofSeconds 0) := by
  have hfiles := FileStore.isFaithful "/ca.crl"
  have hday : dateIn? ⟨5⟩ (FileStore.fileSystem.list? "/ca.crl" lastRun.start.world.files) =
      some (.ofSeconds 0) := by decide +kernel
  have hstays := Follow.dates_stay hfiles follow_lastRun hday
    (List.forall_mem_singleton.2 (leavesDate_lastRun ⟨5⟩))
    (List.forall_mem_singleton.2 stays_lastRun) lastRun List.mem_cons_self
  exact ⟨hfiles, follow_lastRun, hday, leavesDate_lastRun ⟨5⟩, stays_lastRun, hstays.1⟩

/-- A list whose issuer is named by a block in armor. -/
def textList : Bytes :=
  let date := element tagUtcTime (Bytes.ofText "700101000000Z")
  let name := seqOf [element tagSet (seqOf [oid [2, 5, 4, 3],
    element tagUtf8 (Armor.encode labelCertificate [])])]
  seqOf [
    seqOf [nat 1, keyIdentifierOf .ed25519, name, date, date, seqOf [seqOf [nat 5, date]],
      explicit 0 (seqOf [(Extension.mk oidListNumber false (nat 1)).encode])],
    keyIdentifierOf .ed25519, Der.bits []]

/-- Written as DER, that list is not found again, and the dates in it are lost. -/
theorem textList_not_found :
    ∃ c, listInfo c.encoded = .ok c.info ∧ dateIn? ⟨5⟩ (some c) = some (.ofSeconds 0) ∧
      (∀ m, encodeArtifact m c .der {} = .ok c.encoded) ∧ HoldsText c.encoded ∧
      ∀ a, loadList c.encoded ≠ .ok a := by
  have hdate : ((listInfo textList).toOption.bind fun i => dateIn? ⟨5⟩ (some ⟨textList, i⟩)) =
      some (.ofSeconds 0) := by decide +kernel
  have hlost : (loadList textList).isOk = false := by decide +kernel
  have htext : HoldsText textList := by decide +kernel
  obtain ⟨i, hi, hdate⟩ := Option.bind_eq_some_iff.1 hdate
  refine ⟨⟨textList, i⟩, Outcome.toOption_eq_some_iff.1 hi, hdate, fun m => rfl, htext, ?_⟩
  intro a ha
  replace ha : loadList textList = .ok a := ha
  rw [ha] at hlost
  cases hlost

end

end CertAuthority
