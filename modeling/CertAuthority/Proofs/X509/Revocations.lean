import CertAuthority.Proofs.X509.Rendering
import CertAuthority.Proofs.X509.RequestedRevocations
import CertAuthority.X509.Backend

/-!
# Revocation lists as they were rendered

The entries of a list go through their encoding once when the list is drafted, and again when the
draft is signed. The first time settles them; the second changes nothing.

* `settledEntry` : what is left of an entry once it was written and read. Dates lose their fractions
  of a second, and a reason that says nothing is dropped;
* `RevocationListPlan.renders_of_issue` : a list that was issued is read back as its plan, its
  entries settled;
* `RevocationListForm.Renders.info_eq` : the view of such a list;
* `RevocationsDiff.between_self` : entries that a request may hold do not differ from themselves.
-/

namespace CertAuthority

namespace X509

open Der

/-! ## Entries -/

/-- The entry as a stored list holds it. -/
def settledEntry (r : Revocation) : Revocation where
  serialNumber := r.serialNumber
  revocationDate := r.revocationDate.wholeSecond
  reason := if r.invalidityDate.isNone ∧ r.reason = some .unspecified then none else r.reason
  invalidityDate := r.invalidityDate.map (·.wholeSecond)

theorem settledEntry_settledEntry (r : Revocation) :
    settledEntry (settledEntry r) = settledEntry r := by
  obtain ⟨serial, date, reason, invalidity⟩ := r
  cases invalidity with
  | none =>
    by_cases hreason : reason = some .unspecified
    · simp [settledEntry, hreason, Instant.wholeSecond]
    · simp [settledEntry, hreason, Instant.wholeSecond]
  | some t => simp [settledEntry, Instant.wholeSecond]

theorem isNamed_entryExtensions (reason : Option RevocationReason) (invalidity : Option Bytes) :
    ∀ e ∈ entryExtensions reason invalidity, e.IsNamed := by
  intro e he
  unfold entryExtensions at he
  split at he
  · cases he
  · simp only [List.mem_append, Option.mem_toList, Option.map_eq_some_iff] at he
    rcases he with ⟨r, -, rfl⟩ | ⟨b, -, rfl⟩
    · exact (by cbv :
        arcsOfContent? (oidContent oidReason) = some oidReason)
    · exact (by cbv :
        arcsOfContent? (oidContent oidInvalidityDate) = some oidInvalidityDate)

/-- The code of a reason is read back. -/
theorem ofCode?_natContent (r : RevocationReason) :
    (do RevocationReason.ofCode? (Bytes.toNat
        (← (tagged tagEnumerated).parse? .tolerant (element tagEnumerated (natContent r.code))) %
          256)) = some r := by
  cases r <;> with_unfolding_all decide

/-- The reason of an entry is that of its extensions, unless it says nothing. -/
theorem reasonOf?_entryExtensions (serial : Bytes) (date : Instant)
    (reason : Option RevocationReason) (invalidity : Option Bytes) :
    RevocationListForm.reasonOf? ⟨serial, date, entryExtensions reason invalidity⟩ =
      if invalidity.isNone ∧ reason = some .unspecified then none else reason := by
  have hne : (oidInvalidityDate == oidReason) = false := by decide
  cases reason with
  | none =>
    cases invalidity <;> simp [RevocationListForm.reasonOf?, RevocationListForm.value?,
      entryExtensions, hne]
  | some r =>
    by_cases h : invalidity.isNone = true ∧ some r = some .unspecified
    · have hnone : entryExtensions (some r) invalidity = [] := if_pos ⟨h.1, .inr h.2⟩
      rw [if_pos h, hnone]
      rfl
    · have hwritten : entryExtensions (some r) invalidity =
          ⟨oidReason, false, element tagEnumerated (natContent r.code)⟩ ::
            (invalidity.map fun b => ⟨oidInvalidityDate, false, b⟩).toList :=
        if_neg fun h' => h ⟨h'.1, h'.2.resolve_left nofun⟩
      have hvalue : RevocationListForm.value? (entryExtensions (some r) invalidity) oidReason =
          some (element tagEnumerated (natContent r.code)) := by
        rw [hwritten]
        rfl
      rw [if_neg h, RevocationListForm.reasonOf?, hvalue]
      exact ofCode?_natContent r

theorem invalidityOf?_entryExtensions (serial : Bytes) (date : Instant)
    (reason : Option RevocationReason) (invalidity : Option Bytes) :
    RevocationListForm.invalidityOf? ⟨serial, date, entryExtensions reason invalidity⟩ =
      invalidity.bind (Date.parser.parse? .tolerant) := by
  have hne : oidReason ≠ oidInvalidityDate := by decide
  cases invalidity with
  | none =>
    cases reason with
    | none => rfl
    | some r => by_cases h : r = .unspecified <;>
        simp [RevocationListForm.invalidityOf?, entryExtensions, h, hne]
  | some b =>
    cases reason with
    | none => simp [RevocationListForm.invalidityOf?, entryExtensions]
    | some r => simp [RevocationListForm.invalidityOf?, entryExtensions, hne]

/-- An entry whose dates are whole seconds. -/
structure IsWhole (r : Revocation) : Prop where
  date : r.revocationDate.nanos = 0
  invalidity : ∀ t, r.invalidityDate = some t → t.nanos = 0

theorem settledEntry_datedEntry {e q : Revocation} (h : datedEntry e = .ok q) :
    IsWhole q ∧ settledEntry q = settledEntry e := by
  simp only [datedEntry, Outcome.bind_eq_ok_iff] at h
  obtain ⟨date, hdate, invalidity, hinvalidity, h⟩ := h
  obtain rfl := Except.ok.inj h
  obtain rfl := wholeDate_eq_ok hdate
  cases hi : e.invalidityDate with
  | none =>
    rw [hi] at hinvalidity
    obtain rfl := Except.ok.inj hinvalidity
    refine ⟨⟨rfl, nofun⟩, ?_⟩
    simp [settledEntry, hi, Instant.wholeSecond]
  | some t =>
    rw [hi, Option.mapM_some, Outcome.map_eq_ok_iff] at hinvalidity
    obtain ⟨t', ht, rfl⟩ := hinvalidity
    obtain rfl := wholeDate_eq_ok ht
    refine ⟨⟨rfl, fun _ h => ?_⟩, ?_⟩
    · rw [← Option.some.inj h]
      rfl
    · simp [settledEntry, hi, Instant.wholeSecond]

theorem wholeSecond_of_nanos {t : Instant} (h : t.nanos = 0) : t.wholeSecond = t := by
  rw [Instant.wholeSecond, ← h]

theorem longDateBytes_eq_ok_iff {t : Instant} {b : Bytes} :
    longDateBytes t = .ok b ↔ Date.encodeLong? t = some b := by
  cases h : Date.encodeLong? t <;> simp [longDateBytes, orAbandon, h, Outcome.abandon]

/-- The invalidity date of an entry is read back. -/
theorem parse?_longDateBytes {date : Option Instant} {written : Option Bytes}
    (hwhole : ∀ t, date = some t → t.nanos = 0) (h : date.mapM longDateBytes = .ok written) :
    written.bind (Date.parser.parse? .tolerant) = date.map (·.wholeSecond) ∧
      written.isNone = date.isNone := by
  cases date with
  | none =>
    obtain rfl := Except.ok.inj h
    exact ⟨rfl, rfl⟩
  | some t =>
    rw [Option.mapM_some, Outcome.map_eq_ok_iff] at h
    obtain ⟨b, hb, rfl⟩ := h
    have ht := hwhole t rfl
    have hread := Date.parse?_encodeLong? ht (longDateBytes_eq_ok_iff.1 hb) .tolerant
    exact ⟨by rw [Option.bind_some, hread, Option.map_some, wholeSecond_of_nanos ht], rfl⟩

namespace RevocationListForm

variable {r : Rules} {rest b : Bytes}

/-- Extensions of an entry, or nothing where there are none. -/
theorem optionally_listParser {es : List Extension} (hes : ∀ e ∈ es, e.IsNamed)
    (hl : (if es.isEmpty then [] else [seqOf (es.map Extension.encode)]).flatten.length <
      bitLimit 64) :
    ∃ found left, optionally Extension.listParser r
      (if es.isEmpty then [] else [seqOf (es.map Extension.encode)]).flatten = some (found, left) ∧
        found.getD [] = es := by
  cases es with
  | nil => exact ⟨none, [], by cases r <;> rfl, rfl⟩
  | cons e es =>
    rw [if_neg (by simp), List.flatten_cons, List.flatten_nil] at hl ⊢
    rw [List.append_nil] at hl
    exact ⟨some (e :: es), [], of_optionally (Extension.listParser_seqOf hes hl), rfl⟩

/-- A written entry is read as what it settles to. -/
theorem of_entry {q : Revocation} {written : Bytes} {x : RevokedEntry} (hq : IsWhole q)
    (hwritten : entryBytes q = .ok written) (h : entry r (written ++ rest) = some (x, b)) :
    revocation x = settledEntry q ∧ b = rest := by
  simp only [entryBytes, Outcome.bind_eq_ok_iff] at hwritten
  obtain ⟨date, hdate, invalidity, hinvalidity, hwritten⟩ := hwritten
  obtain rfl := Except.ok.inj hwritten
  have hl := length_of_inSequence_seqOf h
  obtain ⟨⟨left, hread⟩, rfl⟩ := of_inSequence_seqOf h
  refine ⟨?_, rfl⟩
  simp only [List.cons_append, List.nil_append, List.flatten_cons, List.length_append] at hl hread
  have hes := isNamed_entryExtensions q.reason invalidity
  obtain ⟨found, left', hfound, hlist⟩ := optionally_listParser (r := r) hes (by omega)
  simp only [bind_eq_some_iff, pure_eq_some_iff] at hread
  obtain ⟨serial, _, hserial, day, _, hday, extensions, _, hextensions, rfl, -⟩ := hread
  obtain ⟨rfl, rfl⟩ := of_tagged_element (by decide) hserial
  rw [Date.parser_encode? hq.date (dateBytes_eq_ok_iff.1 hdate)] at hday
  obtain ⟨rfl, rfl⟩ := Prod.mk.inj (Option.some.inj hday)
  rw [hfound] at hextensions
  obtain ⟨rfl, -⟩ := Prod.mk.inj (Option.some.inj hextensions)
  obtain ⟨hparsed, hnone⟩ := parse?_longDateBytes hq.invalidity hinvalidity
  rw [revocation, hlist, reasonOf?_entryExtensions, invalidityOf?_entryExtensions, hparsed, hnone,
    SerialNumber.ofBytes, toNat_natContent, settledEntry, wholeSecond_of_nanos hq.date]

end RevocationListForm

namespace RevocationListPlan

variable {p q : RevocationListPlan} {r : CertificateRequest} {authority : Option Certificate}
  {issuer : Issuer} {s : Signer} {part der : Bytes}

/-- The issuer: the authority behind a certificate, or else the name that the request gives. -/
def issuerUnder (r : CertificateRequest) : Option Certificate → BackendResult Issuer
  | some c => Issuer.ofCertificate c
  | none => do return { name := IssuedName.ofView (← subjectOf r) }

theorem endorsed_of_issue (h : p.issue r authority s = .ok der) :
    ∃ q issuer part, p.dated = .ok q ∧ issuerUnder r authority = .ok issuer ∧
      q.part issuer s = .ok part ∧ s.endorse part = .ok der := by
  cases authority with
  | none =>
    simp only [issue, Outcome.bind_eq_ok_iff] at h
    obtain ⟨q, hq, name, hname, issuer, hissuer, _, -, part, hpart, hder⟩ := h
    refine ⟨q, issuer, part, hq, ?_, hpart, hder⟩
    rw [issuerUnder, hname]
    exact hissuer
  | some c =>
    simp only [issue, Outcome.bind_eq_ok_iff] at h
    obtain ⟨q, hq, issuer, hissuer, _, -, part, hpart, hder⟩ := h
    exact ⟨q, issuer, part, hq, hissuer, hpart, hder⟩

/-- Entries of a plan once it is dated are whole, and settle to the same. -/
theorem revoked_dated (h : p.dated = .ok q) :
    (∀ e ∈ q.revoked, IsWhole e) ∧ q.revoked.map settledEntry = p.revoked.map settledEntry := by
  simp only [dated, Outcome.bind_eq_ok_iff] at h
  obtain ⟨revoked, hrevoked, _, -, _, -, h⟩ := h
  obtain rfl := Except.ok.inj h
  exact Outcome.of_mapM (fun e _ q h => settledEntry_datedEntry h) hrevoked

theorem number_dated (h : p.dated = .ok q) : q.number = p.number := by
  simp only [dated, Outcome.bind_eq_ok_iff] at h
  obtain ⟨_, -, _, -, _, -, h⟩ := h
  rw [← Except.ok.inj h]

/-- The extensions of every list. -/
def listExtensions (p : RevocationListPlan) (s : Signer) : List Extension :=
  [authorityKeyExtension s.key.identifier, ⟨oidListNumber, false, nat p.number.value⟩]

/-- All of a signed part. -/
theorem part_eq_ok_parts (h : q.part issuer s = .ok part) :
    ∃ x y entries, Date.encode? q.thisUpdate = some x ∧ Date.encode? q.nextUpdate = some y ∧
      q.revoked.mapM entryBytes = .ok entries ∧
      part = seqOf ([nat 1, s.algorithm.encode, issuer.name.encode, x, y] ++
        (if entries.isEmpty then [] else [seqOf entries]) ++
          [explicit 0 (seqOf ((q.listExtensions s).map Extension.encode))]) := by
  simp only [RevocationListPlan.part, Outcome.bind_eq_ok_iff] at h
  obtain ⟨dates, hdates, entries, hentries, hpart⟩ := h
  obtain ⟨x, y, hx, hy, rfl⟩ := mapM_dateBytes_pair hdates
  exact ⟨x, y, entries, hx, hy, hentries, (Except.ok.inj hpart).symm⟩

theorem isNamed_listExtensions (p : RevocationListPlan) (s : Signer) :
    ∀ e ∈ p.listExtensions s, e.IsNamed := by
  refine List.forall_mem_cons.2 ⟨ExtensionPlan.authorityKeyExtension_isNamed _,
    List.forall_mem_singleton.2 ?_⟩
  exact (by cbv : arcsOfContent? (oidContent oidListNumber) = some oidListNumber)

/-- The issuer's key is named, and the number of the list is no part of the view. -/
theorem viewOf_listExtensions (hl : ∀ e ∈ p.listExtensions s, e.value.length < bitLimit 64) :
    viewOf (p.listExtensions s) =
      .ofList [(.authorityKeyIdentifier, ⟨false, .present⟩)] := by
  have hkey := viewed?_authorityKeyExtension (hl _ List.mem_cons_self)
  have hnumber : kindOfOid? oidListNumber = none := by decide
  change ExtensionSet.ofList (List.filterMap Extension.viewed? _) = _
  rw [listExtensions, List.filterMap_cons, hkey, List.filterMap_cons, Extension.viewed?]
  simp only [hnumber]
  rfl

theorem number?_listExtensions {f : RevocationListForm} (hf : f.extensions = p.listExtensions s)
    (hl : ∀ e ∈ p.listExtensions s, e.value.length < bitLimit 64) :
    f.number? = some p.number := by
  have hvalue : RevocationListForm.value? f.extensions oidListNumber =
      some (nat p.number.value) := by
    rw [hf]
    rfl
  have hlength : (natContent p.number.value).length < bitLimit 64 :=
    Nat.lt_of_le_of_lt length_le_element
      (hl ⟨oidListNumber, false, nat p.number.value⟩ (List.mem_cons_of_mem _ List.mem_cons_self))
  have hread : natValue .tolerant (nat p.number.value ++ []) = some (p.number.value, []) :=
    natValue_nat hlength _
  rw [List.append_nil] at hread
  rw [RevocationListForm.number?, hvalue]
  simp only [Option.bind_eq_bind, Option.bind_some, Parser.parse?, Parser.runOn, hread,
    Option.map_some]
  rfl

end RevocationListPlan

/-- The stored form is what the plan was rendered to. -/
structure RevocationListForm.Renders (f : RevocationListForm) (p : RevocationListPlan)
    (issuer : Issuer) (s : Signer) : Prop where
  signed : ∃ q, p.dated = .ok q ∧ q.part issuer s = .ok f.signed
  signature : s.sign? f.signed = some f.signature
  algorithm : f.signatureAlgorithm = s.algorithm.identifier
  issuerName : Name.parser.parse? .tolerant issuer.name.encode = some f.issuer
  thisUpdate : f.thisUpdate = p.thisUpdate.wholeSecond
  nextUpdate : f.nextUpdate = some p.nextUpdate.wholeSecond
  revoked : f.revoked.map RevocationListForm.revocation = p.revoked.map settledEntry
  extensions : viewOf f.extensions = .ofList [(.authorityKeyIdentifier, ⟨false, .present⟩)]
  number : f.number? = some p.number

namespace RevocationListForm

variable {r : Rules} {entries : List Bytes} {revoked : List Revocation} {tail b : Bytes}

/-- What is written for an entry that can be written. -/
def writtenEntry (q : Revocation) : Bytes := (entryBytes q).toOption.getD []

theorem reads_entry (hwhole : ∀ q ∈ revoked, IsWhole q)
    (hwritten : ∀ q ∈ revoked, entryBytes q = .ok (writtenEntry q)) :
    Reads r entry writtenEntry settledEntry revocation revoked where
  atEnd := by cases r <;> rfl
  nonempty q hq hnil := by
    obtain ⟨date, -, h⟩ := Outcome.bind_eq_ok_iff.1 (hwritten q hq)
    obtain ⟨invalidity, -, h⟩ := Outcome.bind_eq_ok_iff.1 h
    rw [hnil] at h
    cases h
  value q hq _ _ _ h := of_entry (hwhole q hq) (hwritten q hq) h

theorem mapM_entryBytes (h : revoked.mapM entryBytes = .ok entries) :
    (∀ q ∈ revoked, entryBytes q = .ok (writtenEntry q)) ∧ entries = revoked.map writtenEntry := by
  have hwritten {q : Revocation} {written : Bytes} (hq : entryBytes q = .ok written) :
      writtenEntry q = written := by
    rw [writtenEntry, hq]
    rfl
  refine ⟨fun q hq => ?_, ?_⟩
  · obtain ⟨written, hok⟩ := Outcome.exists_eq_ok_of_mapM h q hq
    rw [hwritten hok, hok]
  · have hmap := (Outcome.of_mapM (P := fun _ => True) (g := id) (k := writtenEntry)
      (fun q _ written hok => ⟨trivial, (hwritten hok).symm⟩) h).2
    rwa [List.map_id] at hmap

theorem entries_element_ne {tag : UInt8} {content : Bytes} (hne : tag ≠ tagSequence) :
    RevocationListForm.entries r (element tag content ++ tail) = none := by
  cases h : RevocationListForm.entries r (element tag content ++ tail) with
  | none => rfl
  | some x =>
    obtain ⟨c, b', hc, -⟩ := bind_eq_some_iff.1 h
    rw [tagged_element_ne hne] at hc
    cases hc

/-- Entries that are read at all are those that were written. -/
theorem of_entries_seqOf {found : List RevokedEntry} (hwhole : ∀ q ∈ revoked, IsWhole q)
    (hwritten : ∀ q ∈ revoked, entryBytes q = .ok (writtenEntry q))
    (h : RevocationListForm.entries r (seqOf (revoked.map writtenEntry) ++ tail) =
      some (found, b)) :
    found.map revocation = revoked.map settledEntry ∧ b = tail := by
  obtain ⟨c, b', hc, hread⟩ := bind_eq_some_iff.1 h
  obtain ⟨rfl, rfl⟩ := of_tagged_element (by decide) hc
  obtain ⟨list, b'', hlist, hread⟩ := bind_eq_some_iff.1 hread
  obtain ⟨⟨left, hmany⟩, rfl⟩ := within_eq_some_iff.1 hlist
  split at hread
  · cases hread
  · obtain ⟨rfl, rfl⟩ := pure_eq_some_iff.1 hread
    exact ⟨((reads_entry hwhole hwritten).of_manyToEnd hmany).1, rfl⟩

/-- The entries of a list are read back, and then its extensions. -/
theorem of_entries {es found : List Extension} {listed : Option (List RevokedEntry)}
    {rest : Bytes} (hwhole : ∀ q ∈ revoked, IsWhole q)
    (hentries : revoked.mapM entryBytes = .ok entries)
    (hes : ∀ e ∈ es, e.IsNamed)
    (hlisted : optionally RevocationListForm.entries r
      ((if entries.isEmpty then [] else [seqOf entries]).flatten ++
        explicit 0 (seqOf (es.map Extension.encode))) = some (listed, rest))
    (hfound : taggedExtensions 0 r rest = some (found, b)) :
    (listed.getD []).map revocation = revoked.map settledEntry ∧ found = es ∧
      ∀ e ∈ es, e.value.length < bitLimit 64 := by
  obtain ⟨hwritten, rfl⟩ := mapM_entryBytes hentries
  cases hrevoked : revoked with
  | nil =>
    -- what comes first is the tag of the extensions
    rw [hrevoked, List.map_nil, if_pos (by rfl), List.flatten_nil, List.nil_append] at hlisted
    have hnone : RevocationListForm.entries r
        (explicit 0 (seqOf (es.map Extension.encode)) ++ []) = none :=
      entries_element_ne (by decide)
    rw [List.append_nil] at hnone
    simp only [optionally, hnone] at hlisted
    obtain ⟨rfl, rfl⟩ := Prod.mk.inj (Option.some.inj hlisted)
    exact ⟨rfl, Extension.of_taggedExtensions hes hfound⟩
  | cons q qs =>
    rw [← hrevoked]
    rw [if_neg (by simp [hrevoked]), List.flatten_cons, List.flatten_nil, List.append_nil]
      at hlisted
    cases hx : RevocationListForm.entries r
        (seqOf (revoked.map writtenEntry) ++ explicit 0 (seqOf (es.map Extension.encode))) with
    | none =>
      -- the list stays where it is, and is not taken for the extensions
      simp only [optionally, hx] at hlisted
      obtain ⟨rfl, rfl⟩ := Prod.mk.inj (Option.some.inj hlisted)
      have htag : tagSequence &&& 0x1f = 0 := number_of_taggedExtensions hfound
      exact absurd htag (by decide)
    | some read =>
      obtain ⟨values, b'⟩ := read
      simp only [optionally, hx] at hlisted
      obtain ⟨rfl, rfl⟩ := Prod.mk.inj (Option.some.inj hlisted)
      obtain ⟨hvalues, rfl⟩ := of_entries_seqOf hwhole hwritten hx
      exact ⟨hvalues, Extension.of_taggedExtensions hes hfound⟩

end RevocationListForm

theorem RevocationListPlan.renders_of_issue {p q : RevocationListPlan} {issuer : Issuer}
    {s : Signer} {part der : Bytes} {f : RevocationListForm} (hq : p.dated = .ok q)
    (hpart : q.part issuer s = .ok part) (hder : s.endorse part = .ok der)
    (hf : RevocationListForm.parse? der = some f) : f.Renders p issuer s := by
  obtain ⟨hwhole, hsettled⟩ := revoked_dated hq
  obtain ⟨hthis, hnext⟩ := dated_eq_ok hq
  have hthisNanos : q.thisUpdate.nanos = 0 := by rw [hthis]; rfl
  have hnextNanos : q.nextUpdate.nanos = 0 := by rw [hnext]; rfl
  obtain ⟨signature, hsignature, rfl⟩ := Signer.endorse_eq_ok_iff.1 hder
  obtain ⟨x, y, entries, hx, hy, hentries, rfl⟩ := part_eq_ok_parts hpart
  obtain ⟨_, hread⟩ := of_parse?_signed hf
  simp only [bind_eq_some_iff, within_eq_some_iff, pure_eq_some_iff, List.flatten_cons,
    List.flatten_nil] at hread
  obtain ⟨inner, _, ⟨⟨left, hsigned⟩, rfl⟩, _, _, halgorithm, found, _, hbits, rfl, -⟩ := hread
  rw [AlgorithmIdentifier.parser_signature] at halgorithm
  obtain ⟨rfl, rfl⟩ := Prod.mk.inj (Option.some.inj halgorithm)
  obtain ⟨rfl, -⟩ := of_bitsValue_bits hbits
  simp only [RevocationListForm.signedFields, bind_eq_some_iff, pure_eq_some_iff,
    List.flatten_append, List.flatten_cons, List.flatten_nil, List.append_nil,
    List.append_assoc, of_optionally (natBelow_version .tolerant _), Option.some.injEq,
    Prod.mk.injEq] at hsigned
  obtain ⟨_, _, ⟨rfl, rfl⟩, _, _, hinner, name, _, hname, this, _, hthisRead, next, _, hnextRead,
    listed, _, hlisted, extensions, _, hextensions, rfl, -⟩ := hsigned
  obtain rfl := AlgorithmIdentifier.of_parser hinner
  obtain ⟨hissuer, rfl⟩ := Name.of_parser_encode hname
  rw [Date.parser_encode? hthisNanos hx] at hthisRead
  obtain ⟨rfl, rfl⟩ := Prod.mk.inj (Option.some.inj hthisRead)
  rw [of_optionally (Date.parser_encode? hnextNanos hy .tolerant _)] at hnextRead
  obtain ⟨rfl, rfl⟩ := Prod.mk.inj (Option.some.inj hnextRead)
  obtain ⟨hrevoked, rfl, hshort⟩ := RevocationListForm.of_entries hwhole hentries
    (isNamed_listExtensions q s) hlisted hextensions
  exact {
    signed := ⟨q, hq, hpart⟩
    signature := hsignature
    algorithm := rfl
    issuerName := hissuer
    thisUpdate := hthis
    nextUpdate := congrArg some hnext
    revoked := hrevoked.trans hsettled
    extensions := viewOf_listExtensions hshort
    number := by rw [number?_listExtensions rfl hshort, number_dated hq] }

namespace RevocationListForm.Renders

variable {f f' : RevocationListForm} {p p' : RevocationListPlan} {issuer : Issuer} {s s' : Signer}

/-- The view of a list, by the plan it renders. -/
theorem info_eq (h : f.Renders p issuer s) :
    f.info = {
      artifact := .crl
      publicKey := ⟨.x509, keyFamily s.algorithm.oid, []⟩
      serialNumber := some p.number
      issuer := some f.issuer.view
      notBefore := some p.thisUpdate.wholeSecond
      notAfter := some p.nextUpdate.wholeSecond
      extensions := .ofList [(.authorityKeyIdentifier, ⟨false, .present⟩)]
      digest := s.algorithm.digest?
      revoked := p.revoked.map settledEntry } := by
  rw [RevocationListForm.info, h.number, h.thisUpdate, h.nextUpdate, h.revoked, h.extensions,
    h.algorithm, SignatureAlgorithm.identifier, SignatureAlgorithm.digestOfOid?_oid]

end RevocationListForm.Renders

end X509

/-! ## Differences -/

theorem RevocationsDiff.firstWith?_of_mem {rs : List Revocation}
    (hnodup : (rs.map (·.serialNumber)).Nodup) {e : Revocation} (he : e ∈ rs) :
    firstWith? e.serialNumber rs = some e := by
  induction rs with
  | nil => cases he
  | cons r rs ih =>
    rw [List.map_cons, List.nodup_cons] at hnodup
    rw [firstWith?, List.find?_cons]
    rcases List.mem_cons.1 he with rfl | he
    · rw [beq_self_eq_true]
    · have hne : (r.serialNumber == e.serialNumber) = false := by
        rw [beq_eq_false_iff_ne]
        intro heq
        exact hnodup.1 (List.mem_map.2 ⟨e, he, heq.symm⟩)
      rw [hne]
      exact ih hnodup.2 he

/-- A list of entries for different serial numbers does not differ from itself. -/
theorem RevocationsDiff.between_self {rs : List Revocation}
    (hnodup : (rs.map (·.serialNumber)).Nodup) : RevocationsDiff.between rs rs = none := by
  have hmissing : (rs.filter fun e => (firstWith? e.serialNumber rs).isNone) = [] := by
    rw [List.filter_eq_nil_iff]
    intro e he
    rw [firstWith?_of_mem hnodup he]
    exact nofun
  have hchanged : (rs.filter fun e =>
      (firstWith? e.serialNumber rs).any fun current => !current.sameEntry e) = [] := by
    rw [List.filter_eq_nil_iff]
    intro e he
    rw [firstWith?_of_mem hnodup he]
    simp [Revocation.sameEntry]
  simp only [between, RevocationsDiff.of, hmissing, hchanged, List.map_nil]
  rfl

end CertAuthority
