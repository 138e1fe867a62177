import CertAuthority.Proofs.X509.AlternativeNames
import CertAuthority.Proofs.X509.RequestedValues

/-!
# How usages are spelled

Key usages and purposes are requested by tokens: their names in any letter case, and for purposes
also their identifiers. Bits and identifiers are written for them and read back. What is drafted
names each of them once, in the order of its table, however they were spelled.

* `standsFor`, `namesFor` : what a token stands for, and the names of a list of tokens;
* `readUsage_eq_ok_iff`, `readPurpose_eq_ok_iff` : what single tokens are read as;
* `ExtensionPlan.HasRead` : a plan has what the tokens of a request are read as;
* `ShowsUsages` : among the extensions is one that is read as the names that tokens stand for;
* `get?_of_buildDraft`, `usages_shown_alike` : drafts of certificates and signing requests show
  these names, and nothing of how they were spelled.
-/

namespace CertAuthority

namespace X509

open Der

/-! ## Tokens -/

/-- The arcs of a token that is written as an identifier. -/
def arcs? (token : String) : Option (List Nat) :=
  if '.' ∈ token.toList then
    (Text.splitOnChar '.' token).mapM fun arc => Text.natBelow? (bitLimit 64) arc.toList
  else none

/-- The names of the usages that an extension of this kind is made of. -/
def usageNames : ExtensionKind → List String
  | .keyUsage => KeyUsage.all.map (·.name)
  | .extendedKeyUsage => Purpose.all.map (·.name)
  | _ => []

/-- The token is this name in any letter case or, for a purpose, the identifier of it. -/
def standsFor (k : ExtensionKind) (token name : String) : Bool :=
  Text.sameLetters name token ||
    k == .extendedKeyUsage && Purpose.all.any fun p => p.name == name && arcs? token == some p.oid

/-- The names that the tokens stand for, in the order of the table. -/
def namesFor (k : ExtensionKind) (tokens : List String) : List String :=
  (usageNames k).filter fun name => tokens.any (standsFor k · name)

theorem namesFor_congr {k : ExtensionKind} {tokens tokens' : List String}
    (h : ∀ name ∈ usageNames k,
      (∃ t ∈ tokens, standsFor k t name = true) ↔ ∃ t ∈ tokens', standsFor k t name = true) :
    namesFor k tokens = namesFor k tokens' := by
  refine List.filter_congr fun name hname => ?_
  rw [Bool.eq_iff_iff, List.any_eq_true, List.any_eq_true]
  exact h name hname

/-- Where at most one member of a table fits, it is the one that is found. -/
theorem find?_eq_some_iff_of_unique {α : Type} {q : α → Bool} {xs : List α} {a : α} (ha : a ∈ xs)
    (hunique : ∀ b ∈ xs, q a = true → q b = true → b = a) : xs.find? q = some a ↔ q a = true := by
  constructor
  · exact List.find?_some
  · intro hq
    obtain ⟨b, hb⟩ := Option.isSome_iff_exists.1 (List.find?_isSome.2 ⟨a, ha, hq⟩)
    rw [hb, hunique b (List.mem_of_find?_eq_some hb) hq (List.find?_some hb)]

theorem lower_eq_of_sameLetters {a b token : String} (ha : Text.sameLetters a token = true)
    (hb : Text.sameLetters b token = true) : Text.lower a = Text.lower b :=
  (beq_iff_eq.1 ha).trans (beq_iff_eq.1 hb).symm

theorem KeyUsage.eq_of_lower {u v : KeyUsage} (h : Text.lower u.name = Text.lower v.name) :
    u = v := by
  have hall : ∀ u ∈ all, ∀ v ∈ all, Text.lower u.name = Text.lower v.name → u = v := by decide
  exact hall u u.mem_all v v.mem_all h

theorem readUsage_eq_ok_iff (u : KeyUsage) (token : String) :
    readUsage token = .ok u ↔ Text.sameLetters u.name token = true := by
  have hfound : (KeyUsage.all.find? fun u => Text.sameLetters u.name token) = some u ↔
      Text.sameLetters u.name token = true :=
    find?_eq_some_iff_of_unique u.mem_all
      fun v _ hu hv => KeyUsage.eq_of_lower (lower_eq_of_sameLetters hv hu)
  rw [← hfound, readUsage]
  split
  · rename_i v hv
    rw [hv, Except.ok.injEq, Option.some.injEq]
  · rename_i hnone
    rw [hnone]
    exact ⟨nofun, nofun⟩

namespace Purpose

theorem eq_of_lower {p q : Purpose} (h : Text.lower p.name = Text.lower q.name) : p = q := by
  have hall : ∀ p ∈ all, ∀ q ∈ all, Text.lower p.name = Text.lower q.name → p = q := by decide
  exact hall p p.mem_all q q.mem_all h

theorem oid_inj {p q : Purpose} (h : p.oid = q.oid) : p = q := by
  have hall : ∀ p ∈ all, ∀ q ∈ all, p.oid = q.oid → p = q := by decide
  exact hall p p.mem_all q q.mem_all h

end Purpose

/-- A token that is a name has no dot and is not taken for an identifier. -/
theorem dot_notMem {p : Purpose} {token : String} (h : Text.sameLetters p.name token = true) :
    '.' ∉ token.toList := by
  intro hdot
  have hlower : '.' ∈ (Text.lower token).toList := by
    rw [Text.lower, String.toList_ofList]
    exact List.mem_map.2 ⟨'.', hdot, rfl⟩
  rw [← beq_iff_eq.1 h, Text.lower, String.toList_ofList] at hlower
  obtain ⟨c, hc, hcdot⟩ := List.mem_map.1 hlower
  exact p.dot_notMem_name (Text.eq_of_lowerChar_eq (by decide) hcdot ▸ hc)

theorem readPurpose_eq_ok_iff (p : Purpose) (token : String) :
    readPurpose token = .ok p.oid ↔
      Text.sameLetters p.name token = true ∨ arcs? token = some p.oid := by
  unfold readPurpose arcs?
  rw [String.contains_char_eq]
  by_cases hdot : '.' ∈ token.toList
  · have hname : ¬ Text.sameLetters p.name token = true := fun h => dot_notMem h hdot
    rw [if_pos (decide_eq_true hdot), if_pos hdot, or_iff_right hname]
    split
    · rename_i arcs harcs
      rw [harcs, Except.ok.injEq, Option.some.injEq]
    · rename_i hnone
      rw [hnone]
      exact ⟨nofun, nofun⟩
  · have hfound : (Purpose.all.find? fun p => Text.sameLetters p.name token) = some p ↔
        Text.sameLetters p.name token = true :=
      find?_eq_some_iff_of_unique p.mem_all
        fun q _ hp hq => Purpose.eq_of_lower (lower_eq_of_sameLetters hq hp)
    rw [if_neg (by simpa using hdot), if_neg hdot, ← hfound, or_iff_left nofun]
    split
    · rename_i q hq
      rw [hq, Except.ok.injEq, Option.some.injEq]
      exact ⟨Purpose.oid_inj, congrArg _⟩
    · rename_i hnone
      rw [hnone]
      exact ⟨nofun, nofun⟩

/-! ## What is read of tokens -/

theorem map_name_orderedUsages {tokens : List String} {us : List KeyUsage}
    (h : tokens.mapM readUsage = .ok us) :
    (orderedUsages us).map (·.name) = namesFor .keyUsage tokens := by
  have hstands (u : KeyUsage) (token : String) :
      standsFor .keyUsage token u.name = Text.sameLetters u.name token := by
    simp [standsFor]
  rw [namesFor, usageNames, List.filter_map, orderedUsages]
  refine congrArg _ (List.filter_congr fun u _ => ?_)
  rw [Bool.eq_iff_iff, List.contains_iff_mem, Outcome.mem_iff_of_mapM h, Function.comp_apply,
    List.any_eq_true]
  simp only [readUsage_eq_ok_iff, hstands]

theorem standsFor_purpose_iff (p : Purpose) (token : String) :
    standsFor .extendedKeyUsage token p.name = true ↔ readPurpose token = .ok p.oid := by
  rw [readPurpose_eq_ok_iff, standsFor, Bool.or_eq_true, beq_self_eq_true, Bool.true_and,
    List.any_eq_true]
  refine or_congr_right ⟨?_, fun h => ⟨p, p.mem_all, by simp [h]⟩⟩
  rintro ⟨q, -, hq⟩
  rw [Bool.and_eq_true, beq_iff_eq, beq_iff_eq] at hq
  rw [hq.2, Purpose.name_inj hq.1]

/-- Tokens that all stand for named purposes are read as these. -/
theorem purposeTokens_eq {tokens : List String} {os : List (List Nat)}
    (h : tokens.mapM readPurpose = .ok os) (hnamed : ∀ o ∈ os, ∃ p : Purpose, o = p.oid) :
    purposeTokens os = namesFor .extendedKeyUsage tokens := by
  have hothers : otherPurposes os = [] := by
    rw [otherPurposes, List.filter_eq_nil_iff]
    intro o ho
    obtain ⟨p, rfl⟩ := hnamed o (mem_distinct.1 ho)
    simp [List.mem_map_of_mem p.mem_all]
  rw [purposeTokens, hothers, List.map_nil, List.append_nil, namesFor, usageNames, List.filter_map]
  refine congrArg _ (List.filter_congr fun p _ => ?_)
  rw [Bool.eq_iff_iff, List.contains_iff_mem, mem_distinct, Outcome.mem_iff_of_mapM h,
    Function.comp_apply, List.any_eq_true]
  simp only [standsFor_purpose_iff]

/-! ## Requests -/

/-- The request asks for usages by these tokens. For purposes, all of them have a name. -/
structure AsksUsages (k : ExtensionKind) (r : CertificateRequest) (tokens : List String) :
    Prop where
  kind : k = .keyUsage ∨ k = .extendedKeyUsage
  value : ∃ v, r.extensions.get? k = some v ∧ v.value.tokens? = some tokens
  nonempty : tokens ≠ []
  named : k = .extendedKeyUsage → ∀ t ∈ tokens, ∃ name ∈ usageNames k, standsFor k t name = true

namespace ExtensionPlan

variable {p p' : ExtensionPlan} {k : ExtensionKind} {v : ExtensionValue} {tokens : List String}
  {es : List Extension}

/-- The plan has what the tokens are read as. -/
def HasRead (p : ExtensionPlan) (k : ExtensionKind) (tokens : List String) : Prop :=
  match k with
  | .keyUsage => tokens.mapM readUsage = .ok p.keyUsages
  | .extendedKeyUsage => tokens.mapM readPurpose = .ok p.purposes
  | _ => False

theorem hasRead_of_add (h : p.add (k, v) = .ok p') (hk : k = .keyUsage ∨ k = .extendedKeyUsage)
    (ht : v.value.tokens? = some tokens) : p'.HasRead k tokens := by
  obtain ⟨tokens', htokens, h⟩ := Outcome.bind_eq_ok_iff.1 h
  have hsection : k.section? = none := by rcases hk with rfl | rfl <;> rfl
  obtain rfl := Except.ok.inj ((valueTokens_eq_ok hsection ht).symm.trans htokens)
  rcases hk with rfl | rfl
  all_goals
    obtain ⟨read, hread, h⟩ := Outcome.bind_eq_ok_iff.1 h
    rw [← Except.ok.inj h]
    exact hread

/-- Usages and purposes are set by extensions of their own kind only. -/
theorem usages_of_add {e : ExtensionKind × ExtensionValue} (h : p.add e = .ok p') :
    (e.1 ≠ .keyUsage → p'.keyUsages = p.keyUsages) ∧
      (e.1 ≠ .extendedKeyUsage → p'.purposes = p.purposes) := by
  obtain ⟨requested, v⟩ := e
  obtain ⟨tokens, -, h⟩ := Outcome.bind_eq_ok_iff.1 h
  cases requested with
  | subjectKeyIdentifier | authorityKeyIdentifier | noCheck =>
    rw [← Except.ok.inj h]
    exact ⟨fun _ => rfl, fun _ => rfl⟩
  | keyUsage =>
    obtain ⟨read, -, h⟩ := Outcome.bind_eq_ok_iff.1 h
    rw [← Except.ok.inj h]
    exact ⟨fun hne => absurd rfl hne, fun _ => rfl⟩
  | extendedKeyUsage =>
    obtain ⟨read, -, h⟩ := Outcome.bind_eq_ok_iff.1 h
    rw [← Except.ok.inj h]
    exact ⟨fun _ => rfl, fun hne => absurd rfl hne⟩
  | basicConstraints | subjectAltName | crlDistributionPoints | nameConstraints | nsComment =>
    obtain ⟨read, -, h⟩ := Outcome.bind_eq_ok_iff.1 h
    rw [← Except.ok.inj h]
    exact ⟨fun _ => rfl, fun _ => rfl⟩
  | _ => cases h

theorem HasRead.add {e : ExtensionKind × ExtensionValue} (hp : p.HasRead k tokens)
    (h : p.add e = .ok p') (hne : e.1 ≠ k) : p'.HasRead k tokens := by
  obtain ⟨husages, hpurposes⟩ := usages_of_add h
  unfold HasRead at hp ⊢
  split
  · rw [husages hne]
    exact hp
  · rw [hpurposes hne]
    exact hp
  · split at hp <;> contradiction

/-- The one extension of a kind is read, and those of other kinds leave what it is read as. -/
theorem hasRead_of_foldlM {entries : List (ExtensionKind × ExtensionValue)}
    (h : entries.foldlM add p = .ok p') (honce : (entries.map (·.1)).Nodup)
    (hv : (k, v) ∈ entries) (hk : k = .keyUsage ∨ k = .extendedKeyUsage)
    (ht : v.value.tokens? = some tokens) : p'.HasRead k tokens := by
  induction entries generalizing p with
  | nil => cases hv
  | cons e entries ih =>
    rw [List.foldlM_cons, Outcome.bind_eq_ok_iff] at h
    obtain ⟨next, hnext, hrest⟩ := h
    rw [List.map_cons, List.nodup_cons] at honce
    rcases List.mem_cons.1 hv with rfl | hv
    · refine Outcome.of_foldlM (P := fun q => HasRead q k tokens) (fun e he q q' hq hadd => ?_)
        (hasRead_of_add hnext hk ht) hrest
      exact hq.add hadd fun heq => honce.1 (List.mem_map.2 ⟨e, he, heq⟩)
    · exact ih hrest honce.2 hv

theorem hasRead_of_ofRequest {r : CertificateRequest} (h : ofRequest r.extensions = .ok p)
    (hr : AsksUsages k r tokens) : p.HasRead k tokens := by
  obtain ⟨v, hv, ht⟩ := hr.value
  exact hasRead_of_foldlM h (ExtensionSet.nodup_toList _) (ExtensionSet.mem_toList_iff.2 hv) hr.kind
    ht

/-! ## What is written and read back -/

/-- The extension that a plan has for its usages. -/
def usageExtension (p : ExtensionPlan) : ExtensionKind → BackendResult (List Extension)
  | .keyUsage => .ok p.keyUsageExtension
  | .extendedKeyUsage => p.purposeExtension
  | _ => .ok []

end ExtensionPlan

/-- The list has an extension of this kind, with the flag of the kind, that is read as the names
which the tokens stand for. -/
def ShowsUsages (k : ExtensionKind) (tokens : List String) (es : List Extension) : Prop :=
  ∃ value, extensionFor? k es = some (extension k (k == .keyUsage) value) ∧
    readValue? k value = some (.ofTokens (namesFor k tokens))

variable {p : ExtensionPlan} {k : ExtensionKind} {tokens : List String} {es part : List Extension}
  {r : CertificateRequest}

theorem exists_oid_of_mapM {os : List (List Nat)} (h : tokens.mapM readPurpose = .ok os)
    (hnamed : ∀ t ∈ tokens, ∃ name ∈ usageNames .extendedKeyUsage,
      standsFor .extendedKeyUsage t name = true) : ∀ o ∈ os, ∃ p : Purpose, o = p.oid := by
  intro o ho
  obtain ⟨t, ht, hread⟩ := (Outcome.mem_iff_of_mapM h o).1 ho
  obtain ⟨name, hname, hstands⟩ := hnamed t ht
  obtain ⟨p, -, rfl⟩ := List.mem_map.1 hname
  rw [(standsFor_purpose_iff p t).1 hstands] at hread
  exact ⟨p, (Except.ok.inj hread).symm⟩

/-- The identifiers of named purposes are read as they were written. -/
theorem map_arcsOfContent?_eq {os : List (List Nat)} (h : ∀ o ∈ os, ∃ p : Purpose, o = p.oid) :
    (os.map fun o => (arcsOfContent? (oidContent o)).getD []) = os := by
  have hread : ∀ p ∈ Purpose.all, (arcsOfContent? (oidContent p.oid)).getD [] = p.oid := by
    decide +kernel
  refine (List.map_congr_left fun o ho => ?_).trans (List.map_id os)
  obtain ⟨p, rfl⟩ := h o ho
  exact hread p p.mem_all

theorem showsUsages_of_usageExtension (hp : p.HasRead k tokens) (hr : AsksUsages k r tokens)
    (h : p.usageExtension k = .ok part) (hes : extensionFor? k es = part.head?)
    (hshort : ∀ e ∈ es, e.value.length < bitLimit 64) : ShowsUsages k tokens es := by
  unfold ShowsUsages
  rcases hr.kind with rfl | rfl
  · have husages : tokens.mapM readUsage = .ok p.keyUsages := hp
    have hne : ¬ p.keyUsages.isEmpty := by simp [Outcome.ne_nil_of_mapM husages hr.nonempty]
    have hpart : p.keyUsageExtension = part := Except.ok.inj h
    rw [hes, ← hpart, ExtensionPlan.keyUsageExtension, if_neg hne]
    refine ⟨_, rfl, ?_⟩
    rw [readValue?_usageBits, map_name_orderedUsages husages]
  · have hpurposes : tokens.mapM readPurpose = .ok p.purposes := hp
    have hne : ¬ p.purposes.isEmpty := by simp [Outcome.ne_nil_of_mapM hpurposes hr.nonempty]
    have hoids := exists_oid_of_mapM hpurposes (hr.named rfl)
    have hpart : p.purposeExtension = .ok part := h
    rw [ExtensionPlan.purposeExtension, if_neg hne] at hpart
    obtain ⟨values, hvalues, hpart⟩ := Outcome.bind_eq_ok_iff.1 hpart
    obtain rfl := Except.ok.inj hpart
    have hl : (seqOf values).length < bitLimit 64 :=
      hshort _ (kindOfOid?_of_extensionFor? hes).1
    refine ⟨_, hes, ?_⟩
    rw [readValue?_extendedKeyUsage, purposes?_seqOf hvalues hl, map_arcsOfContent?_eq hoids,
      Option.map_some, purposeTokens_eq hpurposes hoids]

/-- The extensions of a certificate. -/
theorem showsUsages_extensions {c : ExtensionContext} (hp : p.HasRead k tokens)
    (hr : AsksUsages k r tokens) (h : p.extensions c = .ok es)
    (hshort : ∀ e ∈ es, e.value.length < bitLimit 64) :
    ShowsUsages k tokens es ∧ (es.map (·.oid)).Nodup := by
  obtain ⟨purposes, _, _, hpurposes, hparts⟩ := ExtensionPlan.parted_extensions h
  refine ⟨?_, hparts.nodup_oids⟩
  rcases hr.kind with rfl | rfl
  · exact showsUsages_of_usageExtension hp hr rfl (hparts.extensionFor?_eq _) hshort
  · exact showsUsages_of_usageExtension hp hr hpurposes (hparts.extensionFor?_eq _) hshort

/-- What a signing request asks for. -/
theorem showsUsages_requested {subjectIsEmpty : Bool} {key : SubjectKey}
    (hp : p.HasRead k tokens) (hr : AsksUsages k r tokens)
    (h : p.requested subjectIsEmpty key = .ok es)
    (hshort : ∀ e ∈ es, e.value.length < bitLimit 64) :
    ShowsUsages k tokens es ∧ (es.map (·.oid)).Nodup := by
  obtain ⟨purposes, hpurposes, hparts⟩ := ExtensionPlan.parted_requested h
  refine ⟨?_, hparts.nodup_oids⟩
  rcases hr.kind with rfl | rfl
  · exact showsUsages_of_usageExtension hp hr rfl (hparts.extensionFor?_eq _) hshort
  · exact showsUsages_of_usageExtension hp hr hpurposes (hparts.extensionFor?_eq _) hshort

/-! ## Drafts -/

/-- The value that a draft shows for usages. -/
def usagesValue (k : ExtensionKind) (tokens : List String) : ExtensionValue :=
  ⟨k == .keyUsage, .ofTokens (namesFor k tokens)⟩

theorem ShowsUsages.get?_viewOf (h : ShowsUsages k tokens es) (hr : AsksUsages k r tokens)
    (honce : (es.map (·.oid)).Nodup) : (viewOf es).get? k = some (usagesValue k tokens) := by
  obtain ⟨value, he, hread⟩ := h
  have hvalue : canonicalValue k value = .ofTokens (namesFor k tokens) := by
    rcases hr.kind with rfl | rfl
    all_goals
      change (readValue? _ value).getD _ = _
      rw [hread, Option.getD_some]
  rw [X509.get?_viewOf honce, he, Option.map_some]
  exact congrArg (fun v => some (ExtensionValue.mk _ v)) hvalue

/-- The flags of usages do not depend on the subject. -/
theorem ShowsUsages.get?_requestedViewOf (h : ShowsUsages k tokens es) (hr : AsksUsages k r tokens)
    (honce : (es.map (·.oid)).Nodup) (subjectIsEmpty : Bool) :
    (requestedViewOf es subjectIsEmpty).get? k = some (usagesValue k tokens) := by
  obtain ⟨value, he, hread⟩ := h
  have hvalue : requestedValue? k value = some (.ofTokens (namesFor k tokens)) := by
    rcases hr.kind with rfl | rfl
    all_goals exact hread
  have hcritical : impliedCritical subjectIsEmpty k = (k == .keyUsage) := by
    rcases hr.kind with rfl | rfl
    all_goals rfl
  rw [X509.get?_requestedViewOf honce, he, Option.bind_some]
  change (requestedValue? k value).map _ = _
  rw [hvalue, Option.map_some, hcritical]
  rfl

variable {m m' : Moment} {artifact artifact' : ArtifactKind} {r' : CertificateRequest}
  {subject subject' : PublicKey} {signer signer' : SignerIdentity} {d d' : Draft}
  {tokens' : List String}

theorem get?_of_buildDraft (hr : AsksUsages k r tokens)
    (hd : buildDraft m artifact r subject signer = .ok d) :
    d.info.extensions.get? k = some (usagesValue k tokens) := by
  cases artifact with
  | certificate =>
    obtain ⟨_, _, _, _, p, _, f, info, -, -, hp, -, hrenders, hinfo, rfl⟩ :=
      renders_of_buildDraft_certificate hd
    obtain rfl := Except.ok.inj (hrenders.info_eq.symm.trans hinfo)
    have hread := ExtensionPlan.hasRead_of_ofRequest (CertificatePlan.extensions_ofRequest hp) hr
    obtain ⟨hshows, honce⟩ := showsUsages_extensions hread hr hrenders.extensions hrenders.short
    exact hshows.get?_viewOf hr honce
  | csr =>
    obtain ⟨_, _, p, f, info, -, -, hp, hrenders, hinfo, rfl⟩ := renders_of_buildDraft_request hd
    obtain rfl := Except.ok.inj (hrenders.info_eq.symm.trans hinfo)
    have hread := ExtensionPlan.hasRead_of_ofRequest (CertificatePlan.extensions_ofRequest hp) hr
    obtain ⟨hextensions, hshort⟩ := hrenders.requested
    obtain ⟨hshows, honce⟩ := showsUsages_requested hread hr hextensions hshort
    exact hshows.get?_requestedViewOf hr honce _
  | crl =>
    -- A revocation list is refused any requested extension but the identifier of its signer's key.
    obtain ⟨v, hv, -⟩ := hr.value
    have hne : k ≠ .authorityKeyIdentifier := by
      rcases hr.kind with rfl | rfl
      all_goals exact nofun
    simp only [buildDraft, render, Outcome.bind_eq_ok_iff] at hd
    obtain ⟨_, -, _, -, _, ⟨_, hcheck, -⟩, -⟩ := hd
    exact absurd hcheck (checkListExtensions_ne_ok hne (Option.isSome_iff_exists.2 ⟨v, hv⟩))

/-- **How usages are spelled does not matter.** Take drafts of certificates or signing requests, for
any requests whose tokens for key usages, or for purposes that all have a name, stand for the same
names. They show the same value for these: each of the names once, in the order of the table. -/
theorem usages_shown_alike (hr : AsksUsages k r tokens) (hr' : AsksUsages k r' tokens')
    (hsame : ∀ name ∈ usageNames k,
      (∃ t ∈ tokens, standsFor k t name = true) ↔ ∃ t ∈ tokens', standsFor k t name = true)
    (hd : buildDraft m artifact r subject signer = .ok d)
    (hd' : buildDraft m' artifact' r' subject' signer' = .ok d') :
    d.info.extensions.get? k = d'.info.extensions.get? k ∧
      d.info.extensions.get? k = some ⟨k == .keyUsage, .ofTokens (namesFor k tokens)⟩ := by
  have hshown := get?_of_buildDraft hr hd
  have hshown' := get?_of_buildDraft hr' hd'
  rw [usagesValue, ← namesFor_congr hsame] at hshown'
  exact ⟨hshown.trans hshown'.symm, hshown⟩

def usageRequest (usages purposes : AttributeValue) : CertificateRequest :=
  { houseRequest with
    extensions := (ExtensionSet.empty.insert .keyUsage ⟨false, usages⟩).insert .extendedKeyUsage
      ⟨false, purposes⟩ }

def plainRequest : CertificateRequest :=
  usageRequest (.text "digitalSignature,cRLSign") (.text "serverAuth,clientAuth")

/-- The same in another order, with repetitions, other letters and an identifier. -/
def fancyRequest : CertificateRequest :=
  usageRequest (.list [.text "crlsign", .text "DIGITALSIGNATURE", .text "CRLSign"])
    (.list [.text "ClientAuth", .text "1.3.6.1.5.5.7.3.1", .text "ServerAUTH"])

theorem asksUsages_plain :
    AsksUsages .keyUsage plainRequest ["digitalSignature", "cRLSign"] ∧
      AsksUsages .extendedKeyUsage plainRequest ["serverAuth", "clientAuth"] := by
  refine ⟨⟨.inl rfl, ⟨_, rfl, by decide⟩, nofun, nofun⟩, ⟨.inr rfl, ⟨_, rfl, by decide⟩, nofun, ?_⟩⟩
  intro _
  decide

theorem asksUsages_fancy :
    AsksUsages .keyUsage fancyRequest ["crlsign", "DIGITALSIGNATURE", "CRLSign"] ∧
      AsksUsages .extendedKeyUsage fancyRequest
        ["ClientAuth", "1.3.6.1.5.5.7.3.1", "ServerAUTH"] := by
  refine ⟨⟨.inl rfl, ⟨_, rfl, by decide⟩, nofun, nofun⟩, ⟨.inr rfl, ⟨_, rfl, by decide⟩, nofun, ?_⟩⟩
  intro _
  decide

theorem ofRequest_usageRequest {usages purposes : AttributeValue} {us : List KeyUsage}
    {os : List (List Nat)} (ht : usages.tokens? = some tokens)
    (hu : tokens.mapM readUsage = .ok us) (ht' : purposes.tokens? = some tokens')
    (ho : tokens'.mapM readPurpose = .ok os) :
    ExtensionPlan.ofRequest (usageRequest usages purposes).extensions =
      .ok { keyUsages := us, purposes := os } := by
  have hentries : (usageRequest usages purposes).extensions.toList =
      [(.keyUsage, ⟨false, usages⟩), (.extendedKeyUsage, ⟨false, purposes⟩)] := rfl
  have husages : ExtensionPlan.add {} (.keyUsage, ⟨false, usages⟩) = .ok { keyUsages := us } :=
    Outcome.bind_eq_ok_iff.2 ⟨tokens, valueTokens_eq_ok rfl ht,
      Outcome.bind_eq_ok_iff.2 ⟨us, hu, rfl⟩⟩
  have hpurposes : ExtensionPlan.add { keyUsages := us } (.extendedKeyUsage, ⟨false, purposes⟩) =
      .ok { keyUsages := us, purposes := os } :=
    Outcome.bind_eq_ok_iff.2 ⟨tokens', valueTokens_eq_ok rfl ht',
      Outcome.bind_eq_ok_iff.2 ⟨os, ho, rfl⟩⟩
  rw [ExtensionPlan.ofRequest, hentries, List.foldlM_cons, Outcome.bind_eq_ok_iff]
  refine ⟨_, husages, ?_⟩
  rw [List.foldlM_cons, Outcome.bind_eq_ok_iff]
  exact ⟨_, hpurposes, rfl⟩

theorem exists_plainDraft : ∃ d,
    buildDraft ⟨.ofSeconds 0, []⟩ .certificate plainRequest serviceKey ⟨serviceKey, none⟩ =
      .ok d := by
  have hserver := (readPurpose_eq_ok_iff .serverAuth "serverAuth").2 (by decide)
  have hclient := (readPurpose_eq_ok_iff .clientAuth "clientAuth").2 (by decide)
  have hread : ["serverAuth", "clientAuth"].mapM readPurpose =
      .ok [Purpose.serverAuth.oid, Purpose.clientAuth.oid] := by
    rw [List.mapM_cons, List.mapM_cons, hserver, hclient]
    rfl
  have husages : ["digitalSignature", "cRLSign"].mapM readUsage =
      .ok [.digitalSignature, .crlSign] := rfl
  have hplan : ExtensionPlan.ofRequest plainRequest.extensions = _ :=
    ofRequest_usageRequest rfl husages rfl hread
  refine Outcome.exists_eq_ok_of_isOk ?_
  simp only [buildDraft, render, CertificatePlan.ofRequest, hplan]
  decide +kernel

theorem exists_fancyDraft : ∃ d,
    buildDraft ⟨.ofSeconds 60, [1]⟩ .csr fancyRequest serviceKey ⟨serviceKey, none⟩ = .ok d := by
  have hclient := (readPurpose_eq_ok_iff .clientAuth "ClientAuth").2 (by decide)
  have hserver := (readPurpose_eq_ok_iff .serverAuth "1.3.6.1.5.5.7.3.1").2 (by decide)
  have hserver' := (readPurpose_eq_ok_iff .serverAuth "ServerAUTH").2 (by decide)
  have hread : ["ClientAuth", "1.3.6.1.5.5.7.3.1", "ServerAUTH"].mapM readPurpose =
      .ok [Purpose.clientAuth.oid, Purpose.serverAuth.oid, Purpose.serverAuth.oid] := by
    rw [List.mapM_cons, List.mapM_cons, List.mapM_cons, hclient, hserver, hserver']
    rfl
  have husages : ["crlsign", "DIGITALSIGNATURE", "CRLSign"].mapM readUsage =
      .ok [.crlSign, .digitalSignature, .crlSign] := rfl
  have hplan : ExtensionPlan.ofRequest fancyRequest.extensions = _ :=
    ofRequest_usageRequest rfl husages rfl hread
  refine Outcome.exists_eq_ok_of_isOk ?_
  simp only [buildDraft, render, CertificatePlan.ofRequest, hplan]
  decide +kernel

/-- A certificate and a signing request, whose tokens differ in order, letters and number. -/
theorem usages_shown_alike_fancy : ∃ d d',
    buildDraft ⟨.ofSeconds 0, []⟩ .certificate plainRequest serviceKey ⟨serviceKey, none⟩ = .ok d ∧
    buildDraft ⟨.ofSeconds 60, [1]⟩ .csr fancyRequest serviceKey ⟨serviceKey, none⟩ = .ok d' ∧
    d.info.extensions.get? .keyUsage = d'.info.extensions.get? .keyUsage ∧
    d.info.extensions.get? .extendedKeyUsage = d'.info.extensions.get? .extendedKeyUsage ∧
    d'.info.extensions.get? .extendedKeyUsage =
      some ⟨false, .list [.text "serverAuth", .text "clientAuth"]⟩ := by
  obtain ⟨d, hd⟩ := exists_plainDraft
  obtain ⟨d', hd'⟩ := exists_fancyDraft
  obtain ⟨husages, -⟩ :=
    usages_shown_alike asksUsages_plain.1 asksUsages_fancy.1 (by decide) hd hd'
  obtain ⟨hpurposes, hvalue⟩ :=
    usages_shown_alike asksUsages_plain.2 asksUsages_fancy.2 (by decide) hd hd'
  refine ⟨d, d', hd, hd', husages, hpurposes, ?_⟩
  rw [← hpurposes, hvalue]
  decide

end X509
end CertAuthority
