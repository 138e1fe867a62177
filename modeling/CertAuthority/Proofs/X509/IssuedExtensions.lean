import CertAuthority.Proofs.Merge.Extensions
import CertAuthority.Proofs.X509.Redrafts

/-!
# Which extensions a certificate gets

A certificate has an extension only for what its request has, but for the subject key identifier that
comes with basic constraints. So the allow-list of a policy reaches the certificate. The flag of an
extension is another matter: it follows from the kind, whatever flag was requested or forced.

* `ExtensionPlan.Holds` : a plan has something for a kind;
* `ExtensionPlan.writes_extensions` : all that is written is for such a kind, with its own flag;
* `ExtensionPlan.holds_of_ofRequest` : where a plan has it from;
* `of_extensions_buildDraft` : both, for the view of a draft;
* `allow_list_reaches_certificate`, `flag_follows_kind` : what policies make of it.
-/

namespace CertAuthority.X509

open Der

theorem kindOfOid?_extension {k : ExtensionKind} (hk : (extensionOid? k).isSome = true)
    (critical : Bool) (value : Bytes) : kindOfOid? (extension k critical value).oid = some k := by
  have hkind : (extensionOid? k).isSome = true →
      kindOfOid? ((extensionOid? k).getD []) = some k := by
    cases k <;> decide
  exact hkind hk

/-- What is in a view was written for its kind. -/
theorem exists_of_get?_viewOf {es : List Extension} {k : ExtensionKind} {v : ExtensionValue}
    (h : (viewOf es).get? k = some v) :
    ∃ e ∈ es, kindOfOid? e.oid = some k ∧ v = ⟨e.critical, canonicalValue k e.value⟩ := by
  have hmem := ExtensionSet.mem_of_get?_ofList h
  obtain ⟨e, he, hviewed⟩ := List.mem_filterMap.1 hmem
  obtain ⟨j, hj, hvalue⟩ := Option.bind_eq_some_iff.1 hviewed
  obtain ⟨rfl, rfl⟩ := Prod.mk.inj (Option.some.inj hvalue)
  exact ⟨e, he, hj, rfl⟩

namespace ExtensionPlan

variable {p p' : ExtensionPlan} {k : ExtensionKind} {es : List Extension}

/-! ## What a plan writes -/

/-- The plan has something for this kind. Basic constraints count for the subject key identifier. -/
def Holds (p : ExtensionPlan) : ExtensionKind → Prop
  | .basicConstraints => p.role ≠ .unstated
  | .keyUsage => p.keyUsages ≠ []
  | .extendedKeyUsage => p.purposes ≠ []
  | .subjectKeyIdentifier => p.subjectKeyIdentifier = true ∨ p.role ≠ .unstated
  | .authorityKeyIdentifier => p.authorityKeyIdentifier = true
  | .subjectAltName => p.alternativeNames ≠ []
  | .crlDistributionPoints => p.distributionPoints ≠ []
  | .nameConstraints => p.nameConstraints.isSome = true
  | .noCheck => p.noCheck = true
  | .nsComment => p.comment.isSome = true
  | _ => False

theorem isSome_of_holds (h : p.Holds k) : (extensionOid? k).isSome = true := by
  cases k <;> first | rfl | exact h.elim

/-- The extension is of a kind that the plan has something for, and has the flag of its kind. -/
def Writes (p : ExtensionPlan) (subjectIsEmpty : Bool) (e : Extension) : Prop :=
  ∃ k value, p.Holds k ∧ e = extension k (impliedCritical subjectIsEmpty k) value

variable {subjectIsEmpty : Bool}

theorem writes_singleton (hk : p.Holds k) (value : Bytes) :
    ∀ e ∈ [extension k (impliedCritical subjectIsEmpty k) value], p.Writes subjectIsEmpty e :=
  List.forall_mem_singleton.2 ⟨k, value, hk, rfl⟩

theorem writes_keyUsageExtension (p : ExtensionPlan) :
    ∀ e ∈ p.keyUsageExtension, p.Writes subjectIsEmpty e := by
  unfold keyUsageExtension
  split
  · exact List.forall_mem_nil _
  · rename_i hsome
    have hk : p.Holds .keyUsage := fun hnil => hsome (List.isEmpty_iff.2 hnil)
    exact writes_singleton hk _

theorem writes_alternativeNameExtension (p : ExtensionPlan) :
    ∀ e ∈ p.alternativeNameExtension subjectIsEmpty, p.Writes subjectIsEmpty e := by
  unfold alternativeNameExtension
  split
  · exact List.forall_mem_nil _
  · rename_i hsome
    have hk : p.Holds .subjectAltName := fun hnil => hsome (List.isEmpty_iff.2 hnil)
    exact writes_singleton hk _

theorem writes_purposeExtension (h : p.purposeExtension = .ok es) :
    ∀ e ∈ es, p.Writes subjectIsEmpty e := by
  unfold purposeExtension at h
  split at h
  · rw [← Except.ok.inj h]
    exact List.forall_mem_nil _
  · rename_i hsome
    obtain ⟨values, -, h⟩ := Outcome.bind_eq_ok_iff.1 h
    have hk : p.Holds .extendedKeyUsage := fun hnil => hsome (List.isEmpty_iff.2 hnil)
    rw [← Except.ok.inj h]
    exact writes_singleton hk _

theorem writes_constraintsExtension (h : p.constraintsExtension = .ok es) :
    ∀ e ∈ es, p.Writes subjectIsEmpty e := by
  unfold constraintsExtension at h
  split at h
  · rw [← Except.ok.inj h]
    exact List.forall_mem_nil _
  · rename_i c hc
    split at h
    · rw [← Except.ok.inj h]
      exact List.forall_mem_nil _
    · obtain ⟨permitted, -, h⟩ := Outcome.bind_eq_ok_iff.1 h
      obtain ⟨excluded, -, h⟩ := Outcome.bind_eq_ok_iff.1 h
      have hk : p.Holds .nameConstraints := Option.isSome_iff_exists.2 ⟨c, hc⟩
      rw [← Except.ok.inj h]
      exact writes_singleton hk _

theorem writes_pointsExtension (h : p.pointsExtension = .ok es) :
    ∀ e ∈ es, p.Writes subjectIsEmpty e := by
  unfold pointsExtension at h
  split at h
  · rw [← Except.ok.inj h]
    exact List.forall_mem_nil _
  · rename_i hsome
    obtain ⟨values, -, h⟩ := Outcome.bind_eq_ok_iff.1 h
    have hk : p.Holds .crlDistributionPoints := fun hnil => hsome (List.isEmpty_iff.2 hnil)
    rw [← Except.ok.inj h]
    exact writes_singleton hk _

theorem writes_basicConstraintsExtension (p : ExtensionPlan) :
    ∀ e ∈ p.basicConstraintsExtension, p.Writes subjectIsEmpty e := by
  unfold basicConstraintsExtension
  split
  · exact List.forall_mem_nil _
  · rename_i hrole
    have hk : p.Holds .basicConstraints := fun hnone => by rw [hrole] at hnone; cases hnone
    exact writes_singleton hk _
  · rename_i n hrole
    have hk : p.Holds .basicConstraints := fun hnone => by rw [hrole] at hnone; cases hnone
    exact writes_singleton hk _

theorem writes_closingExtensions (p : ExtensionPlan) (subject : SubjectKey) :
    ∀ e ∈ p.closingExtensions subject, p.Writes subjectIsEmpty e := by
  unfold closingExtensions
  rw [List.forall_mem_append, List.forall_mem_append]
  refine ⟨⟨?_, ?_⟩, ?_⟩
  · split
    · rename_i hno
      have hk : p.Holds .noCheck := hno
      exact writes_singleton hk _
    · exact List.forall_mem_nil _
  · cases hcomment : p.comment with
    | none => exact List.forall_mem_nil _
    | some comment =>
      have hk : p.Holds .nsComment := Option.isSome_iff_exists.2 ⟨comment, hcomment⟩
      exact writes_singleton hk _
  · split
    · rename_i hidentifier
      have hk : p.Holds .subjectKeyIdentifier := .inl hidentifier.1
      exact writes_singleton hk _
    · exact List.forall_mem_nil _

/-- All that is written is for a kind that the plan has something for. -/
theorem writes_extensions {c : ExtensionContext} (h : p.extensions c = .ok es) :
    ∀ e ∈ es, p.Writes c.subjectIsEmpty e := by
  obtain ⟨purposes, hpurposes, h⟩ := Outcome.bind_eq_ok_iff.1 h
  obtain ⟨constraints, hconstraints, h⟩ := Outcome.bind_eq_ok_iff.1 h
  obtain ⟨points, hpoints, h⟩ := Outcome.bind_eq_ok_iff.1 h
  rw [← Except.ok.inj h]
  simp only [List.forall_mem_append]
  refine ⟨⟨⟨⟨⟨⟨⟨⟨?_, ?_⟩, ?_⟩, ?_⟩, ?_⟩, ?_⟩, ?_⟩, ?_⟩, ?_⟩
  · split
    · rename_i hnamed
      have hk : p.Holds .authorityKeyIdentifier := hnamed
      exact writes_singleton hk _
    · exact List.forall_mem_nil _
  · exact p.writes_alternativeNameExtension
  · exact p.writes_keyUsageExtension
  · exact writes_purposeExtension hpurposes
  · exact writes_constraintsExtension hconstraints
  · exact writes_pointsExtension hpoints
  · split
    · exact List.forall_mem_nil _
    · rename_i hrole
      have hk : p.Holds .subjectKeyIdentifier := .inr hrole
      exact writes_singleton hk _
  · exact p.writes_basicConstraintsExtension
  · exact p.writes_closingExtensions c.subject

/-! ## Where a plan has it from -/

/-- A requested extension makes for one of this kind. -/
def Grants (requested k : ExtensionKind) : Prop :=
  k = requested ∨ k = .subjectKeyIdentifier ∧ requested = .basicConstraints

/-- One requested extension adds something for the kinds it makes for and no others. -/
theorem holds_of_add {e : ExtensionKind × ExtensionValue} (h : p.add e = .ok p')
    (hk : p'.Holds k) : p.Holds k ∨ Grants e.1 k := by
  obtain ⟨requested, v⟩ := e
  obtain ⟨tokens, -, h⟩ := Outcome.bind_eq_ok_iff.1 h
  cases requested with
  | basicConstraints =>
    obtain ⟨role, -, h⟩ := Outcome.bind_eq_ok_iff.1 h
    rw [← Except.ok.inj h] at hk
    cases k with
    | basicConstraints => exact .inr (.inl rfl)
    | subjectKeyIdentifier => exact .inr (.inr ⟨rfl, rfl⟩)
    | _ => exact .inl hk
  | subjectKeyIdentifier | authorityKeyIdentifier | noCheck =>
    rw [← Except.ok.inj h] at hk
    cases k <;> first | exact .inr (.inl rfl) | exact .inl hk
  | keyUsage | extendedKeyUsage | subjectAltName | crlDistributionPoints | nameConstraints
  | nsComment =>
    obtain ⟨read, -, h⟩ := Outcome.bind_eq_ok_iff.1 h
    rw [← Except.ok.inj h] at hk
    cases k <;> first | exact .inr (.inl rfl) | exact .inl hk
  | _ => cases h

theorem holds_of_foldlM_add {entries : List (ExtensionKind × ExtensionValue)}
    (h : entries.foldlM add p = .ok p') (hk : p'.Holds k) :
    p.Holds k ∨ ∃ e ∈ entries, Grants e.1 k := by
  have hfold : p'.Holds k → p.Holds k ∨ ∃ e ∈ entries, Grants e.1 k :=
    Outcome.of_foldlM (P := fun q : ExtensionPlan => q.Holds k → _)
      (fun e he _ _ hq hadd hk =>
        (holds_of_add hadd hk).elim hq fun hgrants => .inr ⟨e, he, hgrants⟩)
      .inl h
  exact hfold hk

/-- A plan has something only for what is requested, and for what comes with that. -/
theorem holds_of_ofRequest {s : ExtensionSet} (h : ofRequest s = .ok p) (hk : p.Holds k) :
    s.contains k = true ∨ k = .subjectKeyIdentifier ∧ s.contains .basicConstraints = true := by
  have hnothing : ¬ ({} : ExtensionPlan).Holds k := by
    cases k <;> simp [Holds]
  obtain ⟨⟨requested, v⟩, hmem, hgrants⟩ := (holds_of_foldlM_add h hk).resolve_left hnothing
  have hcontains : s.contains requested = true :=
    Option.isSome_iff_exists.2 ⟨v, ExtensionSet.mem_toList_iff.1 hmem⟩
  rcases hgrants with rfl | ⟨rfl, rfl⟩
  · exact .inl hcontains
  · exact .inr ⟨rfl, hcontains⟩

end ExtensionPlan

/-! ## Drafts -/

variable {m : Moment} {r : CertificateRequest} {subject : PublicKey} {signer : SignerIdentity}
  {d : Draft} {p : SigningPolicy} {k : ExtensionKind} {v : ExtensionValue}

/-- The subject of the request has no attributes. -/
def IsNameless (r : CertificateRequest) : Prop :=
  ∃ name, subjectOf r = .ok name ∧ (IssuedName.ofView name).isEmpty = true

/-- Certificates get their extensions of this kind flagged as critical. -/
def IsFlagged (r : CertificateRequest) (k : ExtensionKind) : Prop :=
  k ∈ [.basicConstraints, .keyUsage, .nameConstraints] ∨ k = .subjectAltName ∧ IsNameless r

theorem impliedCritical_iff {name : DistinguishedName} (hname : subjectOf r = .ok name) :
    impliedCritical (IssuedName.ofView name).isEmpty k = true ↔ IsFlagged r k := by
  have hnameless : IsNameless r ↔ (IssuedName.ofView name).isEmpty = true := by
    constructor
    · rintro ⟨name', hname', hempty⟩
      obtain rfl := Except.ok.inj (hname.symm.trans hname')
      exact hempty
    · exact fun hempty => ⟨name, hname, hempty⟩
  rw [IsFlagged, hnameless]
  cases k <;> simp [impliedCritical]

/-- An extension in the view of a draft is there for a requested one, with the flag of its kind. -/
theorem of_extensions_buildDraft (hd : buildDraft m .certificate r subject signer = .ok d)
    (hk : d.info.extensions.get? k = some v) :
    (r.extensions.contains k = true ∨
      k = .subjectKeyIdentifier ∧ r.extensions.contains .basicConstraints = true) ∧
    (v.critical = true ↔ IsFlagged r k) := by
  obtain ⟨_, _, _, _, plan, issuer, f, info, -, -, hplan, -, hrenders, hinfo, rfl⟩ :=
    renders_of_buildDraft_certificate hd
  obtain rfl := Except.ok.inj (hrenders.info_eq.symm.trans hinfo)
  obtain ⟨e, he, hkind, rfl⟩ := exists_of_get?_viewOf hk
  obtain ⟨j, value, hholds, rfl⟩ := ExtensionPlan.writes_extensions hrenders.extensions e he
  rw [kindOfOid?_extension (ExtensionPlan.isSome_of_holds hholds)] at hkind
  obtain rfl := Option.some.inj hkind
  simp only [CertificatePlan.ofRequest, Outcome.bind_eq_ok_iff] at hplan
  obtain ⟨name, hname, _, -, _, -, _, -, extensions, hextensions, hplan⟩ := hplan
  obtain rfl := Except.ok.inj hplan
  exact ⟨ExtensionPlan.holds_of_ofRequest hextensions hholds, impliedCritical_iff hname⟩

/-! ## Policies -/

/-- What a merge comes to was requested and is permitted, or is a default, or is forced. -/
theorem contains_under (h : (r.under (some p)).extensions.contains k = true) :
    (r.extensions.contains k = true ∧ p.allowedExtensions.permits k = true) ∨
      p.defaultExtensions.contains k = true ∨ p.forcedExtensions.contains k = true := by
  have hruling : (ExtensionSet.ruling p.defaultExtensions p.allowedExtensions p.forcedExtensions
      r.extensions k).isSome = true := by
    rw [← get?_mergeSet]
    exact h
  unfold ExtensionSet.ruling at hruling
  unfold ExtensionSet.contains
  cases hforced : p.forcedExtensions.get? k with
  | some forced => exact .inr (.inr rfl)
  | none =>
    cases hrequested : r.extensions.get? k with
    | none =>
      rw [hforced, hrequested] at hruling
      exact .inr (.inl hruling)
    | some requested =>
      cases hpermitted : p.allowedExtensions.permits k with
      | true => exact .inl ⟨rfl, rfl⟩
      | false =>
        rw [hforced, hrequested] at hruling
        simp only [hpermitted] at hruling
        exact .inr (.inl hruling)

/-- **The allow-list reaches the certificate.** Whatever is in the view of a certificate that is
drafted under a policy was requested and is permitted, or is a default or forced extension of the
policy. Only the subject key identifier also comes with basic constraints. The certificate that is
signed from the draft has the same extensions. -/
theorem allow_list_reaches_certificate
    (hd : buildDraft m .certificate (r.under (some p)) subject signer = .ok d) :
    (∀ k, d.info.extensions.contains k = true →
      (r.extensions.contains k = true ∧ p.allowedExtensions.permits k = true) ∨
        p.defaultExtensions.contains k = true ∨ p.forcedExtensions.contains k = true ∨
        (k = .subjectKeyIdentifier ∧
          (r.under (some p)).extensions.contains .basicConstraints = true)) ∧
    ∀ {key digest c}, signDraft d key digest = .ok c → c.info.extensions = d.info.extensions := by
  refine ⟨fun k hk => ?_, fun hs => ?_⟩
  · obtain ⟨v, hv⟩ := Option.isSome_iff_exists.1 hk
    rcases (of_extensions_buildDraft hd hv).1 with hmerged | hidentifier
    · rcases contains_under hmerged with hpermitted | hdefault | hforced
      · exact .inl hpermitted
      · exact .inr (.inl hdefault)
      · exact .inr (.inr (.inl hforced))
    · exact .inr (.inr (.inr hidentifier))
  · obtain ⟨_, -, hinfo⟩ := view_of_signDraft hd hs
    rw [hinfo]

/-- Permits usages, and forces constraints and an alternative name. -/
def servicePolicy : SigningPolicy where
  kind := .x509
  allowedExtensions := .ofKinds [.keyUsage]
  forcedExtensions := (ExtensionSet.empty.insertRaw .basicConstraints "CA:false").insertRaw
    .subjectAltName "critical,DNS:www.example.com"

def serviceRequest : CertificateRequest :=
  { houseRequest with
    nameAttributes := [(.cn, "www.example.com")]
    extensions := (ExtensionSet.empty.insertRaw .keyUsage "digitalSignature").insertRaw .noCheck "" }

def serviceKey : PublicKey := ⟨.x509, .ed25519, spelledKey⟩

def serviceDraft : BackendResult Draft :=
  buildDraft ⟨.ofSeconds 0, []⟩ .certificate (serviceRequest.under (some servicePolicy)) serviceKey
    ⟨serviceKey, none⟩

/-- The draft has an identifier that nobody asked for, and flags that nobody set. -/
theorem extensions_serviceDraft : ∃ d, serviceDraft = .ok d ∧
    d.info.extensions.get? .subjectKeyIdentifier = some ⟨false, .present⟩ ∧
    d.info.extensions.get? .keyUsage = some ⟨true, .text "digitalSignature"⟩ ∧
    d.info.extensions.get? .subjectAltName = some ⟨false, .text "DNS:www.example.com"⟩ := by
  have hview : (serviceDraft.toOption.map fun d => [.subjectKeyIdentifier, .keyUsage,
      .subjectAltName].map d.info.extensions.get?) =
      some [some ⟨false, .present⟩, some ⟨true, .text "digitalSignature"⟩,
        some ⟨false, .text "DNS:www.example.com"⟩] := by
    decide +kernel
  cases hdraft : serviceDraft with
  | error why =>
    rw [hdraft] at hview
    cases hview
  | ok d =>
    rw [hdraft] at hview
    obtain ⟨hidentifier, hrest⟩ := List.cons.inj (Option.some.inj hview)
    obtain ⟨husage, hrest⟩ := List.cons.inj hrest
    exact ⟨d, rfl, hidentifier, husage, (List.cons.inj hrest).1⟩

theorem merged_serviceRequest :
    let merged := (serviceRequest.under (some servicePolicy)).extensions
    merged.get? .keyUsage = some ⟨false, .text "digitalSignature"⟩ ∧
      merged.get? .subjectAltName = some ⟨true, .text "DNS:www.example.com"⟩ := by
  decide +kernel

/-- The check that was not permitted is not in the draft, and the identifier is there because of the
forced constraints. -/
theorem allow_list_reaches_certificate_service :
    ∃ d, serviceDraft = .ok d ∧ serviceRequest.extensions.contains .noCheck = true ∧
      d.info.extensions.contains .noCheck = false ∧
      d.info.extensions.contains .subjectKeyIdentifier = true ∧
      (serviceRequest.under (some servicePolicy)).extensions.contains .basicConstraints = true := by
  obtain ⟨d, hd, hidentifier, -⟩ := extensions_serviceDraft
  obtain ⟨hallowed, -⟩ := allow_list_reaches_certificate hd
  have hcontains : d.info.extensions.contains .subjectKeyIdentifier = true :=
    Option.isSome_iff_exists.2 ⟨_, hidentifier⟩
  refine ⟨d, hd, by decide, ?_, hcontains, ?_⟩
  · refine Bool.eq_false_iff.2 fun hcheck => ?_
    exact absurd (hallowed .noCheck hcheck) (by decide)
  · rcases hallowed .subjectKeyIdentifier hcontains with
      ⟨-, hpermitted⟩ | hdefault | hforced | ⟨-, hconstraints⟩
    · exact absurd hpermitted (by decide)
    · exact absurd hdefault (by decide)
    · exact absurd hforced (by decide)
    · exact hconstraints

/-- **The flag of an extension is that of its kind.** Basic constraints, key usages and name
constraints are critical in every certificate, alternative names in those without a subject, and
nothing else is. The flag that was requested or forced is read, merged and compared, but it makes no
difference to what is drafted: it is honoured if and only if it is the one the kind gets anyway. -/
theorem flag_follows_kind
    (hd : buildDraft m .certificate (r.under (some p)) subject signer = .ok d)
    (hk : d.info.extensions.get? k = some v) :
    (v.critical = true ↔ IsFlagged (r.under (some p)) k) ∧
      ∀ u ∈ (r.under (some p)).extensions.get? k,
        (v.critical = u.critical ↔ (u.critical = true ↔ IsFlagged (r.under (some p)) k)) := by
  have hflag := (of_extensions_buildDraft hd hk).2
  refine ⟨hflag, fun u _ => ?_⟩
  rw [← hflag, Bool.eq_iff_iff]
  exact iff_comm

/-- The usages were requested without a flag, and are critical. -/
theorem flag_follows_kind_service :
    ∃ d u v, serviceDraft = .ok d ∧
      (serviceRequest.under (some servicePolicy)).extensions.get? .keyUsage = some u ∧
      d.info.extensions.get? .keyUsage = some v ∧ u.critical = false ∧ v.critical = true := by
  obtain ⟨d, hd, -, husage, -⟩ := extensions_serviceDraft
  obtain ⟨hmerged, -⟩ := merged_serviceRequest
  obtain ⟨hflag, -⟩ := flag_follows_kind hd husage
  exact ⟨d, _, _, hd, hmerged, husage, rfl, hflag.2 (.inl (by decide))⟩

/-- What is forced as critical need not be critical, and what is not can be. -/
theorem flag_not_honoured :
    ∃ d u u' v v', let merged := (serviceRequest.under (some servicePolicy)).extensions
      serviceDraft = .ok d ∧
      merged.get? .subjectAltName = some u ∧ d.info.extensions.get? .subjectAltName = some v ∧
      merged.get? .keyUsage = some u' ∧ d.info.extensions.get? .keyUsage = some v' ∧
      v.critical ≠ u.critical ∧ v'.critical ≠ u'.critical := by
  obtain ⟨d, hd, -, husage, hname⟩ := extensions_serviceDraft
  obtain ⟨hmerged', hmerged⟩ := merged_serviceRequest
  exact ⟨d, _, _, _, _, hd, hmerged, hname, hmerged', husage, by decide, by decide⟩

end CertAuthority.X509
