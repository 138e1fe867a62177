import CertAuthority.Proofs.Certificate.Changes
import CertAuthority.Proofs.X509.GeneralNames
import CertAuthority.Proofs.X509.Loading
import CertAuthority.Proofs.X509.Lookups
import CertAuthority.Proofs.X509.Names

/-!
# Changed alternative names

Names are compared by their texts. That is enough: whoever wrote the certificate that is there, if
its alternative names do not show as changed, then they are the wanted ones.

* `ExtensionPlan.IsRead` : names that can be requested, and path lengths of one byte. By
  `CertificatePlan.isRead_ofRequest` the plan of a request keeps to that;
* `SameAlternativeNames` : the same names in the same order, and the same flag;
* `IsWanted` : a list has the alternative names of a plan, and
  `sameAlternativeNames_of_get?_viewOf` : a view that shows them has them;
* `exists_rendered` : what is drafted, with its extensions;
* `sameAlternativeNames_of_unchanged` : so change detection misses none.
-/

namespace CertAuthority.X509

/-! ## What requested values are read as -/

theorem isRequestable_of_readAlternativeName {token : String} {n : GeneralName}
    (h : readAlternativeName token = .ok n) : n.IsRequestable := by
  unfold readAlternativeName at h
  dsimp only at h
  split at h
  · cases h
  · split at h
    · obtain ⟨s, -, rfl⟩ := Outcome.map_eq_ok_iff.1 h
      trivial
    · obtain ⟨s, -, rfl⟩ := Outcome.map_eq_ok_iff.1 h
      trivial
    · obtain ⟨s, -, rfl⟩ := Outcome.map_eq_ok_iff.1 h
      trivial
    all_goals try cases h
    all_goals
      split at h
      · rename_i a ha
        exact Except.ok.inj h ▸ Address.length_toBytes_of_parse? ha
      · cases h

theorem pathLength_of_readRoleToken {r r' : RoleTokens} {token : String}
    (hr : ∀ n ∈ r.pathLength, n < 256) (h : readRoleToken r token = .ok r') :
    ∀ n ∈ r'.pathLength, n < 256 := by
  unfold readRoleToken at h
  dsimp only at h
  split at h
  · cases h
  · split at h
    · exact Except.ok.inj h ▸ hr
    · split at h
      · rename_i n hn
        rw [← Except.ok.inj h]
        exact fun m hm => Option.some.inj hm ▸ Text.lt_of_natBelow? hn
      · cases h
    · cases h

theorem pathLength_of_readRole {tokens : List String} {n : Nat}
    (h : readRole tokens = .ok (.authority (some n))) : n < 256 := by
  obtain ⟨r, hr, h⟩ := Outcome.bind_eq_ok_iff.1 h
  have hpath : ∀ n ∈ r.pathLength, n < 256 :=
    Outcome.of_foldlM (P := fun r : RoleTokens => ∀ n ∈ r.pathLength, n < 256)
      (fun _ _ _ _ hr h => pathLength_of_readRoleToken hr h) (b := {}) nofun hr
  split at h
  · exact hpath n (Role.authority.inj (Except.ok.inj h))
  all_goals cases h

namespace ExtensionPlan

/-- The names can be requested, and a path length is one byte. -/
structure IsRead (p : ExtensionPlan) : Prop where
  names : ∀ n ∈ p.alternativeNames, n.IsRequestable
  pathLength : ∀ n, p.role = .authority (some n) → n < 256

/-- One requested extension is read into what its kind holds, and leaves the rest. -/
theorem isRead_add {p p' : ExtensionPlan} {e : ExtensionKind × ExtensionValue} (hp : p.IsRead)
    (h : p.add e = .ok p') : p'.IsRead := by
  obtain ⟨k, v⟩ := e
  obtain ⟨tokens, -, h⟩ := Outcome.bind_eq_ok_iff.1 h
  cases k with
  | basicConstraints =>
    obtain ⟨role, hrole, h⟩ := Outcome.bind_eq_ok_iff.1 h
    rw [← Except.ok.inj h]
    refine ⟨hp.names, fun n hn => ?_⟩
    obtain rfl : role = .authority (some n) := hn
    exact pathLength_of_readRole hrole
  | subjectAltName =>
    obtain ⟨names, hnames, h⟩ := Outcome.bind_eq_ok_iff.1 h
    rw [← Except.ok.inj h]
    refine ⟨?_, hp.pathLength⟩
    exact (Outcome.of_mapM (g := fun _ => ()) (k := fun _ => ())
      (fun _ _ _ hn => ⟨isRequestable_of_readAlternativeName hn, rfl⟩) hnames).1
  | subjectKeyIdentifier | authorityKeyIdentifier | noCheck =>
    rw [← Except.ok.inj h]
    exact ⟨hp.names, hp.pathLength⟩
  | keyUsage | extendedKeyUsage | crlDistributionPoints | nameConstraints | nsComment =>
    obtain ⟨read, -, h⟩ := Outcome.bind_eq_ok_iff.1 h
    rw [← Except.ok.inj h]
    exact ⟨hp.names, hp.pathLength⟩
  | _ => cases h

theorem isRead_ofRequest {s : ExtensionSet} {p : ExtensionPlan} (h : ofRequest s = .ok p) :
    p.IsRead :=
  Outcome.of_foldlM (P := IsRead) (fun _ _ _ _ hp h => isRead_add hp h) (b := {}) ⟨nofun, nofun⟩ h

end ExtensionPlan

theorem CertificatePlan.extensions_ofRequest {r : CertificateRequest}
    {serial : Option SerialNumber} {validity : Option (Instant × Instant)} {key : SubjectKey}
    {p : CertificatePlan} (h : CertificatePlan.ofRequest r serial validity key = .ok p) :
    ExtensionPlan.ofRequest r.extensions = .ok p.extensions := by
  cases validity <;> simp only [CertificatePlan.ofRequest, Outcome.bind_eq_ok_iff] at h
  · obtain ⟨_, -, _, -, es, hes, h⟩ := h
    rw [← Except.ok.inj h]
    exact hes
  · obtain ⟨_, -, _, -, _, -, _, -, es, hes, h⟩ := h
    rw [← Except.ok.inj h]
    exact hes

theorem CertificatePlan.isRead_ofRequest {r : CertificateRequest} {serial : Option SerialNumber}
    {validity : Option (Instant × Instant)} {key : SubjectKey} {p : CertificatePlan}
    (h : CertificatePlan.ofRequest r serial validity key = .ok p) : p.extensions.IsRead :=
  ExtensionPlan.isRead_ofRequest (extensions_ofRequest h)

open Der

/-! ## Alternative names of an artifact -/

/-- The extensions of an encoded artifact. -/
def extensionsOf? (artifact : ArtifactKind) (der : Bytes) : Option (List Extension) :=
  match artifact with
  | .certificate => (CertificateForm.parse? der).map (·.extensions)
  | .csr => (RequestForm.parse? der).map (·.extensions)
  | .crl => (RevocationListForm.parse? der).map (·.extensions)

/-- Both have no alternative names, or both have the same names in the same order with the same
flag. -/
def SameAlternativeNames (es es' : List Extension) : Prop :=
  extensionFor? .subjectAltName es = none ∧ extensionFor? .subjectAltName es' = none ∨
  ∃ e e' names, extensionFor? .subjectAltName es = some e ∧
    extensionFor? .subjectAltName es' = some e' ∧ e.critical = e'.critical ∧
    alternativeNames? e.value = some names ∧ alternativeNames? e'.value = some names

/-! ## What a plan writes -/

variable {p : ExtensionPlan} {subjectIsEmpty : Bool} {es es' : List Extension}

/-- The list has the alternative names of the plan and no others. -/
structure IsWanted (p : ExtensionPlan) (subjectIsEmpty : Bool) (es : List Extension) : Prop where
  part : extensionFor? .subjectAltName es = (p.alternativeNameExtension subjectIsEmpty).head?
  once : (es.map (·.oid)).Nodup
  short : ∀ e ∈ es, e.value.length < bitLimit 64

theorem ExtensionPlan.isWanted_extensions {c : ExtensionContext} (h : p.extensions c = .ok es)
    (hshort : ∀ e ∈ es, e.value.length < bitLimit 64) : IsWanted p c.subjectIsEmpty es := by
  obtain ⟨purposes, constraints, points, -, hparts⟩ := parted_extensions h
  exact ⟨hparts.extensionFor?_eq _, hparts.nodup_oids, hshort⟩

theorem ExtensionPlan.isWanted_requested {subject : SubjectKey}
    (h : p.requested subjectIsEmpty subject = .ok es)
    (hshort : ∀ e ∈ es, e.value.length < bitLimit 64) : IsWanted p subjectIsEmpty es := by
  obtain ⟨purposes, -, hparts⟩ := parted_requested h
  exact ⟨hparts.extensionFor?_eq _, hparts.nodup_oids, hshort⟩

/-- The names of a plan, as a view shows them. -/
def ExtensionPlan.namesValue (p : ExtensionPlan) (subjectIsEmpty : Bool) : Option ExtensionValue :=
  (p.alternativeNameExtension subjectIsEmpty).head?.map fun e =>
    ⟨e.critical, .ofTokens (p.alternativeNames.map (·.text))⟩

/-- The names of a plan are read back from its extension. -/
theorem IsWanted.alternativeNames? (h : IsWanted p subjectIsEmpty es) (hp : p.IsRead)
    {e : Extension} (he : extensionFor? .subjectAltName es = some e) :
    X509.alternativeNames? e.value = some p.alternativeNames := by
  have hlength := h.short e (kindOfOid?_of_extensionFor? he).1
  rw [h.part, ExtensionPlan.alternativeNameExtension] at he
  split at he
  · cases he
  · obtain rfl := Option.some.inj he
    exact alternativeNames?_seqOf hp.names hlength

/-- A view that shows the names of a plan shows a list that has them. -/
theorem sameAlternativeNames_of_get?_viewOf (h : IsWanted p subjectIsEmpty es') (hp : p.IsRead)
    (hes : (es.map (·.oid)).Nodup)
    (hview : (viewOf es).get? .subjectAltName = p.namesValue subjectIsEmpty) :
    SameAlternativeNames es es' := by
  rw [get?_viewOf hes, ExtensionPlan.namesValue, ← h.part] at hview
  cases he' : extensionFor? .subjectAltName es' with
  | none =>
    rw [he', Option.map_none, Option.map_eq_none_iff] at hview
    exact .inl ⟨hview, he'⟩
  | some e' =>
    rw [he', Option.map_some, Option.map_eq_some_iff] at hview
    obtain ⟨e, he, hvalue⟩ := hview
    obtain ⟨hcritical, hshown⟩ := ExtensionValue.mk.inj hvalue
    exact .inr ⟨e, e', p.alternativeNames, he, he', hcritical,
      alternativeNames?_eq_of_canonicalValue hp.names hshown, h.alternativeNames? hp he'⟩

/-- A certificate of a plan shows its names. -/
theorem IsWanted.get?_viewOf (h : IsWanted p subjectIsEmpty es) (hp : p.IsRead) :
    (viewOf es).get? .subjectAltName = p.namesValue subjectIsEmpty := by
  rw [X509.get?_viewOf h.once, ExtensionPlan.namesValue, ← h.part]
  cases he : extensionFor? .subjectAltName es with
  | none => rfl
  | some e =>
    have hvalue : canonicalValue .subjectAltName e.value =
        .ofTokens (p.alternativeNames.map (·.text)) := by
      change (readValue? .subjectAltName e.value).getD _ = _
      rw [readValue?_subjectAltName, h.alternativeNames? hp he]
      rfl
    rw [Option.map_some, Option.map_some, hvalue]

/-- So does a signing request, although it is not read for flags. -/
theorem IsWanted.get?_requestedViewOf (h : IsWanted p subjectIsEmpty es) (hp : p.IsRead) :
    (requestedViewOf es subjectIsEmpty).get? .subjectAltName = p.namesValue subjectIsEmpty := by
  rw [X509.get?_requestedViewOf h.once, ExtensionPlan.namesValue, ← h.part]
  cases he : extensionFor? .subjectAltName es with
  | none => rfl
  | some e =>
    have hvalue : requestedValue? .subjectAltName e.value =
        some (.ofTokens (p.alternativeNames.map (·.text))) := by
      change readValue? .subjectAltName e.value = _
      rw [readValue?_subjectAltName, h.alternativeNames? hp he]
      rfl
    have hcritical : e.critical = subjectIsEmpty := by
      rw [h.part, ExtensionPlan.alternativeNameExtension] at he
      split at he
      · cases he
      · exact Option.some.inj he ▸ rfl
    rw [Option.bind_some, hvalue, Option.map_some, Option.map_some, hcritical]
    rfl

/-! ## Drafts -/

/-- What is rendered has the alternative names of some plan, and its view shows them. -/
def ShowsNames (artifact : ArtifactKind) (der : Bytes) (shown : ExtensionSet) : Prop :=
  ∃ es p subjectIsEmpty, extensionsOf? artifact der = some es ∧ IsWanted p subjectIsEmpty es ∧
    p.IsRead ∧ shown.get? .subjectAltName = p.namesValue subjectIsEmpty

variable {m : Moment} {artifact : ArtifactKind} {r : CertificateRequest} {subject : PublicKey}
  {signer : SignerIdentity} {d : Draft} {existing : Certificate} {key : SubjectKey}
  {algorithm : KeyAlgorithm} {der : Bytes} {a : SignatureAlgorithm} {info : CertificateInfo}

theorem showsNames_certificate
    (hrender : render m .certificate r key algorithm signer = .ok (der, a))
    (hinfo : infoOf .certificate der = .ok info) : ShowsNames .certificate der info.extensions := by
  simp only [render, Outcome.bind_eq_ok_iff] at hrender
  obtain ⟨_, -, _, -, p, hp, der', hissue, hpair⟩ := hrender
  obtain ⟨rfl, rfl⟩ := Prod.mk.inj (Except.ok.inj hpair)
  obtain ⟨issuer, part, -, hpart, hder⟩ := CertificatePlan.issue_eq_ok_iff.1 hissue
  simp only [infoOf, certificateInfo] at hinfo
  split at hinfo
  · rename_i f hf
    have hrenders := CertificatePlan.renders_of_issue (CertificatePlan.validity_ofRequest hp) rfl
      rfl hpart hder hf
    have hread := CertificatePlan.isRead_ofRequest hp
    have hwanted := ExtensionPlan.isWanted_extensions hrenders.extensions hrenders.short
    obtain rfl := Except.ok.inj (hrenders.info_eq.symm.trans hinfo)
    exact ⟨f.extensions, _, _, by rw [extensionsOf?, hf, Option.map_some], hwanted, hread,
      hwanted.get?_viewOf hread⟩
  · cases hinfo

theorem showsNames_request (hrender : render m .csr r key algorithm signer = .ok (der, a))
    (hinfo : infoOf .csr der = .ok info) : ShowsNames .csr der info.extensions := by
  simp only [render, Outcome.bind_eq_ok_iff] at hrender
  obtain ⟨_, -, p, hp, der', hrequest, hpair⟩ := hrender
  obtain ⟨rfl, rfl⟩ := Prod.mk.inj (Except.ok.inj hpair)
  simp only [infoOf, requestInfo] at hinfo
  split at hinfo
  · rename_i f hf
    have hrenders := CertificatePlan.renders_of_request hrequest hf
    have hread := CertificatePlan.isRead_ofRequest hp
    obtain ⟨hextensions, hshort⟩ := hrenders.requested
    have hwanted := ExtensionPlan.isWanted_requested hextensions hshort
    obtain rfl := Except.ok.inj (hrenders.info_eq.symm.trans hinfo)
    -- flags are taken from the view of the subject, which tells whether there is one
    have hempty : f.subject.view.isEmpty = p.subject.isEmpty := by
      obtain ⟨dn, hunique, hsubject⟩ := CertificatePlan.exists_ofView hp
      have hname := hrenders.subject
      rw [hsubject] at hname ⊢
      rw [Name.view_of_parse?_ofView hunique hname, IssuedName.isEmpty_ofView hunique]
    refine ⟨f.extensions, _, _, by rw [extensionsOf?, hf, Option.map_some], hwanted, hread, ?_⟩
    rw [hempty]
    exact hwanted.get?_requestedViewOf hread
  · cases hinfo

/-- Revocation lists are refused all extensions but one. -/
theorem checkListExtensions_ne_ok {k : ExtensionKind} (hk : k ≠ .authorityKeyIdentifier)
    (hr : r.extensions.contains k = true) : checkListExtensions r ≠ .ok () := by
  intro h
  unfold checkListExtensions at h
  split at h
  · cases h
  · rename_i hnone
    have hmem : k ∈ r.extensions.kinds := List.mem_filter.2 ⟨ExtensionKind.mem_all _, hr⟩
    exact absurd (bne_iff_ne.2 hk) (List.find?_eq_none.1 hnone k hmem)

/-- A draft is rendered with the names that its view shows. -/
theorem exists_rendered (hr : r.extensions.contains .subjectAltName = true)
    (hd : buildDraft m artifact r subject signer = .ok d) :
    ∃ key der a, SubjectKey.ofEncoded subject.encoded = .ok key ∧
      render m artifact r key subject.algorithm signer = .ok (der, a) ∧
      ShowsNames artifact der d.info.extensions := by
  simp only [buildDraft, Outcome.bind_eq_ok_iff] at hd
  obtain ⟨_, -, key, hkey, ⟨der, a⟩, hrender, info, hinfo, hd⟩ := hd
  have hshows : ShowsNames artifact der info.extensions := by
    cases artifact with
    | certificate => exact showsNames_certificate hrender hinfo
    | csr => exact showsNames_request hrender hinfo
    | crl =>
      obtain ⟨_, hcheck, -⟩ := Outcome.bind_eq_ok_iff.1 hrender
      exact absurd hcheck (checkListExtensions_ne_ok (by decide) hr)
  rw [← Except.ok.inj hd]
  exact ⟨key, der, a, hkey, hrender, hshows⟩

theorem extensions_of_isStored {f : CertificateForm} (h : IsStored existing)
    (hf : CertificateForm.parse? existing.encoded = some f) :
    existing.info.extensions = viewOf f.extensions := by
  obtain ⟨info, hinfo, hc⟩ := Outcome.map_eq_ok_iff.1 h
  rw [certificateInfo, hf] at hinfo
  obtain ⟨_, -, hinfo⟩ := Outcome.bind_eq_ok_iff.1 hinfo
  rw [← hc, ← Except.ok.inj hinfo]

/-- **No change of alternative names is missed.** Take any certificate that was loaded, with each
extension at most once, and any draft for a request with alternative names. If these are listed as
neither added nor changed nor removed, the certificate and the rendered draft have the same general
names in the same order, with the same flag. -/
theorem sameAlternativeNames_of_unchanged {f : CertificateForm} (hexisting : IsStored existing)
    (hf : CertificateForm.parse? existing.encoded = some f)
    (honce : (f.extensions.map (·.oid)).Nodup)
    (hr : r.extensions.contains .subjectAltName = true)
    (hd : buildDraft m artifact r subject signer = .ok d)
    (hunchanged :
      ¬(ExtensionDiff.compare existing.info.extensions d.info.extensions).Lists .subjectAltName) :
    ∃ key der a es, SubjectKey.ofEncoded subject.encoded = .ok key ∧
      render m artifact r key subject.algorithm signer = .ok (der, a) ∧
      extensionsOf? artifact der = some es ∧ SameAlternativeNames f.extensions es := by
  obtain ⟨key, der, a, hkey, hrender, es, p, subjectIsEmpty, hes, hwanted, hread, hview⟩ :=
    exists_rendered hr hd
  have hsame := ExtensionDiff.not_lists_compare_iff.1 hunchanged
  rw [extensions_of_isStored hexisting hf, hview] at hsame
  exact ⟨key, der, a, es, hkey, hrender, hes,
    sameAlternativeNames_of_get?_viewOf hwanted hread honce hsame⟩

/-- A request with these alternative names. -/
def siteRequest (names : String) : CertificateRequest :=
  { houseRequest with extensions := ExtensionSet.empty.insertRaw .subjectAltName names }

def siteDraft (names : String) : BackendResult Draft :=
  buildDraft ⟨.ofSeconds 0, []⟩ .certificate (siteRequest names) serviceKey ⟨serviceKey, none⟩

/-- A certificate with two names, which an unknown key has signed. -/
def foundCertificate : BackendResult Certificate := do
  let key ← SubjectKey.ofEncoded serviceKey.encoded
  let (der, _) ← render ⟨.ofSeconds 0, []⟩ .certificate
    (siteRequest "DNS:www.example.com,IP:2001:db8::1") key serviceKey.algorithm ⟨serviceKey, none⟩
  loadCertificate der

/-- The names of the certificate, spelled in another way. -/
theorem siteDraft_unchanged : ∃ c f d, foundCertificate = .ok c ∧
    CertificateForm.parse? c.encoded = some f ∧ (f.extensions.map (·.oid)).Nodup ∧
    siteDraft "dns:www.example.com,IP Address:2001:DB8:0::0:1" = .ok d ∧
    c.info.extensions.get? .subjectAltName = d.info.extensions.get? .subjectAltName := by
  have hview : (foundCertificate.toOption.bind fun c => (CertificateForm.parse? c.encoded).bind
      fun f => (siteDraft "dns:www.example.com,IP Address:2001:DB8:0::0:1").toOption.map fun d =>
        (decide (f.extensions.map (·.oid)).Nodup, decide (c.info.extensions.get? .subjectAltName =
          d.info.extensions.get? .subjectAltName))) = some (true, true) := by
    decide +kernel
  obtain ⟨c, hc, hview⟩ := Option.bind_eq_some_iff.1 hview
  obtain ⟨f, hf, hview⟩ := Option.bind_eq_some_iff.1 hview
  obtain ⟨d, hd, hview⟩ := Option.map_eq_some_iff.1 hview
  obtain ⟨honce, hsame⟩ := Prod.mk.inj hview
  exact ⟨c, f, d, Outcome.toOption_eq_some_iff.1 hc, hf, of_decide_eq_true honce,
    Outcome.toOption_eq_some_iff.1 hd, of_decide_eq_true hsame⟩

theorem sameAlternativeNames_of_unchanged_site : ∃ c f d der a es,
    foundCertificate = .ok c ∧ CertificateForm.parse? c.encoded = some f ∧
    siteDraft "dns:www.example.com,IP Address:2001:DB8:0::0:1" = .ok d ∧
    ¬(ExtensionDiff.compare c.info.extensions d.info.extensions).Lists .subjectAltName ∧
    (∃ key, render ⟨.ofSeconds 0, []⟩ .certificate
      (siteRequest "dns:www.example.com,IP Address:2001:DB8:0::0:1") key serviceKey.algorithm
        ⟨serviceKey, none⟩ = .ok (der, a)) ∧
    extensionsOf? .certificate der = some es ∧ SameAlternativeNames f.extensions es := by
  obtain ⟨c, f, d, hc, hf, honce, hd, hsame⟩ := siteDraft_unchanged
  have hstored : IsStored c := by
    obtain ⟨key, -, hload⟩ := Outcome.bind_eq_ok_iff.1 hc
    obtain ⟨⟨der, a⟩, -, hload⟩ := Outcome.bind_eq_ok_iff.1 hload
    exact (loadCertificate_eq_ok_iff.1 hload).2
  have hunchanged := ExtensionDiff.not_lists_compare_iff.2 hsame
  obtain ⟨key, der, a, es, -, hrender, hes, hnames⟩ :=
    sameAlternativeNames_of_unchanged hstored hf honce (by decide) hd hunchanged
  exact ⟨c, f, d, der, a, es, hc, hf, hd, hunchanged, ⟨key, hrender⟩, hes, hnames⟩

end CertAuthority.X509
