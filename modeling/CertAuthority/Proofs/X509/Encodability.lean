import CertAuthority.Proofs.X509.IssuedExtensions

/-!
# Extensions that cannot be encoded

Requested values are read before anything is written, and a value that cannot be read is refused
with the name of its extension. Some values are read as they are and have no encoding: drafting is
then abandoned.

* `Outcome.YieldsIff` : a step that gives a value on a condition, and is abandoned otherwise;
* `Outcome.RefusesAs` : a step that is never abandoned, and refuses only values of one extension;
* `ExtensionPlan.failsOnly_ofRequest` : reading the extensions of a request is made of such steps;
* `ExtensionPlan.IsEncodable` : all that a plan holds has an encoding, and
  `ExtensionPlan.yieldsIff_extensions` : otherwise writing it is abandoned;
* `buildDraft_abandons_iff` : what becomes of the draft of a request.
-/

namespace CertAuthority

/-! ## Steps that are abandoned, and steps that refuse -/

namespace Outcome

/-- The fault of a step that gives no value. -/
def fault? {ε α : Type} : Outcome ε α → Option (Fault ε)
  | .ok _ => none
  | .error why => some why

theorem fault?_eq_some_iff {ε α : Type} {x : Outcome ε α} {why : Fault ε} :
    x.fault? = some why ↔ x = .error why := by
  cases x <;> simp [fault?]

/-- The step gives a value if the condition holds, and is abandoned if it does not. -/
def YieldsIff {ε α : Type} (x : Outcome ε α) (P : Prop) : Prop :=
  (P → ∃ a, x = .ok a) ∧ (¬P → x = abandon)

namespace YieldsIff

variable {ε α β : Type} {x : Outcome ε α} {f : α → Outcome ε β} {xs : List α} {P Q : Prop}

theorem ok (a : α) : YieldsIff (.ok a : Outcome ε α) True := ⟨fun _ => ⟨a, rfl⟩, absurd trivial⟩

theorem ite {c : Prop} [Decidable c] (a : α) :
    YieldsIff (if c then .ok a else abandon : Outcome ε α) c :=
  ⟨fun hc => ⟨a, if_pos hc⟩, fun hc => if_neg hc⟩

theorem of_iff (h : YieldsIff x P) (hP : P ↔ Q) : YieldsIff x Q :=
  ⟨fun hQ => h.1 (hP.2 hQ), fun hQ => h.2 fun hP' => hQ (hP.1 hP')⟩

theorem bind (hx : YieldsIff x P) (hf : ∀ a, YieldsIff (f a) Q) : YieldsIff (x >>= f) (P ∧ Q) := by
  by_cases hP : P
  · obtain ⟨a, rfl⟩ := hx.1 hP
    refine ⟨fun h => (hf a).1 h.2, fun h => (hf a).2 fun hQ => h ⟨hP, hQ⟩⟩
  · obtain rfl := hx.2 hP
    exact ⟨fun h => absurd h.1 hP, fun _ => rfl⟩

/-- A value is still given where it only goes through a function. -/
theorem then_ok (hx : YieldsIff x P) (g : α → β) : YieldsIff (x >>= fun a => .ok (g a)) P :=
  (hx.bind fun a => ok (g a)).of_iff (and_iff_left trivial)

theorem mapM {C : α → Prop} (hf : ∀ a, YieldsIff (f a) (C a)) :
    YieldsIff (xs.mapM f) (∀ a ∈ xs, C a) := by
  induction xs with
  | nil => exact (ok []).of_iff (iff_of_true trivial (List.forall_mem_nil C))
  | cons a rest ih =>
    rw [List.mapM_cons]
    exact ((hf a).bind fun b => ih.then_ok (b :: ·)).of_iff List.forall_mem_cons.symm

theorem eq_abandon_iff (h : YieldsIff x P) : x = abandon ↔ ¬P := by
  refine ⟨fun hx hP => ?_, h.2⟩
  obtain ⟨a, ha⟩ := h.1 hP
  cases ha.symm.trans hx

end YieldsIff

/-- The step gives a value, or refuses it as one of the extension. -/
abbrev RefusesAs {α : Type} (k : ExtensionKind) (x : BackendResult α) : Prop :=
  FailsOnly (fun why => ∃ reason, why = .error (.invalidSpec k.name reason)) x

theorem RefusesAs.invalid {α : Type} {k : ExtensionKind} (reason : String) :
    RefusesAs k (X509.invalid k reason : BackendResult α) := .error ⟨reason, rfl⟩

end Outcome

/-- The same request with no extensions. -/
def CertificateRequest.withoutExtensions (r : CertificateRequest) : CertificateRequest :=
  { r with extensions := .empty }

namespace X509

open Der
open Outcome (FailsOnly RefusesAs YieldsIff)

/-! ## Reading -/

theorem refusesAs_valueTokens (k : ExtensionKind) (v : ExtensionValue) :
    RefusesAs k (valueTokens k v) := by
  unfold valueTokens
  split
  · exact .invalid _
  · split
    · exact .ok _
    · exact .invalid _

theorem refusesAs_readUsage (token : String) : RefusesAs .keyUsage (readUsage token) := by
  unfold readUsage
  split
  · exact .ok _
  · exact .invalid _

theorem refusesAs_readPurpose (token : String) :
    RefusesAs .extendedKeyUsage (readPurpose token) := by
  unfold readPurpose
  split
  all_goals
    split
    · exact .ok _
    · exact .invalid _

theorem refusesAs_readRoleToken (r : RoleTokens) (token : String) :
    RefusesAs .basicConstraints (readRoleToken r token) := by
  unfold readRoleToken
  dsimp only
  split
  · exact .invalid _
  · split
    · exact .ok _
    · split
      · exact .ok _
      · exact .invalid _
    · exact .invalid _

theorem refusesAs_readRole (tokens : List String) :
    RefusesAs .basicConstraints (readRole tokens) := by
  refine FailsOnly.bind (.foldlM (fun _ _ r => refusesAs_readRoleToken r _) _) fun r => ?_
  split
  · exact .ok _
  · exact .ok _
  · exact RefusesAs.invalid _
  · exact RefusesAs.invalid _

theorem refusesAs_asciiValue (k : ExtensionKind) (value : String) :
    RefusesAs k (asciiValue k value) := by
  unfold asciiValue
  split
  · exact .ok _
  · exact .invalid _

theorem refusesAs_readAlternativeName (token : String) :
    RefusesAs .subjectAltName (readAlternativeName token) := by
  unfold readAlternativeName
  dsimp only
  split
  · exact .invalid _
  · split
    · exact (refusesAs_asciiValue _ _).map _
    · exact (refusesAs_asciiValue _ _).map _
    · exact (refusesAs_asciiValue _ _).map _
    · split
      · exact .ok _
      · exact .invalid _
    · split
      · exact .ok _
      · exact .invalid _
    · exact .invalid _

theorem refusesAs_readDistributionPoint (token : String) :
    RefusesAs .crlDistributionPoints (readDistributionPoint token) := by
  unfold readDistributionPoint
  split
  · exact .ok _
  · exact .invalid _

theorem refusesAs_readSubtree (name : String) : RefusesAs .nameConstraints (readSubtree name) := by
  unfold readSubtree
  dsimp only
  split
  · exact .invalid _
  · split
    · exact .ok _
    · exact .ok _
    · split
      · exact .ok _
      · exact .invalid _
    · exact .invalid _

theorem refusesAs_readConstraint (c : NameSubtrees) (token : String) :
    RefusesAs .nameConstraints (readConstraint c token) := by
  unfold readConstraint
  dsimp only
  split
  · exact .invalid _
  · refine (refusesAs_readSubtree _).bind fun subtree => ?_
    split
    · exact .ok _
    · exact .ok _
    · exact RefusesAs.invalid _

theorem refusesAs_readComment (tokens : List String) :
    RefusesAs .nsComment (readComment tokens) := by
  unfold readComment
  dsimp only
  split
  · exact .ok _
  · exact .invalid _

namespace ExtensionPlan

variable {p : ExtensionPlan}

theorem refusesAs_add (p : ExtensionPlan) (k : ExtensionKind) (v : ExtensionValue) :
    RefusesAs k (p.add (k, v)) := by
  refine (refusesAs_valueTokens k v).bind fun tokens => ?_
  cases k with
  | basicConstraints => exact (refusesAs_readRole tokens).bind fun _ => .ok _
  | keyUsage => exact (FailsOnly.mapM refusesAs_readUsage tokens).bind fun _ => .ok _
  | extendedKeyUsage => exact (FailsOnly.mapM refusesAs_readPurpose tokens).bind fun _ => .ok _
  | subjectKeyIdentifier | authorityKeyIdentifier | noCheck => exact .ok _
  | subjectAltName =>
    exact (FailsOnly.mapM refusesAs_readAlternativeName tokens).bind fun _ => .ok _
  | crlDistributionPoints =>
    exact (FailsOnly.mapM refusesAs_readDistributionPoint tokens).bind fun _ => .ok _
  | nameConstraints =>
    exact (FailsOnly.foldlM (fun _ _ c => refusesAs_readConstraint c _) _).bind fun _ => .ok _
  | nsComment => exact (refusesAs_readComment tokens).bind fun _ => .ok _
  | _ => exact RefusesAs.invalid _

/-- Reading is never abandoned, and refuses with the name of a requested extension. -/
theorem failsOnly_ofRequest (s : ExtensionSet) :
    FailsOnly (fun why => ∃ k reason, s.contains k = true ∧
      why = .error (.invalidSpec k.name reason)) (ofRequest s) := by
  unfold ofRequest
  refine .foldlM (fun e he p => (refusesAs_add p e.1 e.2).mono ?_) _
  rintro _ ⟨reason, rfl⟩
  exact ⟨e.1, reason, Option.isSome_iff_exists.2 ⟨e.2, ExtensionSet.mem_toList_iff.1 he⟩, rfl⟩

end ExtensionPlan

/-! ## Writing -/

/-- The text of the name has an encoding. -/
def GeneralName.IsEncodable : GeneralName → Prop
  | .dns s | .email s => Text.isAscii s = true
  | _ => True

/-- Identifiers begin with 0, 1 or 2, and their first two arcs fit one number. -/
def IsPurpose (arcs : List Nat) : Prop := isOid arcs ∧ arcs.getD 1 0 < bitLimit 64 - 81

/-- What is not checked when it is read. -/
structure ExtensionPlan.IsEncodable (p : ExtensionPlan) : Prop where
  purposes : ∀ arcs ∈ p.purposes, IsPurpose arcs
  points : ∀ uri ∈ p.distributionPoints, Text.isAscii uri = true
  subtrees : ∀ c ∈ p.nameConstraints, ∀ n ∈ c.permitted ++ c.excluded, n.IsEncodable

theorem yieldsIff_pointValue (uri : String) :
    YieldsIff (pointValue uri) (Text.isAscii uri = true) := (YieldsIff.ite ()).then_ok _

theorem yieldsIff_subtreeValue (n : GeneralName) : YieldsIff (subtreeValue n) n.IsEncodable := by
  cases n with
  | dns s | email s => exact (YieldsIff.ite ()).then_ok _
  | _ => exact .ok _

theorem yieldsIff_purposeValue (arcs : List Nat) :
    YieldsIff (purposeValue arcs) (IsPurpose arcs) := .ite _

theorem yieldsIff_subtreesAt (n : Nat) (names : List GeneralName) :
    YieldsIff (subtreesAt n names) (∀ name ∈ names, name.IsEncodable) := by
  unfold subtreesAt
  split
  · rename_i hnone
    rw [List.isEmpty_iff.1 hnone]
    exact (YieldsIff.ok _).of_iff (iff_of_true trivial (List.forall_mem_nil _))
  · exact (YieldsIff.mapM yieldsIff_subtreeValue).then_ok _

namespace ExtensionPlan

theorem yieldsIff_purposeExtension (p : ExtensionPlan) :
    YieldsIff p.purposeExtension (∀ arcs ∈ p.purposes, IsPurpose arcs) := by
  unfold purposeExtension
  split
  · rename_i hnone
    rw [List.isEmpty_iff.1 hnone]
    exact (YieldsIff.ok _).of_iff (iff_of_true trivial (List.forall_mem_nil _))
  · exact (YieldsIff.mapM yieldsIff_purposeValue).then_ok _

theorem yieldsIff_pointsExtension (p : ExtensionPlan) :
    YieldsIff p.pointsExtension (∀ uri ∈ p.distributionPoints, Text.isAscii uri = true) := by
  unfold pointsExtension
  split
  · rename_i hnone
    rw [List.isEmpty_iff.1 hnone]
    exact (YieldsIff.ok _).of_iff (iff_of_true trivial (List.forall_mem_nil _))
  · exact (YieldsIff.mapM yieldsIff_pointValue).then_ok _

theorem yieldsIff_constraintsExtension (p : ExtensionPlan) :
    YieldsIff p.constraintsExtension
      (∀ c ∈ p.nameConstraints, ∀ n ∈ c.permitted ++ c.excluded, n.IsEncodable) := by
  unfold constraintsExtension
  split
  · rename_i hnone
    rw [hnone]
    exact (YieldsIff.ok _).of_iff (iff_of_true trivial nofun)
  · rename_i c hsome
    have hone : (∀ c' ∈ p.nameConstraints, ∀ n ∈ c'.permitted ++ c'.excluded, n.IsEncodable) ↔
        (∀ n ∈ c.permitted, n.IsEncodable) ∧ ∀ n ∈ c.excluded, n.IsEncodable := by
      rw [hsome, ← List.forall_mem_append]
      exact ⟨fun h => h c rfl, fun h c' hc => Option.some.inj hc ▸ h⟩
    split
    · rename_i hempty
      rw [List.isEmpty_iff, List.isEmpty_iff] at hempty
      rw [hempty.1, hempty.2] at hone
      exact (YieldsIff.ok _).of_iff (iff_of_true trivial
        (hone.2 ⟨List.forall_mem_nil _, List.forall_mem_nil _⟩))
    · refine ((yieldsIff_subtreesAt 0 c.permitted).bind fun permitted => ?_).of_iff hone.symm
      exact (yieldsIff_subtreesAt 1 c.excluded).then_ok _

/-- The extensions of a certificate are written if all of the plan can be. -/
theorem yieldsIff_extensions (p : ExtensionPlan) (c : ExtensionContext) :
    YieldsIff (p.extensions c) p.IsEncodable := by
  refine (p.yieldsIff_purposeExtension.bind fun purposes =>
    p.yieldsIff_constraintsExtension.bind fun constraints =>
      p.yieldsIff_pointsExtension.then_ok _).of_iff ?_
  exact ⟨fun ⟨hpurposes, hsubtrees, hpoints⟩ => ⟨hpurposes, hpoints, hsubtrees⟩,
    fun h => ⟨h.purposes, h.subtrees, h.points⟩⟩

theorem isEncodable_iff_of_isRequestable {p : ExtensionPlan} (h : p.isRequestable = true) :
    p.IsEncodable ↔ ∀ arcs ∈ p.purposes, IsPurpose arcs := by
  simp only [isRequestable, Bool.and_eq_true, Option.isNone_iff_eq_none, List.isEmpty_iff] at h
  obtain ⟨⟨hconstraints, hpoints⟩, -⟩ := h
  refine ⟨IsEncodable.purposes, fun hpurposes => ⟨hpurposes, ?_, ?_⟩⟩
  · rw [hpoints]
    exact List.forall_mem_nil _
  · rw [hconstraints]
    exact nofun

/-- What a signing request has no place for is refused before anything is written. -/
theorem requested_eq_abandon_iff (p : ExtensionPlan) (subjectIsEmpty : Bool)
    (subject : SubjectKey) :
    p.requested subjectIsEmpty subject = Outcome.abandon ↔
      ¬p.IsEncodable ∧ p.isRequestable = true := by
  unfold requested
  cases hrequestable : p.isRequestable with
  | false => exact ⟨nofun, fun h => nomatch h.2⟩
  | true =>
    rw [and_iff_left rfl, isEncodable_iff_of_isRequestable hrequestable]
    exact (p.yieldsIff_purposeExtension.then_ok _).eq_abandon_iff

end ExtensionPlan

/-! ## Drafts -/

variable {m : Moment} {artifact : ArtifactKind} {r : CertificateRequest} {subject : PublicKey}
  {signer : SignerIdentity} {d : Draft}

/-- Reading an artifact is never abandoned. -/
theorem infoOf_ne_abandon (artifact : ArtifactKind) (der : Bytes) :
    infoOf artifact der ≠ Outcome.abandon := by
  have hhandle (k : KeyInfo) : k.handle ≠ Outcome.abandon := by
    unfold KeyInfo.handle
    split
    · exact Outcome.ok_ne_abandon _
    · exact Outcome.fail_ne_abandon _
  cases artifact with
  | certificate =>
    unfold infoOf certificateInfo
    dsimp only
    split
    · exact Outcome.bind_ne_abandon (hhandle _) fun _ => Outcome.ok_ne_abandon _
    · exact Outcome.fail_ne_abandon _
  | csr =>
    unfold infoOf requestInfo
    dsimp only
    split
    · exact Outcome.bind_ne_abandon (hhandle _) fun _ => Outcome.ok_ne_abandon _
    · exact Outcome.fail_ne_abandon _
  | crl =>
    unfold infoOf listInfo
    dsimp only
    split
    · exact Outcome.ok_ne_abandon _
    · exact Outcome.fail_ne_abandon _

/-- A plan is the one without extensions, and what is read of them. -/
theorem CertificatePlan.ofRequest_of_withoutExtensions {serial : Option SerialNumber}
    {period : Option (Instant × Instant)} {key : SubjectKey} {p : CertificatePlan}
    (h : ofRequest r.withoutExtensions serial period key = .ok p) :
    ofRequest r serial period key =
      ExtensionPlan.ofRequest r.extensions >>= fun es => .ok { p with extensions := es } := by
  cases period <;> simp only [ofRequest, Outcome.bind_eq_ok_iff] at h
  · obtain ⟨name, hname, _, hnone, _, -, h⟩ := h
    obtain rfl := Except.ok.inj h
    obtain rfl := Except.ok.inj hnone
    rw [ofRequest, show subjectOf r = .ok name from hname]
    rfl
  · obtain ⟨name, hname, _, hstart, _, hstop, _, hperiod, _, -, h⟩ := h
    obtain rfl := Except.ok.inj h
    obtain rfl := Except.ok.inj hperiod
    simp only [ofRequest, show subjectOf r = .ok name from hname, hstart, hstop]
    rfl

namespace CertificatePlan

variable {p : CertificatePlan} {authority : Option Certificate} {der : Bytes}

theorem yieldsIff_certificatePart {issuer : Issuer} {s : Signer} {part : Bytes}
    (h : p.certificatePart issuer s = .ok part) (es : ExtensionPlan) :
    YieldsIff (certificatePart { p with extensions := es } issuer s) es.IsEncodable := by
  obtain ⟨dates, hdates, -⟩ := Outcome.bind_eq_ok_iff.1 h
  unfold certificatePart
  dsimp only
  rw [show [(p.validity.getD _).1, (p.validity.getD _).2].mapM dateBytes = .ok dates from hdates]
  exact (es.yieldsIff_extensions _).then_ok _

/-- A certificate that can be issued without extensions is issued with those that can be encoded. -/
theorem issue_eq_abandon_iff (h : p.issue authority .standIn = .ok der) (es : ExtensionPlan) :
    issue { p with extensions := es } authority .standIn = Outcome.abandon ↔ ¬es.IsEncodable := by
  obtain ⟨issuer, part, hissuer, hpart, -⟩ := issue_eq_ok_iff.1 h
  have hsplit : issue { p with extensions := es } authority .standIn =
      (p.issuerUnder authority >>= fun issuer =>
        certificatePart { p with extensions := es } issuer .standIn >>= Signer.standIn.endorse) := by
    cases authority <;> rfl
  rw [hsplit, hissuer]
  exact ((yieldsIff_certificatePart hpart es).then_ok _).eq_abandon_iff

theorem request_eq_abandon_iff (p : CertificatePlan) :
    p.request .standIn = Outcome.abandon ↔
      ¬p.extensions.IsEncodable ∧ p.extensions.isRequestable = true := by
  rw [← ExtensionPlan.requested_eq_abandon_iff p.extensions p.subject.isEmpty p.key, request,
    Outcome.bind_eq_abandon_iff]
  refine or_iff_left ?_
  rintro ⟨_, -, h⟩
  exact Outcome.ok_ne_abandon _ h

end CertificatePlan

/-- Not all of the plan can be encoded, and the artifact has a place for it. -/
def ExtensionPlan.IsUnencodable (es : ExtensionPlan) (artifact : ArtifactKind) : Prop :=
  ¬es.IsEncodable ∧ (artifact = .csr → es.isRequestable = true)

/-- Drafting is abandoned only where rendering is. -/
theorem buildDraft_eq_abandon_iff_render {skey : SubjectKey} (hcheck : checkRequest r = .ok ())
    (hskey : SubjectKey.ofEncoded subject.encoded = .ok skey) :
    buildDraft m artifact r subject signer = Outcome.abandon ↔
      render m artifact r skey subject.algorithm signer = Outcome.abandon := by
  rw [buildDraft, hcheck, hskey]
  change (render m artifact r skey subject.algorithm signer >>= _) = Outcome.abandon ↔ _
  rw [Outcome.bind_eq_abandon_iff]
  refine or_iff_left ?_
  rintro ⟨x, -, h⟩
  obtain habandoned | ⟨info, -, h⟩ := Outcome.bind_eq_abandon_iff.1 h
  · exact infoOf_ne_abandon artifact x.1 habandoned
  · cases h

/-- What is read of the extensions is all that is left to render. -/
theorem render_eq_bind {key : SubjectKey} {algorithm : KeyAlgorithm}
    {x : Bytes × SignatureAlgorithm} (hlist : artifact ≠ .crl)
    (h : render m artifact r.withoutExtensions key algorithm signer = .ok x) :
    ∃ f, render m artifact r key algorithm signer = ExtensionPlan.ofRequest r.extensions >>= f ∧
      ∀ es, f es = Outcome.abandon ↔ es.IsUnencodable artifact := by
  cases artifact with
  | certificate =>
    simp only [render, Outcome.bind_eq_ok_iff] at h
    obtain ⟨a, ha, period, hperiod, p, hp, der, hissue, -⟩ := h
    have hplan := CertificatePlan.ofRequest_of_withoutExtensions hp
    simp only [CertificateRequest.withoutExtensions] at ha hplan
    refine ⟨fun es => do
      return (← CertificatePlan.issue { p with extensions := es } signer.certificate .standIn, a),
      ?_, fun es => ?_⟩
    · simp only [render, ha, show validity m.now r = .ok period from hperiod]
      change (CertificatePlan.ofRequest r _ _ _ >>= _) = _
      rw [hplan, bind_assoc]
      rfl
    · rw [Outcome.bind_eq_abandon_iff, CertificatePlan.issue_eq_abandon_iff hissue]
      constructor
      · rintro (h | ⟨_, _, h⟩)
        · exact ⟨h, fun hcsr => by cases hcsr⟩
        · cases h
      · exact fun h => .inl h.1
  | csr =>
    simp only [render, Outcome.bind_eq_ok_iff] at h
    obtain ⟨a, ha, p, hp, -⟩ := h
    have hplan := CertificatePlan.ofRequest_of_withoutExtensions hp
    simp only [CertificateRequest.withoutExtensions] at ha
    refine ⟨fun es => do return (← CertificatePlan.request { p with extensions := es } .standIn, a),
      ?_, fun es => ?_⟩
    · simp only [render, ha]
      change (CertificatePlan.ofRequest r _ _ _ >>= _) = _
      rw [hplan, bind_assoc]
      rfl
    · rw [Outcome.bind_eq_abandon_iff, CertificatePlan.request_eq_abandon_iff]
      constructor
      · rintro (h | ⟨_, _, h⟩)
        · exact ⟨h.1, fun _ => h.2⟩
        · cases h
      · exact fun h => .inl ⟨h.1, h.2 rfl⟩
  | crl => exact absurd rfl hlist

/-- A list has no extensions of the request, so it is rendered as without them or refused. -/
theorem render_list_ne_abandon {key : SubjectKey} {algorithm : KeyAlgorithm}
    {x : Bytes × SignatureAlgorithm}
    (h : render m .crl r.withoutExtensions key algorithm signer = .ok x) :
    render m .crl r key algorithm signer ≠ Outcome.abandon := by
  have hrevoked : revocationsOf r.withoutExtensions = revocationsOf r :=
    funext fun _ => revocationsFrom_congr rfl
  have hsplit : render m .crl r key algorithm signer =
      checkListExtensions r >>= fun _ =>
        render m .crl r.withoutExtensions key algorithm signer := by
    unfold render
    dsimp only
    rw [hrevoked]
    rfl
  rw [hsplit, h]
  unfold checkListExtensions
  split <;> exact nofun

/-- **What becomes of a request that could be drafted without its extensions.** Drafting is
abandoned if and only if all of them can be read but some value has no encoding: a purpose that is
no object identifier, or text beyond ASCII in a distribution point or a name constraint. For a
signing request the extensions must also be such that it can carry them, and revocation lists carry
none. A value that cannot be read is refused with the name of its extension, as is all other
text beyond ASCII. -/
theorem buildDraft_abandons_iff
    (h : buildDraft m artifact r.withoutExtensions subject signer = .ok d) :
    (buildDraft m artifact r subject signer = Outcome.abandon ↔
      artifact ≠ .crl ∧ ∃ es, ExtensionPlan.ofRequest r.extensions = .ok es ∧
        es.IsUnencodable artifact) ∧
    (artifact ≠ .crl → (∀ es, ExtensionPlan.ofRequest r.extensions ≠ .ok es) →
      ∃ k reason, r.extensions.contains k = true ∧
        buildDraft m artifact r subject signer = Outcome.fail (.invalidSpec k.name reason)) := by
  simp only [buildDraft, Outcome.bind_eq_ok_iff] at h
  obtain ⟨_, hcheck, skey, hskey, ⟨der, a⟩, hrender, -⟩ := h
  have hcheck' : checkRequest r = .ok () := hcheck
  refine ⟨?_, fun hlist hunread => ?_⟩
  · rw [buildDraft_eq_abandon_iff_render hcheck' hskey]
    by_cases hlist : artifact = .crl
    · subst hlist
      exact iff_of_false (render_list_ne_abandon hrender) fun hplan => hplan.1 rfl
    · obtain ⟨f, hf, habandon⟩ := render_eq_bind hlist hrender
      rw [hf, Outcome.bind_eq_abandon_iff, and_iff_right hlist]
      simp only [habandon]
      refine or_iff_right fun hread => ?_
      obtain ⟨_, _, -, hwhy⟩ := ExtensionPlan.failsOnly_ofRequest _ _ hread
      cases hwhy
  · cases hread : ExtensionPlan.ofRequest r.extensions with
    | ok es => exact absurd hread (hunread es)
    | error why =>
      obtain ⟨f, hf, -⟩ := render_eq_bind hlist hrender
      obtain ⟨k, reason, hk, rfl⟩ := ExtensionPlan.failsOnly_ofRequest _ _ hread
      refine ⟨k, reason, hk, ?_⟩
      rw [buildDraft, hcheck', hskey]
      change (render m artifact r skey subject.algorithm signer >>= _) = _
      rw [hf, hread]
      rfl

/-- Asks for a distribution point with a letter beyond ASCII. -/
def accentedRequest : CertificateRequest :=
  { houseRequest with
    extensions := ExtensionSet.empty.insertRaw .crlDistributionPoints "URI:http://caf\u00e9" }

def accentedDraft (r : CertificateRequest) : BackendResult Draft :=
  buildDraft ⟨.ofSeconds 0, []⟩ .certificate r serviceKey ⟨serviceKey, none⟩

theorem ofRequest_accentedRequest :
    ExtensionPlan.ofRequest accentedRequest.extensions =
      .ok { distributionPoints := ["http://caf\u00e9"] } :=
  Outcome.toOption_eq_some_iff.1 (by decide +kernel)

theorem accentedDraft_withoutExtensions :
    (accentedDraft accentedRequest.withoutExtensions).isOk = true := by
  decide +kernel

theorem buildDraft_abandons_iff_accented :
    ∃ d, accentedDraft accentedRequest.withoutExtensions = .ok d ∧
      accentedDraft accentedRequest = Outcome.abandon := by
  obtain ⟨d, hd⟩ := Outcome.exists_eq_ok_of_isOk accentedDraft_withoutExtensions
  refine ⟨d, hd, (buildDraft_abandons_iff hd).1.2 ⟨nofun, _, ofRequest_accentedRequest, ?_, nofun⟩⟩
  exact fun h => absurd (h.points _ List.mem_cons_self) (by decide)

/-- No draft and no error comes of a request that is otherwise valid. -/
theorem accentedDraft_abandoned :
    (∃ d, accentedDraft accentedRequest.withoutExtensions = .ok d) ∧
      (∀ d, accentedDraft accentedRequest ≠ .ok d) ∧
      ∀ e, accentedDraft accentedRequest ≠ Outcome.fail e := by
  have habandoned : accentedDraft accentedRequest = Outcome.abandon :=
    Outcome.fault?_eq_some_iff.1 (by decide +kernel)
  refine ⟨Outcome.exists_eq_ok_of_isOk accentedDraft_withoutExtensions, fun d h => ?_,
    fun e h => ?_⟩
  all_goals cases h.symm.trans habandoned

end X509
end CertAuthority
