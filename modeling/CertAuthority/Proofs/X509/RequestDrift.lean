import CertAuthority.Proofs.X509.AlternativeNames
import CertAuthority.Proofs.X509.RequestedValues

/-!
# Changed signing requests

A signing request is read for some kinds of extensions only. What it asks for besides is not
compared with what is wanted, so a change of it is missed, and no other change is.

* `Asks` : what a signing request for a key can ask for, by `ExtensionPlan.asks_requested`;
* `SameRequest` : both ask for the same, as far as they are read, and
  `Asks.requestedViewOf_eq_iff` : that is what their views tell;
* `RequestForm.AsksSame` : the same subject as well;
* `requestDrift_isEmpty_iff` : so detection finds nothing if and only if both ask for the same.
-/

namespace CertAuthority.X509

open Der

variable {p : ExtensionPlan} {subjectIsEmpty : Bool} {key : SubjectKey} {k : ExtensionKind}
  {es es' : List Extension}

/-! ## What can be asked for -/

/-- The kinds that are not compared as a whole, or not at all. -/
def looselyCompared : List ExtensionKind := [.extendedKeyUsage, .noCheck, .nsComment]

/-- The extension has the flag of its kind, and a value that can be asked for. -/
def IsAskedAs (subjectIsEmpty : Bool) (key : SubjectKey) (k : ExtensionKind) (e : Extension) :
    Prop :=
  ∃ v, Askable key k v ∧ e = extension k (impliedCritical subjectIsEmpty k) v

/-- The extensions of a signing request for the key. -/
structure Asks (subjectIsEmpty : Bool) (key : SubjectKey) (es : List Extension) : Prop where
  once : (es.map (·.oid)).Nodup
  purposes : ∀ e ∈ extensionFor? .extendedKeyUsage es,
    e.critical = false ∧ ∃ os, purposes? e.value = some os
  others : ∀ k ∉ looselyCompared, ∀ e ∈ extensionFor? k es, IsAskedAs subjectIsEmpty key k e

theorem ExtensionPlan.isAskedAs_of_requestParts (hp : p.IsRead) {purposes : List Extension}
    (hk : k ∉ looselyCompared) {e : Extension}
    (he : ((p.requestParts subjectIsEmpty key purposes).lookup k).bind List.head? = some e)
    (hl : e.value.length < bitLimit 64) : IsAskedAs subjectIsEmpty key k e := by
  cases k with
  | extendedKeyUsage | noCheck | nsComment => exact absurd (by decide) hk
  | keyUsage =>
    change p.keyUsageExtension.head? = some e at he
    unfold keyUsageExtension at he
    split at he
    · cases he
    · exact ⟨_, .keyUsage _, (Option.some.inj he).symm⟩
  | subjectAltName =>
    change (p.alternativeNameExtension subjectIsEmpty).head? = some e at he
    unfold alternativeNameExtension at he
    split at he
    · cases he
    · obtain rfl := Option.some.inj he
      exact ⟨_, .alternativeNames hp.names hl, rfl⟩
  | basicConstraints =>
    change p.basicConstraintsExtension.head? = some e at he
    unfold basicConstraintsExtension at he
    split at he
    · cases he
    · have hrole : Role.endEntity.IsStated := ⟨nofun, nofun⟩
      exact ⟨_, .role hrole, (Option.some.inj he).symm⟩
    · rename_i n hn
      have hrole : (Role.authority n).IsStated :=
        ⟨nofun, fun m hm => hp.pathLength m (hn.trans hm)⟩
      exact ⟨_, .role hrole, (Option.some.inj he).symm⟩
  | subjectKeyIdentifier =>
    change (p.identifierPart key).head? = some e at he
    unfold identifierPart at he
    split at he
    · obtain rfl := Option.some.inj he
      exact ⟨_, .identifier hl, rfl⟩
    · cases he
  | _ => cases he

theorem ExtensionPlan.asks_requested (hp : p.IsRead) (h : p.requested subjectIsEmpty key = .ok es)
    (hshort : ∀ e ∈ es, e.value.length < bitLimit 64) : Asks subjectIsEmpty key es := by
  obtain ⟨purposes, hpurposes, hparts⟩ := parted_requested h
  have hlength {k : ExtensionKind} {e : Extension} (he : extensionFor? k es = some e) :
      e.value.length < bitLimit 64 := hshort e (kindOfOid?_of_extensionFor? he).1
  refine ⟨hparts.nodup_oids, fun e he => ?_, fun k hk e he => ?_⟩
  · have hpart : purposes.head? = some e := (hparts.extensionFor?_eq _).symm.trans he
    have hl := hlength he
    unfold purposeExtension at hpurposes
    split at hpurposes
    · rw [← Except.ok.inj hpurposes] at hpart
      cases hpart
    · obtain ⟨values, hvalues, hpurposes⟩ := Outcome.bind_eq_ok_iff.1 hpurposes
      rw [← Except.ok.inj hpurposes] at hpart
      obtain rfl := Option.some.inj hpart
      exact ⟨rfl, _, purposes?_seqOf hvalues hl⟩
  · exact isAskedAs_of_requestParts hp hk ((hparts.extensionFor?_eq k).symm.trans he) (hlength he)

/-! ## What is told -/

/-- What a view shows of an extension. -/
def shown? (subjectIsEmpty : Bool) (k : ExtensionKind) (e : Extension) : Option ExtensionValue :=
  (requestedValue? k e.value).map fun v => ⟨impliedCritical subjectIsEmpty k, v⟩

theorem shown?_of_isAskedAs {e : Extension} (h : IsAskedAs subjectIsEmpty key k e) :
    shown? subjectIsEmpty k e =
      (readValue? k e.value).map fun v => ⟨impliedCritical subjectIsEmpty k, v⟩ := by
  obtain ⟨v, hv, -⟩ := h
  rw [shown?, requestedValue?, if_pos hv.isRequestable]

theorem shown?_ne_none {e : Extension} (h : IsAskedAs subjectIsEmpty key k e) :
    shown? subjectIsEmpty k e ≠ none := by
  rw [shown?_of_isAskedAs h]
  obtain ⟨v, hv, rfl⟩ := h
  obtain ⟨x, hx⟩ := Option.isSome_iff_exists.1 hv.isSome_readValue?
  rw [show (extension k (impliedCritical subjectIsEmpty k) v).value = v from rfl, hx]
  exact nofun

/-- An extension that can be asked for is told by what a view shows of it. -/
theorem IsAskedAs.eq_of_shown? {e e' : Extension} (h : IsAskedAs subjectIsEmpty key k e)
    (h' : IsAskedAs subjectIsEmpty key k e')
    (hshown : shown? subjectIsEmpty k e = shown? subjectIsEmpty k e') : e = e' := by
  rw [shown?_of_isAskedAs h, shown?_of_isAskedAs h'] at hshown
  have hread := Option.map_injective (fun _ _ h => (ExtensionValue.mk.inj h).2) hshown
  obtain ⟨v, hv, rfl⟩ := h
  obtain ⟨v', hv', rfl⟩ := h'
  rw [hv.eq_of_readValue? hv' hread]

/-- An optional value is told by what is shown of it, if something is. -/
theorem eq_of_bind_eq {α β : Type} {P : α → Prop} {f : α → Option β} {o o' : Option α}
    (ho : ∀ a ∈ o, P a) (ho' : ∀ a ∈ o', P a) (hne : ∀ a, P a → f a ≠ none)
    (hinj : ∀ a a', P a → P a' → f a = f a' → a = a') (h : o.bind f = o'.bind f) : o = o' := by
  match o, o' with
  | none, none => rfl
  | some a, none => exact absurd h (hne a (ho a rfl))
  | none, some a' => exact absurd h.symm (hne a' (ho' a' rfl))
  | some a, some a' => rw [hinj a a' (ho a rfl) (ho' a' rfl) h]

/-- Both ask for no purposes, or both for the same with the same flag. -/
def SameRequestedPurposes (es es' : List Extension) : Prop :=
  extensionFor? .extendedKeyUsage es = none ∧ extensionFor? .extendedKeyUsage es' = none ∨
  ∃ e e' os os', extensionFor? .extendedKeyUsage es = some e ∧
    extensionFor? .extendedKeyUsage es' = some e' ∧ e.critical = e'.critical ∧
    purposes? e.value = some os ∧ purposes? e'.value = some os' ∧ SamePurposes os os'

/-- Both ask for the same, but for the kinds that a signing request is not read for. -/
structure SameRequest (es es' : List Extension) : Prop where
  purposes : SameRequestedPurposes es es'
  others : ∀ k ∉ looselyCompared, extensionFor? k es = extensionFor? k es'

theorem shown?_extendedKeyUsage {e : Extension} {os : List (List Nat)}
    (h : purposes? e.value = some os) : shown? subjectIsEmpty .extendedKeyUsage e =
      some ⟨false, .ofTokens (purposeTokens os)⟩ := by
  have hread : requestedValue? .extendedKeyUsage e.value = some (.ofTokens (purposeTokens os)) := by
    change readValue? .extendedKeyUsage e.value = _
    rw [readValue?_extendedKeyUsage, h, Option.map_some]
  rw [shown?, hread]
  rfl

/-- Kinds that are not read show nothing. -/
theorem shown?_eq_none (hk : k ∈ [.noCheck, .nsComment]) :
    shown? subjectIsEmpty k = fun _ => none := by
  have hunread : ∀ k ∈ [ExtensionKind.noCheck, .nsComment],
      requestableKinds.contains k = false := by
    decide
  funext e
  rw [shown?, requestedValue?, hunread k hk]
  rfl

namespace Asks

theorem shown_purposes_iff (h : Asks subjectIsEmpty key es) (h' : Asks subjectIsEmpty key es') :
    (extensionFor? .extendedKeyUsage es).bind (shown? subjectIsEmpty .extendedKeyUsage) =
        (extensionFor? .extendedKeyUsage es').bind (shown? subjectIsEmpty .extendedKeyUsage) ↔
      SameRequestedPurposes es es' := by
  have hpurposes := h.purposes
  have hpurposes' := h'.purposes
  unfold SameRequestedPurposes
  cases he : extensionFor? .extendedKeyUsage es with
  | none =>
    cases he' : extensionFor? .extendedKeyUsage es' with
    | none => simp
    | some e' =>
      obtain ⟨-, os', hos'⟩ := hpurposes' e' he'
      simp [shown?_extendedKeyUsage hos']
  | some e =>
    obtain ⟨hcritical, os, hos⟩ := hpurposes e he
    cases he' : extensionFor? .extendedKeyUsage es' with
    | none => simp [shown?_extendedKeyUsage hos]
    | some e' =>
      obtain ⟨hcritical', os', hos'⟩ := hpurposes' e' he'
      have hiff := purposeTokens_inj_iff (two_le_length_of_purposes? hos)
        (two_le_length_of_purposes? hos')
      rw [Option.bind_some, Option.bind_some, shown?_extendedKeyUsage hos,
        shown?_extendedKeyUsage hos', Option.some_inj, ExtensionValue.mk.injEq]
      constructor
      · rintro ⟨-, htokens⟩
        exact .inr ⟨e, e', os, os', rfl, rfl, hcritical.trans hcritical'.symm, hos, hos',
          hiff.1 (ofTokens_inj htokens)⟩
      · rintro (⟨hnone, -⟩ | ⟨_, _, _, _, hsome, hsome', -, hread, hread', hsame⟩)
        · cases hnone
        · obtain rfl := Option.some.inj hsome
          obtain rfl := Option.some.inj hsome'
          obtain rfl := Option.some.inj (hos.symm.trans hread)
          obtain rfl := Option.some.inj (hos'.symm.trans hread')
          exact ⟨rfl, congrArg _ (hiff.2 hsame)⟩

/-- The views of two signing requests for one key are equal just where these ask for the same. -/
theorem requestedViewOf_eq_iff (h : Asks subjectIsEmpty key es) (h' : Asks subjectIsEmpty key es') :
    requestedViewOf es subjectIsEmpty = requestedViewOf es' subjectIsEmpty ↔
      SameRequest es es' := by
  have hview (k : ExtensionKind) : (requestedViewOf es subjectIsEmpty).get? k =
      (requestedViewOf es' subjectIsEmpty).get? k ↔
        (extensionFor? k es).bind (shown? subjectIsEmpty k) =
          (extensionFor? k es').bind (shown? subjectIsEmpty k) := by
    rw [get?_requestedViewOf h.once, get?_requestedViewOf h'.once]
    rfl
  simp only [ExtensionSet.ext_iff, hview]
  constructor
  · exact fun hsame => ⟨(h.shown_purposes_iff h').1 (hsame _), fun k hk =>
      eq_of_bind_eq (h.others k hk) (h'.others k hk) (fun _ => shown?_ne_none)
        (fun _ _ he he' => he.eq_of_shown? he') (hsame k)⟩
  · rintro ⟨hpurposes, hothers⟩ k
    by_cases hk : k ∈ looselyCompared
    · rcases List.mem_cons.1 hk with rfl | hunread
      · exact (h.shown_purposes_iff h').2 hpurposes
      · simp only [shown?_eq_none hunread, Option.bind_fun_none]
    · rw [hothers k hk]

end Asks

/-! ## Signing requests -/

namespace RequestForm

/-- Both are for the same subject, and ask for the same. -/
structure AsksSame (f f' : RequestForm) : Prop where
  subject : f.subject = f'.subject
  extensions : SameRequest f.extensions f'.extensions

/-- A signing request that was made for the key. -/
structure IsFor (f : RequestForm) (key : SubjectKey) : Prop where
  subject : ∃ dn : DistinguishedName, dn.IsUnique ∧
    Name.parser.parse? .tolerant (IssuedName.ofView dn).encode = some f.subject
  asks : Asks f.subject.view.isEmpty key f.extensions

/-- The view of a signing request. -/
def viewWith (f : RequestForm) (publicKey : PublicKey) (digest : Option Digest) :
    CertificateInfo where
  artifact := .csr
  publicKey := publicKey
  subject := some f.subject.view
  extensions := requestedViewOf f.extensions f.subject.view.isEmpty
  digest := digest

variable {f f' : RequestForm}

theorem isFor_of_renders {r : CertificateRequest} {p : CertificatePlan} {s : Signer}
    (hp : CertificatePlan.ofRequest r none none p.key = .ok p) (h : f.Renders p s) :
    f.IsFor p.key := by
  obtain ⟨dn, hunique, hsubject⟩ := CertificatePlan.exists_ofView hp
  obtain ⟨hextensions, hshort⟩ := h.requested
  have hname := h.subject
  rw [hsubject] at hname
  refine ⟨⟨dn, hunique, hname⟩, ?_⟩
  rw [Name.view_of_parse?_ofView hunique hname, ← IssuedName.isEmpty_ofView hunique, ← hsubject]
  exact ExtensionPlan.asks_requested (CertificatePlan.isRead_ofRequest hp) hextensions hshort

/-- The views of two signing requests for one key are equal just where these ask for the same. -/
theorem IsFor.view_eq_iff (h : f.IsFor key) (h' : f'.IsFor key) :
    f.subject.view = f'.subject.view ∧
        requestedViewOf f.extensions f.subject.view.isEmpty =
          requestedViewOf f'.extensions f'.subject.view.isEmpty ↔
      f.AsksSame f' := by
  constructor
  · rintro ⟨hsubject, hextensions⟩
    have hasks := h.asks
    rw [hsubject] at hasks hextensions
    refine ⟨?_, (hasks.requestedViewOf_eq_iff h'.asks).1 hextensions⟩
    obtain ⟨dn, hunique, hname⟩ := h.subject
    obtain ⟨dn', hunique', hname'⟩ := h'.subject
    rw [Name.view_of_parse?_ofView hunique hname,
      Name.view_of_parse?_ofView hunique' hname'] at hsubject
    rw [hsubject, hname'] at hname
    exact (Option.some.inj hname).symm
  · rintro ⟨hsubject, hextensions⟩
    have hasks := h.asks
    rw [hsubject] at hasks ⊢
    exact ⟨rfl, (hasks.requestedViewOf_eq_iff h'.asks).2 hextensions⟩

theorem isEmpty_differences_iff {b : Backend} {c : Certificate} {d : Draft} {e : Encoding}
    {publicKey : PublicKey} {digest digest' : Option Digest}
    (hc : c.info = f.viewWith publicKey digest) (hd : d.info = f'.viewWith publicKey digest') :
    (Desired.differences b { certificate := c, encoding := e } { draft := d, encoding := e }
        false).isEmpty = true ↔
      digest = digest' ∧ f.subject.view = f'.subject.view ∧
        requestedViewOf f.extensions f.subject.view.isEmpty =
          requestedViewOf f'.extensions f'.subject.view.isEmpty := by
  simp [Desired.differences, ChangeSet.isEmpty, ChangeSet.requiresReissue,
    ChangeSet.hasMetadataChanges, ChangeSet.signedAspects, ChangeSet.metadataAspects, hc, hd,
    viewWith, sameChain, ExtensionDiff.between_self, ExtensionDiff.between_eq_none_iff,
    and_left_comm]

end RequestForm

variable {m m' : Moment} {r r' : CertificateRequest} {subject : PublicKey}
  {signer signer' : SignerIdentity} {d d' : Draft} {signingKey signingKey' : PrivateKey}
  {digest digest' : Option Digest} {c c' : Certificate}

theorem SignatureAlgorithm.keyAlgorithm_of_choose {algorithm : KeyAlgorithm}
    {requested : Option Digest} {a : SignatureAlgorithm} (h : choose algorithm requested = .ok a) :
    a.keyAlgorithm = algorithm := by
  unfold choose at h
  split at h <;> first | exact Except.ok.inj h ▸ rfl | cases h

/-- The algorithm that a key handle names is that of the key. -/
theorem Signing.algorithm_signingKey (s : Signing d signingKey digest)
    (h : signDraft d signingKey digest = .ok c) :
    s.signingKey.algorithm = signingKey.algorithm := by
  simp only [signDraft, signingKeyFor, Outcome.bind_eq_ok_iff] at h
  obtain ⟨a, ha, k, ⟨k', hk', hk⟩, -⟩ := h
  obtain rfl := Except.ok.inj (s.signingKey_eq.symm.trans hk')
  split at hk
  · rename_i halgorithm
    rw [halgorithm, SignatureAlgorithm.keyAlgorithm_of_choose ha]
  · cases hk

/-- A signing request is for its subject's key, and has the view of what is stored; so has the draft
that it was signed from, but for the digest. -/
theorem exists_form_of_signDraft (hd : buildDraft m .csr r subject signer = .ok d)
    (hs : signDraft d signingKey digest = .ok c) :
    ∃ key f, SubjectKey.ofEncoded subject.encoded = .ok key ∧
      RequestForm.parse? c.encoded = some f ∧ f.IsFor key ∧
      c.info = f.viewWith subject c.info.digest ∧ d.info = f.viewWith subject d.info.digest := by
  obtain ⟨s, p, f, hderived, hkey, hp, hf, hrenders, hinfo, hc⟩ := signed_of_request hd hs
  have hsubject : (⟨.x509, s.signingKey.algorithm, s.signingKey.subjectKey.encode⟩ : PublicKey) =
      subject := by
    have heq := s.derived_eq
    rw [derivePublicKey, s.signingKey_eq] at heq
    rw [s.algorithm_signingKey hs, ← hderived, ← Except.ok.inj heq]
  have hview : c.info = f.viewWith subject c.info.digest := by
    rw [← hsubject, Except.ok.inj (hinfo.symm.trans hrenders.info_eq)]
    rfl
  have hwanted : d.info.publicKey = subject := by
    obtain ⟨_, _, _, _, _, -, -, -, -, -, rfl⟩ := renders_of_buildDraft_request hd
    rfl
  refine ⟨p.key, f, hkey, hf, RequestForm.isFor_of_renders hp hrenders, hview, ?_⟩
  calc
    d.info = { c.info with publicKey := subject, digest := d.info.digest } := by rw [hc, ← hwanted]
    _ = f.viewWith subject d.info.digest := by rw [hview]; rfl

/-- **Signing requests are compared in just what they are read for.** Take the signing request that
was issued for one request, and the draft for another one and the same key. Detection finds no
difference if and only if the digests are the same and the two signing requests ask for the same:
the same subject, the same purposes but for their order, and the same extensions of all other kinds,
except for `noCheck` and `nsComment`, which may differ. -/
theorem requestDrift_isEmpty_iff (hd : buildDraft m .csr r subject signer = .ok d)
    (hs : signDraft d signingKey digest = .ok c)
    (hd' : buildDraft m' .csr r' subject signer' = .ok d')
    (hs' : signDraft d' signingKey' digest' = .ok c') (encoding : Encoding) (now : Instant)
    (threshold : Span) :
    ∃ f f' changes, RequestForm.parse? c.encoded = some f ∧
      RequestForm.parse? c'.encoded = some f' ∧
      Desired.changesFrom Backend.x509 { certificate := c, encoding := encoding }
        { draft := d', encoding := encoding } now threshold = .ok changes ∧
      (changes.isEmpty = true ↔ c.info.digest = d'.info.digest ∧ f.AsksSame f') := by
  obtain ⟨key, f, hkey, hf, hfor, hc, -⟩ := exists_form_of_signDraft hd hs
  obtain ⟨key', f', hkey', hf', hfor', -, hinfo⟩ := exists_form_of_signDraft hd' hs'
  obtain rfl := Except.ok.inj (hkey.symm.trans hkey')
  have hcsr : d'.info.artifact = .csr := by
    rw [hinfo]
    rfl
  refine ⟨f, f', _, hf, hf', if_pos hcsr, ?_⟩
  rw [RequestForm.isEmpty_differences_iff hc hinfo, hfor.view_eq_iff hfor']

/-- A request with this comment. -/
def commentedRequest (comment : String) : CertificateRequest :=
  { CertificateRequest.new .x509 with
    nameAttributes := [(.cn, "www.example.com")]
    extensions := ExtensionSet.empty.insertRaw .nsComment comment }

structure CommentRun where
  subject : PublicKey
  draft : Draft
  issued : Certificate
  later : Draft
  again : Certificate

/-- A signing request is issued with a comment, and drafted and issued again with another one. -/
def commentRun : BackendResult CommentRun := do
  let subject ← derivePublicKey houseKey
  let draft ← buildDraft ⟨.ofSeconds 0, []⟩ .csr (commentedRequest "a") subject ⟨subject, none⟩
  let issued ← signDraft draft houseKey none
  let later ← buildDraft ⟨.ofSeconds 60, []⟩ .csr (commentedRequest "b") subject ⟨subject, none⟩
  let again ← signDraft later houseKey none
  return { subject, draft, issued, later, again }

/-- The comments of both signing requests, and whether detection finds a difference. -/
def CommentRun.outcome? (h : CommentRun) : Option (Option Bytes × Option Bytes × Bool) := do
  let f ← RequestForm.parse? h.issued.encoded
  let f' ← RequestForm.parse? h.again.encoded
  let changes ← (Desired.changesFrom Backend.x509 { certificate := h.issued, encoding := .pem }
    { draft := h.later, encoding := .pem } (.ofSeconds 60) .zero).toOption
  return ((extensionFor? .nsComment f.extensions).map (·.value),
    (extensionFor? .nsComment f'.extensions).map (·.value), changes.isEmpty)

theorem outcome_commentRun :
    commentRun.toOption.bind CommentRun.outcome? = some (some (ia5 "a"), some (ia5 "b"), true) := by
  simp only [commentRun, derivePublicKey_eq, signDraft_eq]
  decide +kernel

theorem of_commentRun {h : CommentRun} (hrun : commentRun = .ok h) :
    buildDraft ⟨.ofSeconds 0, []⟩ .csr (commentedRequest "a") h.subject ⟨h.subject, none⟩ =
      .ok h.draft ∧ signDraft h.draft houseKey none = .ok h.issued ∧
    buildDraft ⟨.ofSeconds 60, []⟩ .csr (commentedRequest "b") h.subject ⟨h.subject, none⟩ =
      .ok h.later ∧ signDraft h.later houseKey none = .ok h.again := by
  simp only [commentRun, Outcome.bind_eq_ok_iff] at hrun
  obtain ⟨subject, -, draft, hd, issued, hs, later, hd', again, hs', hrun⟩ := hrun
  obtain rfl := Except.ok.inj hrun
  exact ⟨hd, hs, hd', hs'⟩

theorem exists_of_outcome? {h : CommentRun} {x y : Option Bytes} {found : Bool}
    (hout : h.outcome? = some (x, y, found)) : ∃ f f' changes,
      RequestForm.parse? h.issued.encoded = some f ∧ RequestForm.parse? h.again.encoded = some f' ∧
      Desired.changesFrom Backend.x509 { certificate := h.issued, encoding := .pem }
        { draft := h.later, encoding := .pem } (.ofSeconds 60) .zero = .ok changes ∧
      (extensionFor? .nsComment f.extensions).map (·.value) = x ∧
      (extensionFor? .nsComment f'.extensions).map (·.value) = y ∧ changes.isEmpty = found := by
  obtain ⟨f, hf, hout⟩ := Option.bind_eq_some_iff.1 hout
  obtain ⟨f', hf', hout⟩ := Option.bind_eq_some_iff.1 hout
  obtain ⟨changes, hchanges, hout⟩ := Option.bind_eq_some_iff.1 hout
  obtain ⟨hx, hout⟩ := Prod.mk.inj (Option.some.inj hout)
  obtain ⟨hy, hfound⟩ := Prod.mk.inj hout
  exact ⟨f, f', changes, hf, hf', Outcome.toOption_eq_some_iff.1 hchanges, hx, hy, hfound⟩

theorem requestDrift_isEmpty_iff_comment : ∃ (h : CommentRun) (f f' : RequestForm)
    (changes : ChangeSet), commentRun = .ok h ∧ RequestForm.parse? h.issued.encoded = some f ∧
      RequestForm.parse? h.again.encoded = some f' ∧
      Desired.changesFrom Backend.x509 { certificate := h.issued, encoding := .pem }
        { draft := h.later, encoding := .pem } (.ofSeconds 60) .zero = .ok changes ∧
      changes.isEmpty = true ∧ f.AsksSame f' := by
  obtain ⟨h, hrun, hout⟩ := Option.bind_eq_some_iff.1 outcome_commentRun
  have hok := Outcome.toOption_eq_some_iff.1 hrun
  obtain ⟨hd, hs, hd', hs'⟩ := of_commentRun hok
  obtain ⟨_, _, changes, -, -, hchanges, -, -, hempty⟩ := exists_of_outcome? hout
  obtain ⟨f, f', found, hf, hf', hfound, hiff⟩ :=
    requestDrift_isEmpty_iff hd hs hd' hs' .pem (.ofSeconds 60) .zero
  obtain rfl := Except.ok.inj (hchanges.symm.trans hfound)
  exact ⟨h, f, f', changes, hok, hf, hf', hchanges, hempty, (hiff.1 hempty).2⟩

/-- Detection finds nothing, although the two signing requests ask for different comments. -/
theorem commentDrift_missed : ∃ (h : CommentRun) (f f' : RequestForm) (changes : ChangeSet)
    (e e' : Extension),
    buildDraft ⟨.ofSeconds 0, []⟩ .csr (commentedRequest "a") h.subject ⟨h.subject, none⟩ =
      .ok h.draft ∧ signDraft h.draft houseKey none = .ok h.issued ∧
    buildDraft ⟨.ofSeconds 60, []⟩ .csr (commentedRequest "b") h.subject ⟨h.subject, none⟩ =
      .ok h.later ∧ signDraft h.later houseKey none = .ok h.again ∧
    RequestForm.parse? h.issued.encoded = some f ∧ RequestForm.parse? h.again.encoded = some f' ∧
    Desired.changesFrom Backend.x509 { certificate := h.issued, encoding := .pem }
      { draft := h.later, encoding := .pem } (.ofSeconds 60) .zero = .ok changes ∧
    changes.isEmpty = true ∧ extensionFor? .nsComment f.extensions = some e ∧
    extensionFor? .nsComment f'.extensions = some e' ∧ e.value ≠ e'.value := by
  obtain ⟨h, hrun, hout⟩ := Option.bind_eq_some_iff.1 outcome_commentRun
  obtain ⟨hd, hs, hd', hs'⟩ := of_commentRun (Outcome.toOption_eq_some_iff.1 hrun)
  obtain ⟨f, f', changes, hf, hf', hchanges, hfirst, hsecond, hempty⟩ := exists_of_outcome? hout
  obtain ⟨e, he, hvalue⟩ := Option.map_eq_some_iff.1 hfirst
  obtain ⟨e', he', hvalue'⟩ := Option.map_eq_some_iff.1 hsecond
  refine ⟨h, f, f', changes, e, e', hd, hs, hd', hs', hf, hf', hchanges, hempty, he, he', ?_⟩
  rw [hvalue, hvalue']
  decide +kernel

end CertAuthority.X509
