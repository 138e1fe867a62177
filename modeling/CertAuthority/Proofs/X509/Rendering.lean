import CertAuthority.Proofs.X509.Extensions
import CertAuthority.Proofs.X509.Keys

/-!
# Certificates and requests as they were rendered

A certificate that was issued for a plan is read back as that plan: serial number, names, dates, key
and extensions, with the algorithm and the signature of whoever signed it.

* `CertificatePlan.issuerUnder` : the issuer that a plan is signed for;
* `CertificateForm.Renders` : the stored form is what the plan was rendered to;
* `CertificatePlan.renders_of_issue` : so it is for every certificate that is issued;
* `CertificateForm.info_of_renders` : its view, and `CertificateForm.Renders.info_agree` : views of
  one plan under two signers differ in the digest alone;
* `RequestForm.Renders`, `RequestForm.Renders.info_agree` : the same for signing requests, where the
  key is the signer's as well, and `RequestForm.Renders.requested` : what they ask for.
-/

namespace CertAuthority.X509

open Der

/-! ## Names -/

/-- A name is read from its own bytes. -/
theorem Name.of_parser_encode {n : IssuedName} {r : Rules} {rest b : Bytes} {x : Name}
    (h : Name.parser r (n.encode ++ rest) = some (x, b)) :
    Name.parser.parse? r n.encode = some x ∧ b = rest := by
  obtain ⟨⟨left, hsets⟩, rfl⟩ := of_inSequence_seqOf h
  refine ⟨?_, rfl⟩
  have hread : Name.parser r (n.encode ++ []) = some (x, []) :=
    (inSequence_seqOf (length_of_inSequence_seqOf h)).trans
      (congrArg (Option.map fun y => (y.1, [])) hsets)
  rw [List.append_nil] at hread
  exact congrArg (Option.map Prod.fst) hread

theorem taggedIf_of_head?_ne {tag : UInt8} {r : Rules} {b : Bytes} (h : b.head? ≠ some tag) :
    taggedIf tag r b = some (none, b) := by
  rw [taggedIf, bind_eq_some_iff]
  refine ⟨b.head?, b, rfl, ?_⟩
  rw [if_neg h]
  rfl

/-- The extensions are behind none of the optional fields before them. -/
theorem taggedIf_extensions {tag other : UInt8} (hne : other ≠ tag) (es : List Extension)
    (r : Rules) :
    taggedIf tag r
        (if es.isEmpty then [] else [element other (seqOf (es.map Extension.encode))]).flatten =
      some (none, List.flatten
        (if es.isEmpty then [] else [element other (seqOf (es.map Extension.encode))])) := by
  refine taggedIf_of_head?_ne fun h => ?_
  split at h
  · cases h
  · exact hne (Option.some.inj h)

/-- Extensions at their tag, or nothing where there are none. -/
theorem Extension.of_taggedExtensions_unless {number tag : UInt8} {es found : List Extension}
    {r : Rules} {b : Bytes} (hes : ∀ e ∈ es, e.IsNamed)
    (h : taggedExtensions number r
      (if es.isEmpty then [] else [element tag (seqOf (es.map encode))]).flatten =
        some (found, b)) :
    found = es ∧ ∀ e ∈ es, e.value.length < bitLimit 64 := by
  cases es with
  | nil =>
    obtain ⟨rfl, -⟩ := Prod.mk.inj (Option.some.inj h)
    exact ⟨rfl, nofun⟩
  | cons e es =>
    rw [if_neg (by simp), List.flatten_cons, List.flatten_nil, List.append_nil] at h
    exact of_taggedExtensions hes h

/-! ## Certificates -/

namespace CertificatePlan

variable {p : CertificatePlan} {authority : Option Certificate} {issuer : Issuer} {s : Signer}

/-- The issuer: the authority behind a certificate, or else the subject itself. -/
def issuerUnder (p : CertificatePlan) : Option Certificate → BackendResult Issuer
  | some c => Issuer.ofCertificate c
  | none => .ok { name := p.subject }

/-- Number that stands in the certificate. -/
def serialValue (p : CertificatePlan) : Nat :=
  match p.serial with
  | some s => s.value
  | none => fallbackSerial p.key

def context (p : CertificatePlan) (issuer : Issuer) (s : Signer) : ExtensionContext where
  subjectIsEmpty := p.subject.isEmpty
  subject := p.key
  authority := issuer.keyIdentifier.getD s.key.identifier

theorem issue_eq_ok_iff {der : Bytes} :
    p.issue authority s = .ok der ↔ ∃ issuer part, p.issuerUnder authority = .ok issuer ∧
      p.certificatePart issuer s = .ok part ∧ s.endorse part = .ok der := by
  cases authority <;>
    simp [issue, issuerUnder, Outcome.bind_eq_ok_iff, pure, Except.pure]

/-- All of a signed part. -/
theorem certificatePart_eq_ok_parts {start stop : Instant} {part : Bytes}
    (hp : p.validity = some (start, stop)) (h : p.certificatePart issuer s = .ok part) :
    ∃ x y es, Date.encode? start = some x ∧ Date.encode? stop = some y ∧
      p.extensions.extensions (p.context issuer s) = .ok es ∧
      part = seqOf ([explicit 0 (nat 2), nat p.serialValue, s.algorithm.encode,
        issuer.name.encode, seqOf [x, y], p.subject.encode, p.key.encode] ++
        if es.isEmpty then [] else [explicit 3 (seqOf (es.map Extension.encode))]) := by
  simp only [certificatePart, Outcome.bind_eq_ok_iff, hp, Option.getD_some] at h
  obtain ⟨dates, hdates, es, hes, hpart⟩ := h
  obtain ⟨x, y, hx, hy, rfl⟩ := mapM_dateBytes_pair hdates
  exact ⟨x, y, es, hx, hy, hes, (Except.ok.inj hpart).symm⟩

end CertificatePlan

/-- The stored form is what the plan was rendered to. -/
structure CertificateForm.Renders (f : CertificateForm) (p : CertificatePlan) (issuer : Issuer)
    (s : Signer) : Prop where
  signed : p.certificatePart issuer s = .ok f.signed
  signature : s.sign? f.signed = some f.signature
  algorithm : f.signatureAlgorithm = s.algorithm.identifier
  serial : f.serial = natContent p.serialValue
  issuerName : Name.parser.parse? .tolerant issuer.name.encode = some f.issuer
  period : p.validity = some (f.notBefore, f.notAfter)
  subject : Name.parser.parse? .tolerant p.subject.encode = some f.subject
  key : f.key = p.key.info
  extensions : p.extensions.extensions (p.context issuer s) = .ok f.extensions
  short : ∀ e ∈ f.extensions, e.value.length < bitLimit 64

/-- The signature is made over the signed part. -/
theorem Signer.endorse_eq_ok_iff {s : Signer} {part der : Bytes} :
    s.endorse part = .ok der ↔ ∃ signature, s.sign? part = some signature ∧
      der = seqOf [part, s.algorithm.encode, bits signature] := by
  cases h : s.sign? part with
  | none => simp [endorse, h, Outcome.fail]
  | some signature =>
    simp only [endorse, h, Except.ok.injEq, Option.some.injEq, exists_eq_left']
    exact eq_comm

theorem CertificatePlan.renders_of_issue {p : CertificatePlan} {issuer : Issuer} {s : Signer}
    {part der : Bytes} {start stop : Instant} {f : CertificateForm}
    (hp : p.validity = some (start, stop)) (ha : start.nanos = 0) (hb : stop.nanos = 0)
    (hpart : p.certificatePart issuer s = .ok part) (hder : s.endorse part = .ok der)
    (hf : CertificateForm.parse? der = some f) : f.Renders p issuer s := by
  obtain ⟨signature, hsignature, rfl⟩ := Signer.endorse_eq_ok_iff.1 hder
  obtain ⟨x, y, es, hx, hy, hes, rfl⟩ := certificatePart_eq_ok_parts hp hpart
  obtain ⟨_, hread⟩ := of_parse?_signed hf
  simp only [bind_eq_some_iff, within_eq_some_iff, pure_eq_some_iff, List.flatten_cons,
    List.flatten_nil] at hread
  obtain ⟨inner, _, ⟨⟨left, hsigned⟩, rfl⟩, _, _, halgorithm, found, _, hbits, rfl, -⟩ := hread
  rw [AlgorithmIdentifier.parser_signature] at halgorithm
  obtain ⟨rfl, rfl⟩ := Prod.mk.inj (Option.some.inj halgorithm)
  obtain ⟨rfl, -⟩ := of_bitsValue_bits hbits
  simp only [CertificateForm.signedFields, bind_eq_some_iff, pure_eq_some_iff, Prod.exists,
    List.flatten_append, List.flatten_cons, List.flatten_nil, List.append_nil,
    List.append_assoc] at hsigned
  obtain ⟨_, _, hversion, serial, _, hserial, _, _, hinner, issuerName, _, hissuer, start', stop',
    _, hperiod, hsigned⟩ := hsigned
  obtain rfl := CertificateForm.of_version hversion
  obtain ⟨rfl, rfl⟩ := of_tagged_element (by decide) hserial
  obtain rfl := AlgorithmIdentifier.of_parser hinner
  obtain ⟨hissuerName, rfl⟩ := Name.of_parser_encode hissuer
  obtain ⟨hdates, rfl⟩ := CertificateForm.of_validity ha hb hx hy hperiod
  obtain ⟨rfl, rfl⟩ := Prod.mk.inj hdates
  obtain ⟨subject, _, hsubject, key, _, hkey, hsigned⟩ := hsigned
  obtain ⟨hsubjectName, rfl⟩ := Name.of_parser_encode hsubject
  obtain ⟨rfl, rfl⟩ := KeyInfo.of_parser_encode hkey
  obtain ⟨_, _, hone, _, _, htwo, extensions, _, hextensions, rfl, -⟩ := hsigned
  rw [explicit, taggedIf_extensions (by decide)] at hone
  obtain ⟨-, rfl⟩ := Prod.mk.inj (Option.some.inj hone)
  rw [taggedIf_extensions (by decide)] at htwo
  obtain ⟨-, rfl⟩ := Prod.mk.inj (Option.some.inj htwo)
  obtain ⟨rfl, hshort⟩ :=
    Extension.of_taggedExtensions_unless (ExtensionPlan.isNamed_extensions hes) hextensions
  exact {
    signed := hpart
    signature := hsignature
    algorithm := rfl
    serial := rfl
    issuerName := hissuerName
    period := hp
    subject := hsubjectName
    key := rfl
    extensions := hes
    short := hshort }

namespace CertificateForm.Renders

variable {f f' : CertificateForm} {p : CertificatePlan} {issuer : Issuer} {s s' : Signer}

/-- The view of a certificate, by the plan it renders. -/
theorem info_eq (h : f.Renders p issuer s) :
    f.info = .ok {
      publicKey := ⟨.x509, p.key.algorithm, p.key.encode⟩
      serialNumber := some ⟨p.serialValue⟩
      subject := some f.subject.view
      issuer := some f.issuer.view
      notBefore := p.validity.map (·.1)
      notAfter := p.validity.map (·.2)
      extensions := viewOf f.extensions
      digest := s.algorithm.digest? } := by
  simp only [CertificateForm.info, h.key, SubjectKey.handle_info, h.serial, h.algorithm, h.period,
    SerialNumber.ofBytes, toNat_natContent, SignatureAlgorithm.identifier,
    SignatureAlgorithm.digestOfOid?_oid]
  rfl

/-- Names and extensions do not depend on the signer, nor on dates and serial number. -/
theorem content_eq {p' : CertificatePlan} (h : f.Renders p issuer s) (h' : f'.Renders p' issuer s')
    (hsubject : p'.subject = p.subject) (hkey : p'.key = p.key)
    (hextensions : p'.extensions = p.extensions) :
    f'.subject = f.subject ∧ f'.issuer = f.issuer ∧ viewOf f'.extensions = viewOf f.extensions := by
  have hname := h'.subject
  have hread := h'.extensions
  rw [hsubject] at hname
  rw [hextensions] at hread
  have hempty : (p'.context issuer s').subjectIsEmpty = (p.context issuer s).subjectIsEmpty :=
    congrArg IssuedName.isEmpty hsubject
  exact ⟨Option.some.inj (hname.symm.trans h.subject),
    Option.some.inj (h'.issuerName.symm.trans h.issuerName),
    ExtensionPlan.viewOf_extensions hempty hkey hread h.extensions h'.short h.short⟩

/-- Who signs a plan shows in the digest alone. -/
theorem info_agree {i i' : CertificateInfo} (h : f.Renders p issuer s)
    (h' : f'.Renders p issuer s') (hi : f.info = .ok i) (hi' : f'.info = .ok i') :
    i' = { i with digest := s'.algorithm.digest? } := by
  obtain ⟨hsubject, hissuer, hextensions⟩ := h.content_eq h' rfl rfl rfl
  rw [h.info_eq] at hi
  rw [h'.info_eq, hissuer, hsubject, hextensions] at hi'
  rw [← Except.ok.inj hi, ← Except.ok.inj hi']

end CertificateForm.Renders

/-! ## Signing requests -/

namespace CertificatePlan

variable {p : CertificatePlan} {s : Signer} {der : Bytes}

/-- The attributes of a signing request, which hold the requested extensions. -/
def attributeBytes (p : CertificatePlan) : BackendResult Bytes := do
  let extensions ← p.extensions.requested p.subject.isEmpty p.key
  return explicit 0 (if extensions.isEmpty then [] else requestAttribute extensions)

theorem request_eq_ok_iff : p.request s = .ok der ↔
    ∃ attributes, p.attributeBytes = .ok attributes ∧
      s.endorse (seqOf [nat 0, p.subject.encode, s.key.encode, attributes]) = .ok der := by
  simp only [request, attributeBytes, Outcome.bind_eq_ok_iff, pure, Except.pure, Except.ok.injEq]
  constructor
  · rintro ⟨es, hes, hder⟩
    exact ⟨_, ⟨es, hes, rfl⟩, hder⟩
  · rintro ⟨_, ⟨es, hes, rfl⟩, hder⟩
    exact ⟨es, hes, hder⟩

end CertificatePlan

/-- The stored request is what the plan was rendered to. -/
structure RequestForm.Renders (f : RequestForm) (p : CertificatePlan) (s : Signer) : Prop where
  algorithm : f.signatureAlgorithm = s.algorithm.identifier
  subject : Name.parser.parse? .tolerant p.subject.encode = some f.subject
  key : f.key = s.key.info
  extensions : ∃ attributes found, p.attributeBytes = .ok attributes ∧
    RequestForm.attributes.parse? .tolerant attributes = some found ∧
      f.extensions = (found.findSome? id).getD []

theorem natBelow_zero (r : Rules) (rest : Bytes) :
    natBelow (bitLimit 32) r (nat 0 ++ rest) = some (0, rest) := by
  refine natBelow_nat (by decide) ?_ r rest
  simp [natContent, Bytes.ofNat, Bytes.ofNatAux, bitLimit]

theorem CertificatePlan.renders_of_request {p : CertificatePlan} {s : Signer} {der : Bytes}
    {f : RequestForm} (h : p.request s = .ok der) (hf : RequestForm.parse? der = some f) :
    f.Renders p s := by
  obtain ⟨attributes, hattributes, hder⟩ := request_eq_ok_iff.1 h
  obtain ⟨signature, -, rfl⟩ := Signer.endorse_eq_ok_iff.1 hder
  obtain ⟨_, hread⟩ := of_parse?_signed hf
  simp only [bind_eq_some_iff, within_eq_some_iff, pure_eq_some_iff, List.flatten_cons,
    List.flatten_nil, List.append_nil, Prod.exists] at hread
  obtain ⟨subject, key, extensions, _, ⟨⟨left, hsigned⟩, rfl⟩, _, _, halgorithm, _, _, -, rfl, -⟩ :=
    hread
  rw [AlgorithmIdentifier.parser_signature] at halgorithm
  obtain ⟨rfl, rfl⟩ := Prod.mk.inj (Option.some.inj halgorithm)
  simp only [RequestForm.signedFields, bind_eq_some_iff, pure_eq_some_iff, natBelow_zero,
    Option.some.injEq, Prod.mk.injEq] at hsigned
  obtain ⟨_, _, ⟨-, rfl⟩, name, _, hname, written, _, hwritten, found, _, hfound, ⟨rfl, rfl, rfl⟩,
    rfl⟩ := hsigned
  obtain ⟨hsubject, rfl⟩ := Name.of_parser_encode hname
  obtain ⟨rfl, rfl⟩ := KeyInfo.of_parser_encode hwritten
  exact {
    algorithm := rfl
    subject := hsubject
    key := rfl
    extensions := ⟨_, found, hattributes, congrArg (Option.map Prod.fst) hfound, rfl⟩ }

namespace RequestForm.Renders

variable {f f' : RequestForm} {p : CertificatePlan} {s s' : Signer}

/-- The view of a signing request, by the plan it renders. -/
theorem info_eq (h : f.Renders p s) :
    f.info = .ok {
      artifact := .csr
      publicKey := ⟨.x509, s.key.algorithm, s.key.encode⟩
      subject := some f.subject.view
      extensions := requestedViewOf f.extensions f.subject.view.isEmpty
      digest := s.algorithm.digest? } := by
  simp only [RequestForm.info, h.key, SubjectKey.handle_info, h.algorithm,
    SignatureAlgorithm.identifier, SignatureAlgorithm.digestOfOid?_oid]
  rfl

/-- Who signs a request shows in the key and the digest alone. -/
theorem info_agree {i i' : CertificateInfo} (h : f.Renders p s) (h' : f'.Renders p s')
    (hi : f.info = .ok i) (hi' : f'.info = .ok i') :
    i' = { i with
      publicKey := ⟨.x509, s'.key.algorithm, s'.key.encode⟩
      digest := s'.algorithm.digest? } := by
  have hsubject : f'.subject = f.subject := Option.some.inj (h'.subject.symm.trans h.subject)
  have hextensions : f'.extensions = f.extensions := by
    obtain ⟨bytes, found, hbytes, hfound, hlist⟩ := h.extensions
    obtain ⟨bytes', found', hbytes', hfound', hlist'⟩ := h'.extensions
    obtain rfl := Except.ok.inj (hbytes.symm.trans hbytes')
    obtain rfl := Option.some.inj (hfound.symm.trans hfound')
    rw [hlist, hlist']
  rw [h.info_eq] at hi
  rw [h'.info_eq, hsubject, hextensions] at hi'
  rw [← Except.ok.inj hi, ← Except.ok.inj hi']

end RequestForm.Renders

/-! ## Requested extensions -/

namespace RequestForm

variable {es : List Extension} {r : Rules} {rest b : Bytes}

/-- The attribute with the requested extensions is read as these. -/
theorem of_requestEntry (hes : ∀ e ∈ es, e.IsNamed) {x : Option (List Extension)}
    (h : requestEntry r (CertificatePlan.requestAttribute es ++ rest) = some (x, b)) :
    (x = some es ∧ b = rest) ∧ ∀ e ∈ es, e.value.length < bitLimit 64 := by
  obtain ⟨⟨left, hfields⟩, rfl⟩ := of_inSequence_seqOf h
  simp only [bind_eq_some_iff, List.flatten_cons, List.flatten_nil, List.append_nil] at hfields
  obtain ⟨o, _, ho, content, _, hcontent, hread⟩ := hfields
  obtain ⟨harcs, rfl⟩ := of_oidValue_oid ho
  rw [← List.append_nil (element tagSet _)] at hcontent
  obtain ⟨rfl, rfl⟩ := of_tagged_element (by decide) hcontent
  have hname : arcsOfContent? (oidContent CertificatePlan.oidExtensionRequest) =
      some CertificatePlan.oidExtensionRequest := by with_unfolding_all decide
  rw [if_pos (Option.some.inj (harcs.symm.trans hname)), map_eq_some_iff] at hread
  obtain ⟨found, hread, rfl⟩ := hread
  obtain ⟨⟨left', hlist⟩, -⟩ := within_eq_some_iff.1 hread
  rw [← List.append_nil (seqOf _)] at hlist
  obtain ⟨⟨rfl, hshort⟩, -⟩ := Extension.of_listParser hes hlist
  exact ⟨⟨rfl, rfl⟩, hshort⟩

/-- The attributes of a request hold just what was put into them. -/
theorem of_attributes (hes : ∀ e ∈ es, e.IsNamed) {found : List (Option (List Extension))}
    (h : attributes.parse? r (explicit 0
      (if es.isEmpty then [] else CertificatePlan.requestAttribute es)) = some found) :
    (found.findSome? id).getD [] = es ∧ ∀ e ∈ es, e.value.length < bitLimit 64 := by
  obtain ⟨⟨found', left⟩, hread, rfl⟩ := Option.map_eq_some_iff.1 h
  obtain ⟨u, _, hskip, hmany⟩ := bind_eq_some_iff.1 hread
  rw [explicit, ← List.append_nil (element _ _)] at hskip
  obtain ⟨-, rfl⟩ := of_skipHeader_element hskip
  rw [List.append_nil] at hmany
  have hreads (written : List (List Extension)) (hwritten : ∀ es ∈ written, ∀ e ∈ es, e.IsNamed) :
      Reads r requestEntry CertificatePlan.requestAttribute some id written :=
    ⟨by cases r <;> rfl, fun _ _ => List.cons_ne_nil _ _,
      fun x hx _ _ _ hx' => (of_requestEntry (hwritten x hx) hx').1⟩
  cases es with
  | nil =>
    obtain ⟨hnone, -⟩ := (hreads [] nofun).of_manyToEnd hmany
    rw [List.map_id] at hnone
    rw [hnone]
    exact ⟨rfl, nofun⟩
  | cons e es =>
    have hone := hreads [e :: es] (List.forall_mem_singleton.2 hes)
    have hbytes : (if (e :: es).isEmpty then [] else CertificatePlan.requestAttribute (e :: es)) =
        ([e :: es].map CertificatePlan.requestAttribute).flatten := by
      rw [List.map_singleton, List.flatten_singleton]
      rfl
    rw [hbytes] at hmany
    obtain ⟨hfound, hsome, -⟩ := hone.of_manyToEnd hmany
    rw [List.map_id] at hfound
    obtain ⟨rest, hrest⟩ := hsome _ List.mem_cons_self
    obtain ⟨⟨x, b⟩, hx⟩ := Option.isSome_iff_exists.1 hrest
    rw [hfound]
    exact ⟨rfl, (of_requestEntry hes hx).2⟩

/-- A stored request asks for the extensions of its plan. -/
theorem Renders.requested {f : RequestForm} {p : CertificatePlan} {s : Signer}
    (h : f.Renders p s) :
    p.extensions.requested p.subject.isEmpty p.key = .ok f.extensions ∧
      ∀ e ∈ f.extensions, e.value.length < bitLimit 64 := by
  obtain ⟨attributes, found, hattributes, hfound, hextensions⟩ := h.extensions
  obtain ⟨es, hes, hbytes⟩ := Outcome.bind_eq_ok_iff.1 hattributes
  rw [← Except.ok.inj hbytes] at hfound
  obtain ⟨hfirst, hshort⟩ := of_attributes (ExtensionPlan.isNamed_requested hes) hfound
  rw [hextensions, hfirst]
  exact ⟨hes, hshort⟩

end RequestForm

end CertAuthority.X509
