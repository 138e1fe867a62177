import CertAuthority.Peer.Authority
import CertAuthority.Proofs.Certificate.Changes

/-!
# Resolution on both sides of a channel

A requester learns its policy without the secrets, and resolves its own request against that. The
authority holds the full policy but only what is left of the request after both sides have cut it
down. Both come to the same terms.

* `CertificateRequest.SameTerms` : the requests ask for the same artifact, whatever keys they name
  and wherever it goes;
* `SameTerms.resolve` : the terms of a resolved request come from the policy and the terms of the
  request alone;
* `CertificateRequest.sameTerms_under_redacted` : the requester's resolution and the authority's.
-/

namespace CertAuthority

namespace CertificateRequest

/-- The requests agree on the content of the artifact, on its dates and on the digest. -/
structure SameTerms (r s : CertificateRequest) : Prop extends SameContent r s where
  notBefore : r.notBefore = s.notBefore
  notAfter : r.notAfter = s.notAfter
  ttl : r.ttl = s.ttl
  digest : r.digest = s.digest

variable {r s t : CertificateRequest}

theorem SameTerms.trans (h : r.SameTerms s) (h' : s.SameTerms t) : r.SameTerms t where
  kind := h.kind.trans h'.kind
  subject := h.subject.trans h'.subject
  nameAttributes := h.nameAttributes.trans h'.nameAttributes
  principals := h.principals.trans h'.principals
  keyId := h.keyId.trans h'.keyId
  certType := h.certType.trans h'.certType
  options := h.options.trans h'.options
  extensions := h.extensions.trans h'.extensions
  notBefore := h.notBefore.trans h'.notBefore
  notAfter := h.notAfter.trans h'.notAfter
  ttl := h.ttl.trans h'.ttl
  serialNumber := h.serialNumber.trans h'.serialNumber
  digest := h.digest.trans h'.digest

/-- Neither what a requester keeps back nor what an authority refuses to read is a term. -/
theorem sameTerms_confined_forRemote (r : CertificateRequest) :
    r.SameTerms r.forRemote.confined := by
  have hcontent : r.SameContent r.forRemote.confined := by constructor <;> rfl
  exact { hcontent with notBefore := rfl, notAfter := rfl, ttl := rfl, digest := rfl }

/-! ## One policy -/

open SigningPolicy (applyOverrides)

theorem SameTerms.applyIdentity (h : r.SameTerms s) (p : SigningPolicy) :
    (p.applyIdentity r).SameTerms (p.applyIdentity s) := by
  unfold SigningPolicy.applyIdentity
  cases p.kind with
  | ssh => exact { h with principals := congrArg p.principalsFor h.principals }
  | x509 =>
    exact { h with
      subject := congrArg p.subjectFor h.subject
      nameAttributes := congrArg p.attributesFor h.nameAttributes }

theorem SameTerms.applyOverrides (h : r.SameTerms s) (o : Overrides) :
    (applyOverrides o r).SameTerms (applyOverrides o s) :=
  { h with
    certType := congrArg (o.certType <|> ·) h.certType
    keyId := congrArg (o.keyId <|> ·) h.keyId
    digest := congrArg (o.digest <|> ·) h.digest
    serialNumber := congrArg (o.serialNumber <|> ·) h.serialNumber
    notBefore := congrArg (o.notBefore <|> ·) h.notBefore
    notAfter := congrArg (o.notAfter <|> ·) h.notAfter }

theorem SameTerms.ttlFor (h : r.SameTerms s) (p : SigningPolicy) : p.ttlFor r = p.ttlFor s := by
  have hspan : SigningPolicy.requestedSpan? r = SigningPolicy.requestedSpan? s := by
    simp only [SigningPolicy.requestedSpan?, h.notBefore, h.notAfter]
  simp only [SigningPolicy.ttlFor, SigningPolicy.requestedTtl?, hspan, h.ttl]

/-- A policy reads nothing but the terms of a request to settle those of its result. -/
theorem SameTerms.resolve (h : r.SameTerms s) (p : SigningPolicy) :
    (p.resolve r).SameTerms (p.resolve s) := by
  have hnotAfter : p.notAfterFor r = p.notAfterFor s := by
    simp only [SigningPolicy.notAfterFor, h.notAfter]
  refine SameTerms.applyOverrides ?_ p.overrides
  exact { h.applyIdentity p with
    options := congrArg (mergeSet _ _ _) h.options
    extensions := congrArg (mergeSet _ _ _) h.extensions
    ttl := h.ttlFor p
    notAfter := hnotAfter }

/-! ## Two forms of a policy -/

/-- No rule of a policy looks at its secrets. -/
theorem sameTerms_resolve_redacted (p : SigningPolicy) (r : CertificateRequest) :
    (p.redacted.resolve r).SameTerms (p.resolve r) := by
  have hcontent : (p.redacted.resolve r).SameContent (p.resolve r) := by constructor <;> rfl
  exact { hcontent with notBefore := rfl, notAfter := rfl, ttl := rfl, digest := rfl }

theorem sameTerms_under_redacted (p : SigningPolicy) (r : CertificateRequest) :
    (r.under p.redacted).SameTerms (r.forRemote.confined.under p) := by
  have hpolicy : (p.redacted.resolve r).SameTerms (p.resolve r) := sameTerms_resolve_redacted p r
  have hrequest : (p.resolve r).SameTerms (p.resolve r.forRemote.confined) :=
    (sameTerms_confined_forRemote r).resolve p
  exact hpolicy.trans hrequest

end CertificateRequest
end CertAuthority
