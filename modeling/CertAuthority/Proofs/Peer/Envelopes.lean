import CertAuthority.Peer.Envelope
import CertAuthority.Proofs.Json.Values

/-!
# Envelopes that were written are read back

Requests, policies, descriptions and envelopes come back whole from their JSON. Members that were
left out are read as the default that they were left out for.

* `CertificateRequest.IsWritable`, `SigningPolicy.IsWritable` : dates are times of day, lengths of
  time fit 64 bits, and attribute values are as `AttributeValue.IsWritable` says. Nothing else is
  asked for;
* `CertificateRequest.codes`, `SigningPolicy.codes` : requests and policies;
* `RequestEnvelope.codes`, `ReplyEnvelope.codes` : what goes to an authority, and what comes back.
-/

namespace CertAuthority

attribute [local simp] List.lookup_append

/-! ## Requests -/

namespace CertificateRequest

structure IsWritable (r : CertificateRequest) : Prop where
  options : r.options.IsWritable
  extensions : r.extensions.IsWritable
  notBefore : ∀ t ∈ r.notBefore, t.IsCivil
  notAfter : ∀ t ∈ r.notAfter, t.IsCivil
  ttl : ∀ n ∈ r.ttl, n < bitLimit 64
  revoked : ∀ c ∈ r.revoked, c.IsWritable

theorem codes {r : CertificateRequest} (h : r.IsWritable) : Json.Codes read toJson r := by
  refine ⟨Json.asRecord_eq_ok ?_, nofun⟩
  refine .bind (.field (by simp) r.kind.codes) ?_
  refine .bind (.field? (a := r.publicKey) (by simp) fun a _ => a.codes) ?_
  refine .bind (.field? (a := r.privateKey) (by simp) fun a _ => a.codes) ?_
  refine .bind (.field? (a := r.privateKeyPassphrase) (by simp) fun s _ => Json.codes_asString s) ?_
  refine .bind (.field? (a := r.csr) (by simp) fun a _ => a.codes) ?_
  refine .bind (.field? (a := r.subject) (by simp) fun a _ => a.codes) ?_
  refine .bind (.fieldD (a := r.nameAttributes) (by simp) List.isEmpty_iff.1
    (Json.codes_asList fun e _ => DistinguishedName.codes_pairToJson e)) ?_
  refine .bind (.fieldD (a := r.principals) (by simp) Principals.eq_of_isUnspecified
    r.principals.codes) ?_
  refine .bind (.field? (a := r.keyId) (by simp) fun s _ => Json.codes_asString s) ?_
  refine .bind (.field? (a := r.certType) (by simp) fun a _ => a.codes) ?_
  refine .bind (.fieldD (a := r.options) (by simp) ExtensionSet.eq_empty_of_isEmpty
    (ExtensionSet.codes h.options)) ?_
  refine .bind (.fieldD (a := r.extensions) (by simp) ExtensionSet.eq_empty_of_isEmpty
    (ExtensionSet.codes h.extensions)) ?_
  refine .bind (.field? (a := r.notBefore) (by simp)
    fun t ht => Json.codes_ofInstant (h.notBefore t ht)) ?_
  refine .bind (.field? (a := r.notAfter) (by simp)
    fun t ht => Json.codes_ofInstant (h.notAfter t ht)) ?_
  refine .bind (.field? (a := r.ttl) (by simp) fun n hn => Json.codes_asU64 (h.ttl n hn)) ?_
  refine .bind (.field? (a := r.serialNumber) (by simp) fun a _ => a.codes) ?_
  refine .bind (.field? (a := r.digest) (by simp) fun a _ => a.codes) ?_
  refine .bind (.field? (a := r.signingPrivateKey) (by simp) fun a _ => a.codes) ?_
  refine .bind (.field? (a := r.signingPrivateKeyPassphrase) (by simp)
    fun s _ => Json.codes_asString s) ?_
  refine .bind (.field? (a := r.signingCert) (by simp) fun a _ => a.codes) ?_
  refine .bind (.field? (a := r.signingPublicKey) (by simp) fun a _ => a.codes) ?_
  refine .bind (.field? (a := r.copypath) (by simp) fun s _ => Json.codes_asString s) ?_
  refine .bind (.of_value (a := r.prependCn) (by simp) (Json.codes_asBool _).read_write _) ?_
  refine .bind (.of_value (a := r.encoding) (by simp) r.encoding.codes.read_write _) ?_
  refine .bind (.fieldD (a := r.appendCerts) (by simp) List.isEmpty_iff.1
    (Json.codes_asList fun e _ => e.codes)) ?_
  refine .bind (.field? (a := r.pkcs12FriendlyName) (by simp) fun s _ => Json.codes_asString s) ?_
  refine .bind (.field? (a := r.pkcs12Passphrase) (by simp) fun s _ => Json.codes_asString s) ?_
  refine .bind (.fieldD (a := r.revoked) (by simp) List.isEmpty_iff.1
    (Json.codes_asList fun e he => RevokedCertificate.codes (h.revoked e he))) ?_
  refine .bind (.of_value (a := r.includeExpired) (by simp) (Json.codes_asBool _).read_write _) ?_
  exact .pure r

theorem isWritable_new (kind : CertificateKind) : (new kind).IsWritable :=
  ⟨nofun, nofun, nofun, nofun, nofun, List.forall_mem_nil _⟩

theorem IsWritable.forRemote {r : CertificateRequest} (h : r.IsWritable) :
    r.forRemote.IsWritable :=
  ⟨h.options, h.extensions, h.notBefore, h.notAfter, h.ttl, List.forall_mem_nil _⟩

end CertificateRequest

/-! ## Policies -/

namespace Overrides

structure IsWritable (o : Overrides) : Prop where
  notBefore : ∀ t ∈ o.notBefore, t.IsCivil
  notAfter : ∀ t ∈ o.notAfter, t.IsCivil

theorem codes {o : Overrides} (h : o.IsWritable) : Json.Codes read toJson o := by
  refine ⟨Json.asRecord_eq_ok ?_, nofun⟩
  refine .bind (.field? (a := o.signingPrivateKey) (by simp) fun a _ => a.codes) ?_
  refine .bind (.field? (a := o.signingPrivateKeyPassphrase) (by simp)
    fun s _ => Json.codes_asString s) ?_
  refine .bind (.field? (a := o.signingCert) (by simp) fun a _ => a.codes) ?_
  refine .bind (.field? (a := o.signingPublicKey) (by simp) fun a _ => a.codes) ?_
  refine .bind (.field? (a := o.certType) (by simp) fun a _ => a.codes) ?_
  refine .bind (.field? (a := o.keyId) (by simp) fun s _ => Json.codes_asString s) ?_
  refine .bind (.field? (a := o.digest) (by simp) fun a _ => a.codes) ?_
  refine .bind (.field? (a := o.serialNumber) (by simp) fun a _ => a.codes) ?_
  refine .bind (.field? (a := o.notBefore) (by simp)
    fun t ht => Json.codes_ofInstant (h.notBefore t ht)) ?_
  refine .bind (.field? (a := o.notAfter) (by simp)
    fun t ht => Json.codes_ofInstant (h.notAfter t ht)) ?_
  refine .bind (.field? (a := o.copypath) (by simp) fun s _ => Json.codes_asString s) ?_
  refine .bind (.field? (a := o.prependCn) (by simp) fun b _ => Json.codes_asBool b) ?_
  exact .pure o

end Overrides

namespace SigningPolicy

structure IsWritable (p : SigningPolicy) : Prop where
  forcedOptions : p.forcedOptions.IsWritable
  defaultOptions : p.defaultOptions.IsWritable
  forcedExtensions : p.forcedExtensions.IsWritable
  defaultExtensions : p.defaultExtensions.IsWritable
  ttl : ∀ n ∈ p.ttl, n < bitLimit 64
  maxTtl : ∀ n ∈ p.maxTtl, n < bitLimit 64
  overrides : p.overrides.IsWritable

theorem codes {p : SigningPolicy} (h : p.IsWritable) : Json.Codes read toJson p := by
  refine ⟨Json.asRecord_eq_ok ?_, nofun⟩
  refine .bind (.field (by simp) p.kind.codes) ?_
  refine .bind (.fieldD (a := p.forcedOptions) (by simp) ExtensionSet.eq_empty_of_isEmpty
    (ExtensionSet.codes h.forcedOptions)) ?_
  refine .bind (.fieldD (a := p.defaultOptions) (by simp) ExtensionSet.eq_empty_of_isEmpty
    (ExtensionSet.codes h.defaultOptions)) ?_
  refine .bind (.of_value (a := p.allowedOptions) (by simp) p.allowedOptions.codes.read_write _) ?_
  refine .bind (.fieldD (a := p.forcedExtensions) (by simp) ExtensionSet.eq_empty_of_isEmpty
    (ExtensionSet.codes h.forcedExtensions)) ?_
  refine .bind (.fieldD (a := p.defaultExtensions) (by simp) ExtensionSet.eq_empty_of_isEmpty
    (ExtensionSet.codes h.defaultExtensions)) ?_
  refine .bind (.of_value (a := p.allowedExtensions) (by simp)
    p.allowedExtensions.codes.read_write _) ?_
  refine .bind (.field? (a := p.allowedPrincipals) (by simp) fun ss _ => Json.codes_ofStrings ss) ?_
  refine .bind (.field? (a := p.defaultPrincipals) (by simp) fun ss _ => Json.codes_ofStrings ss) ?_
  refine .bind (.fieldD (a := p.principals) (by simp) Principals.eq_of_isUnspecified
    p.principals.codes) ?_
  refine .bind (.field? (a := p.subject) (by simp) fun a _ => a.codes) ?_
  refine .bind (.fieldD (a := p.nameAttributes) (by simp) List.isEmpty_iff.1
    (Json.codes_asList fun e _ => DistinguishedName.codes_pairToJson e)) ?_
  refine .bind (.field? (a := p.ttl) (by simp) fun n hn => Json.codes_asU64 (h.ttl n hn)) ?_
  refine .bind (.field? (a := p.maxTtl) (by simp) fun n hn => Json.codes_asU64 (h.maxTtl n hn)) ?_
  refine .bind (.field? (a := p.requesterMatcher) (by simp) fun s _ => Json.codes_asString s) ?_
  refine .bind (.of_value (a := p.overrides) (by simp) (Overrides.codes h.overrides).read_write _) ?_
  exact .pure p

theorem IsWritable.redacted {p : SigningPolicy} (h : p.IsWritable) : p.redacted.IsWritable :=
  { h with overrides := ⟨h.overrides.notBefore, h.overrides.notAfter⟩ }

end SigningPolicy

/-! ## To an authority -/

theorem RequestEnvelope.codes {e : RequestEnvelope} (h : e.request.IsWritable) :
    Json.Codes read toJson e := by
  refine ⟨Json.asRecord_eq_ok ?_, nofun⟩
  refine .bind (.field (by simp) (Json.codes_asString e.policyName)) ?_
  refine .bind (.field (by simp) (CertificateRequest.codes h)) ?_
  refine .bind (.of_value (a := e.policyOnly) (by simp) (Json.codes_asBool _).read_write _) ?_
  refine .bind (.field? (a := e.identity) (by simp) fun s _ => Json.codes_asString s) ?_
  exact .pure e

/-! ## From an authority -/

theorem PolicyDescription.codes {d : PolicyDescription} (h : d.policy.IsWritable) :
    Json.Codes read toJson d := by
  refine ⟨Json.asRecord_eq_ok ?_, nofun⟩
  refine .bind (.field (by simp) (SigningPolicy.codes h)) ?_
  refine .bind (.field (by simp) d.signerPublicKey.codes) ?_
  refine .bind (.field? (a := d.signerCertificate) (by simp) fun m _ => m.codes) ?_
  exact .pure d

namespace ReplyData

/-- The policy of a description can be written. -/
def IsWritable (d : ReplyData) : Prop := ∀ description, d = .policy description →
  description.policy.IsWritable

theorem isWritable_certificate (b : Bytes) : (certificate b).IsWritable := fun _ h => by cases h

theorem codes {d : ReplyData} (h : d.IsWritable) : Json.Codes read toJson d := by
  refine ⟨?_, by cases d <;> nofun⟩
  cases d with
  | certificate b =>
    rw [toJson, read, (Json.codes_ofBytes b).read_write]
    rfl
  | policy description =>
    rw [toJson, read, (PolicyDescription.codes (h description rfl)).read_write]
    rfl

end ReplyData

theorem ReplyEnvelope.codes {r : ReplyEnvelope} (h : ∀ d ∈ r.data, d.IsWritable) :
    Json.Codes read toJson r := by
  refine ⟨Json.asRecord_eq_ok ?_, nofun⟩
  refine .bind (.nullable (a := r.data) (by simp) fun d hd => ReplyData.codes (h d hd)) ?_
  refine .bind (.of_value (a := r.errors) (by simp) (Json.codes_ofStrings _).read_write _) ?_
  exact .pure r

end CertAuthority
