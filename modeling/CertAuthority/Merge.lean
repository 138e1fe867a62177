import CertAuthority.Policy

/-!
# Requests under a policy

`CertificateRequest.under` resolves a request against a signing policy. Forced values always win,
requested values survive where the policy allows them, and the policy is authoritative for every
field it sets outright.

* `mergeSet` : the default entries, over them the permitted requested ones, over them the forced;
* `SigningPolicy.principalsFor` : principals an OpenSSH request gets;
* `SigningPolicy.subjectFor` : subject and name attributes an X.509 request gets;
* `SigningPolicy.ttlFor` : validity, capped at the ceiling. Under a ceiling a requested end date
  counts only as a distance from the requested start.
-/

namespace CertAuthority

def mergeSet (defaults : ExtensionSet) (allowed : Allowed) (forced requested : ExtensionSet) :
    ExtensionSet :=
  (defaults.overlay (requested.filter fun k _ => allowed.permits k)).overlay forced

namespace SigningPolicy

/-! ## Principals -/

def principalsFor (p : SigningPolicy) (requested : Principals) : Principals :=
  if !p.principals.isUnspecified then p.principals
  else match requested with
    | .list names => match p.allowedPrincipals with
      | some allowed => .list (names.filter allowed.contains)
      | none => .list names
    | .all => match p.allowedPrincipals, p.defaultPrincipals with
      | some allowed, _ => .list allowed
      | none, some defaults => .list defaults
      | none, none => .all
    | .unspecified => match p.defaultPrincipals, p.allowedPrincipals with
      | some defaults, _ => .list defaults
      | none, some allowed => .list allowed
      | none, none => .unspecified

/-! ## Subject -/

/-- Each of the policy's attributes takes the place of the first requested one of its type. -/
def attributesFor (p : SigningPolicy) (requested : List (NameAttribute × String)) :
    List (NameAttribute × String) :=
  p.nameAttributes.foldl (fun out (a, v) => DistinguishedName.put a v out) requested

/-- Maps and lists combine with a policy's of the same shape; any other subject is replaced. -/
def combineSubject (forced : SubjectSpec) : Option SubjectSpec → SubjectSpec
  | some (.map requested) => match forced with
    | .map entries =>
      .map (entries.foldl (fun out (k, v) => Json.insertMember k v out) requested)
    | other => other
  | some (.list requested) => match forced with
    | .list rdns => .list (requested ++ rdns)
    | other => other
  | some (.text _) | none => forced

def subjectFor (p : SigningPolicy) (requested : Option SubjectSpec) : Option SubjectSpec :=
  let base := if p.nameAttributes.isEmpty then requested else none
  match p.subject with
  | none => base
  | some forced => some (combineSubject forced base)

/-! ## Validity -/

/-- Seconds from start to end, none if the end comes first; only where both are given. -/
def requestedSpan? (r : CertificateRequest) : Option Nat := do
  let notAfter ← r.notAfter
  let notBefore ← r.notBefore
  return (notAfter.since notBefore).seconds.toNat

/-- The validity asked for in seconds. -/
def requestedTtl? (p : SigningPolicy) (r : CertificateRequest) : Option Nat :=
  if p.ceiling?.isSome then requestedSpan? r <|> r.ttl else r.ttl

def ttlFor (p : SigningPolicy) (r : CertificateRequest) : Option Nat :=
  match p.requestedTtl? r with
  | none => p.ttl <|> p.ceiling?
  | some asked => match p.ceiling? with
    | some limit => some (min asked limit)
    | none => some asked

/-- A requested end date survives only without a ceiling. -/
def notAfterFor (p : SigningPolicy) (r : CertificateRequest) : Option Instant :=
  if p.ceiling?.isSome then none else r.notAfter

/-! ## Overrides -/

/-- A passphrase of the policy counts also for a requested key; a key of the policy never gets a
requested passphrase. -/
def applyOverrides (o : Overrides) (r : CertificateRequest) : CertificateRequest :=
  { r with
    signingPrivateKey := o.signingPrivateKey <|> r.signingPrivateKey
    signingPrivateKeyPassphrase :=
      if o.signingPrivateKey.isSome then o.signingPrivateKeyPassphrase
      else o.signingPrivateKeyPassphrase <|> r.signingPrivateKeyPassphrase
    signingCert := o.signingCert <|> r.signingCert
    signingPublicKey := o.signingPublicKey <|> r.signingPublicKey
    certType := o.certType <|> r.certType
    keyId := o.keyId <|> r.keyId
    digest := o.digest <|> r.digest
    serialNumber := o.serialNumber <|> r.serialNumber
    notBefore := o.notBefore <|> r.notBefore
    notAfter := o.notAfter <|> r.notAfter
    copypath := o.copypath <|> r.copypath
    prependCn := o.prependCn.getD r.prependCn }

/-- Identity fields of the policy's kind: principals for OpenSSH, the name for X.509. -/
def applyIdentity (p : SigningPolicy) (r : CertificateRequest) : CertificateRequest :=
  match p.kind with
  | .ssh => { r with principals := p.principalsFor r.principals }
  | .x509 => { r with
      subject := p.subjectFor r.subject
      nameAttributes := p.attributesFor r.nameAttributes }

def resolve (p : SigningPolicy) (r : CertificateRequest) : CertificateRequest :=
  let merged := { p.applyIdentity r with
    options := mergeSet p.defaultOptions p.allowedOptions p.forcedOptions r.options
    extensions := mergeSet p.defaultExtensions p.allowedExtensions p.forcedExtensions r.extensions
    ttl := p.ttlFor r
    notAfter := p.notAfterFor r }
  applyOverrides p.overrides merged

@[simp] theorem options_resolve (p : SigningPolicy) (r : CertificateRequest) :
    (p.resolve r).options =
      mergeSet p.defaultOptions p.allowedOptions p.forcedOptions r.options := rfl

@[simp] theorem extensions_resolve (p : SigningPolicy) (r : CertificateRequest) :
    (p.resolve r).extensions =
      mergeSet p.defaultExtensions p.allowedExtensions p.forcedExtensions r.extensions := rfl

@[simp] theorem ttl_resolve (p : SigningPolicy) (r : CertificateRequest) :
    (p.resolve r).ttl = p.ttlFor r := rfl

@[simp] theorem notAfter_resolve (p : SigningPolicy) (r : CertificateRequest) :
    (p.resolve r).notAfter = (p.overrides.notAfter <|> p.notAfterFor r) := rfl

theorem principals_resolve {p : SigningPolicy} (hk : p.kind = .ssh) (r : CertificateRequest) :
    (p.resolve r).principals = p.principalsFor r.principals := by
  simp [resolve, applyOverrides, applyIdentity, hk]

theorem subject_resolve {p : SigningPolicy} (hk : p.kind = .x509) (r : CertificateRequest) :
    (p.resolve r).subject = p.subjectFor r.subject := by
  simp [resolve, applyOverrides, applyIdentity, hk]

theorem nameAttributes_resolve {p : SigningPolicy} (hk : p.kind = .x509)
    (r : CertificateRequest) :
    (p.resolve r).nameAttributes = p.attributesFor r.nameAttributes := by
  simp [resolve, applyOverrides, applyIdentity, hk]

end SigningPolicy

/-- The request a policy makes of this one; without a policy the request itself. -/
def CertificateRequest.under (r : CertificateRequest) : Option SigningPolicy → CertificateRequest
  | some p => p.resolve r
  | none => r

end CertAuthority
