import CertAuthority.Proofs.Issue.Twins
import CertAuthority.Proofs.Peer.Admission
import CertAuthority.Proofs.Peer.OwnKey

/-!
# What replies give away

The matcher of a policy, the name of its signing key and the passphrase of that key are secrets of
the authority. An authority with other secrets gives the same replies, as long as its matcher comes
to the same verdict and its key is the same.

* `SigningPolicy.withSecrets` : policies with one redacted form differ in nothing else;
* `Authority.verdict` : what the matcher of a policy says of a requester;
* `Authority.publish` : a description is made of the redacted policy and a public identity;
* `Authority.keyFailures` : all that is ever said about a key that does not load;
* `Authority.replies_keep_secrets` : all of that about whole envelopes.
-/

namespace CertAuthority

/-! ## Policies -/

namespace SigningPolicy

/-- The policy with another matcher, signing key and passphrase. -/
def withSecrets (p : SigningPolicy) (requesterMatcher : Option String) (key : Option Material)
    (passphrase : Option String) : SigningPolicy :=
  { p with
    requesterMatcher
    overrides := { p.overrides with
      signingPrivateKey := key
      signingPrivateKeyPassphrase := passphrase } }

variable {p q : SigningPolicy}

theorem eq_withSecrets_of_redacted (h : p.redacted = q.redacted) :
    q = p.withSecrets q.requesterMatcher q.overrides.signingPrivateKey
      q.overrides.signingPrivateKeyPassphrase := by
  have hq := congrArg (fun published : SigningPolicy => published.withSecrets q.requesterMatcher
    q.overrides.signingPrivateKey q.overrides.signingPrivateKeyPassphrase) h
  exact hq.symm

end SigningPolicy

/-! ## Keys that do not load -/

/-- All that a backend says about a private key that it does not take. -/
def Backend.keyErrors : List BackendError :=
  [.encrypted, .wrongPassphrase, .unrecognized "private key", .unrecognized "key"]

/-- Every failure is one of these errors. -/
def Outcome.FailsWith {ε α : Type} (errors : List ε) (o : Outcome ε α) : Prop :=
  ∀ fault, o = .error fault → ∃ why ∈ errors, fault = .error why

namespace Outcome.FailsWith

variable {ε α β : Type} {errors : List ε}

theorem ok (a : α) : FailsWith errors (.ok a : Outcome ε α) := fun _ h => by cases h

theorem fail {why : ε} (h : why ∈ errors) : FailsWith errors (Outcome.fail why : Outcome ε α) := by
  rintro fault hfault
  cases hfault
  exact ⟨why, h, rfl⟩

theorem bind {x : Outcome ε α} {f : α → Outcome ε β} (hx : FailsWith errors x)
    (hf : ∀ a, FailsWith errors (f a)) : FailsWith errors (x >>= f) := FailsOnly.bind hx hf

end Outcome.FailsWith

open Outcome (FailsWith)

namespace X509

theorem failsWith_clearContainer (b : Bytes) (passphrase : Option String) :
    FailsWith Backend.keyErrors (clearContainer b passphrase) := by
  have hdecrypt (der : Bytes) : FailsWith Backend.keyErrors (decryptContainer der passphrase) := by
    unfold decryptContainer
    split
    · exact .fail (by decide)
    · split
      · exact .fail (by decide)
      · split
        · split
          · exact .ok _
          · exact .fail (by decide)
        · exact .fail (by decide)
  unfold clearContainer
  split
  · split
    · exact hdecrypt _
    · split
      · exact .ok _
      · exact .fail (by decide)
  · split
    · exact hdecrypt b
    · exact .ok b

theorem failsWith_loadPrivateKey (b : Bytes) (passphrase : Option String) :
    FailsWith Backend.keyErrors (loadPrivateKey b passphrase) := by
  refine (failsWith_clearContainer b passphrase).bind fun der => ?_
  split
  · exact .ok _
  · exact .fail (by decide)

end X509

namespace OpenSsh

theorem failsWith_handleOf (s : PrivateSection) : FailsWith Backend.keyErrors (handleOf s) := by
  refine Outcome.FailsWith.bind ?_ fun _ => .ok _
  unfold SshKey.algorithm Outcome.ofOption
  split
  · exact .ok _
  · exact .fail (by decide)

theorem failsWith_loadPrivateKey (b : Bytes) (passphrase : Option String) :
    FailsWith Backend.keyErrors (loadPrivateKey b passphrase) := by
  unfold loadPrivateKey
  split
  · exact .fail (by decide)
  · exact failsWith_handleOf _
  · exact .fail (by decide)
  · split
    · exact failsWith_handleOf _
    · exact .fail (by decide)

end OpenSsh

theorem CertificateKind.failsWith_loadPrivateKey (k : CertificateKind) (b : Bytes)
    (passphrase : Option String) :
    FailsWith Backend.keyErrors (k.backend.loadPrivateKey b passphrase) := by
  cases k with
  | x509 => exact X509.failsWith_loadPrivateKey b passphrase
  | ssh => exact OpenSsh.failsWith_loadPrivateKey b passphrase

namespace Authority

open Run (Looks Twins)

variable {σ : Type} {a : Authority σ} {e : RequestEnvelope} {p q : SigningPolicy} {w : World σ}

/-- All that is ever said about a key that does not load: general texts, and none of the bytes, the
path or the passphrase. -/
def keyFailures : List String :=
  internalError :: (Error.localFailure :: Backend.keyErrors.map BackendError.message).map
    fun text => Stage.loadingSigningKey.text ++ ": " ++ text

theorem replyTo_of_keyError {why : BackendError} (h : why ∈ Backend.keyErrors) :
    ∃ text ∈ keyFailures,
      replyTo (.error (.error (.staged .loadingSigningKey (.backend why)))) = .ofErrors [text] := by
  refine ⟨_, List.mem_cons_of_mem _ (List.mem_map_of_mem (List.mem_cons_of_mem _
    (List.mem_map_of_mem h))), ?_⟩
  simp only [Backend.keyErrors, List.mem_cons, List.not_mem_nil, or_false] at h
  rcases h with rfl | rfl | rfl | rfl <;> rfl

theorem replyTo_of_failed_material {m : Material} {fault : Fault Error}
    (h : (a.site.material .loadingSigningKey m).result w = .error fault) :
    ∃ text ∈ keyFailures, replyTo (.error fault) = .ofErrors [text] := by
  cases m with
  | inline b => cases h
  | path path =>
    rw [Site.material, Run.result_atStage, Run.result, Site.run_read] at h
    cases hfile : a.site.files.read w.files path with
    | ok b =>
      rw [hfile] at h
      cases h
    | error why =>
      rw [hfile] at h
      cases why with
      | error why =>
        cases h
        exact ⟨_, List.mem_cons_of_mem _ (List.mem_map_of_mem List.mem_cons_self), rfl⟩
      | abandoned =>
        cases h
        exact ⟨internalError, List.mem_cons_self, rfl⟩

theorem replyTo_of_failed_key (hb : a.site.backend = CertificateKind.backend)
    {r : CertificateRequest} {fault : Fault Error}
    (h : (a.site.signingKey r).result w = .error fault) :
    ∃ text ∈ keyFailures, replyTo (.error fault) = .ofErrors [text] := by
  cases hnamed : r.signingPrivateKey with
  | none =>
    unfold Site.signingKey at h
    rw [hnamed] at h
    cases h
  | some m =>
    rw [Site.result_signingKey hnamed, hb] at h
    cases hm : (a.site.material .loadingSigningKey m).result w with
    | error why =>
      rw [hm] at h
      rw [← Except.error.inj h]
      exact replyTo_of_failed_material hm
    | ok b =>
      rw [hm] at h
      have hload : some <$> Outcome.mapError (Error.atStage .loadingSigningKey) (Outcome.mapError
          .backend (r.kind.backend.loadPrivateKey b r.signingPrivateKeyPassphrase)) =
            .error fault := h
      cases hkey : r.kind.backend.loadPrivateKey b r.signingPrivateKeyPassphrase with
      | ok key =>
        rw [hkey] at hload
        cases hload
      | error why =>
        obtain ⟨known, hknown, rfl⟩ := r.kind.failsWith_loadPrivateKey _ _ _ hkey
        rw [hkey] at hload
        rw [← Except.error.inj hload]
        exact replyTo_of_keyError hknown

/-! ## Verdicts -/

/-- What the matcher of a policy says of a requester. -/
def verdict (a : Authority σ) (p : SigningPolicy) (identity : Option String) :
    Except PolicyError Unit :=
  match p.requesterMatcher with
  | none => .ok ()
  | some expression => a.permit expression identity

theorem authorize_of_permitted (h : a.store e.request.kind e.policyName = .ok (some p))
    (hok : a.verdict p e.identity = .ok ()) :
    a.authorize e = .ok { p with requesterMatcher := none } := by
  refine (a.authorize_eq_ok_iff e _).2 ⟨p, ⟨h, fun expression hm => ?_⟩, rfl⟩
  rw [verdict, hm] at hok
  exact (a.permit_eq_ok_iff expression e.identity).1 hok

theorem authorize_of_refused {why : PolicyError}
    (h : a.store e.request.kind e.policyName = .ok (some p))
    (hwhy : a.verdict p e.identity = .error why) :
    a.authorize e = Outcome.fail (.policy why) := by
  unfold verdict at hwhy
  split at hwhy
  · cases hwhy
  · rename_i expression hm
    unfold authorize
    rw [h]
    show (match p.requesterMatcher with
      | none => _
      | some expression => _) = _
    rw [hm]
    simp only [hwhy]
    rfl

/-- A requester who is turned away learns the verdict. -/
theorem handle_of_refused {why : PolicyError}
    (h : a.store e.request.kind e.policyName = .ok (some p))
    (hwhy : a.verdict p e.identity = .error why) (w : World σ) :
    (a.handle e).run w = (.ofErrors [why.message], w) := by
  show ((a.serve e w).1, (a.serve e w).2.world) = _
  unfold serve
  rw [authorize_of_refused h hwhy]
  rfl

theorem handle_of_permitted (h : a.store e.request.kind e.policyName = .ok (some p))
    (hok : a.verdict p e.identity = .ok ()) (w : World σ) :
    (a.handle e).run w =
      (replyTo ((a.perform { p with requesterMatcher := none } e).result w),
        ((a.perform { p with requesterMatcher := none } e).run.run ⟨w, [], {}⟩).2.world) := by
  show ((a.serve e w).1, (a.serve e w).2.world) = _
  rw [serve_of_authorize (authorize_of_permitted h hok)]
  rfl

/-! ## Descriptions -/

/-- The description of a redacted policy that signs as this identity. -/
def publish (a : Authority σ) (redacted : SigningPolicy) (identity : SignerIdentity) :
    Run σ PolicyDescription := do
  let publicKey ← Run.backendAt .encoding
    ((a.site.backend redacted.kind).encodePublicKey identity.publicKey)
  let certificate ← identity.certificate.mapM (a.site.encodePlain .encoding redacted.kind)
  return ⟨redacted, .inline publicKey, certificate.map .inline⟩

theorem describe_eq_publish :
    a.describe p =
      a.identity ((CertificateRequest.new p.kind).under p) >>= a.publish p.redacted :=
  rfl

theorem looks_identity (r : CertificateRequest) : Looks (a.identity r) := by
  refine Site.looks_signer.bind fun signing => ?_
  cases signing with
  | some signing => exact .pure _
  | none => exact Site.looks_signerIdentity.bind fun _ => .ofOutcome _

theorem twins_publish (redacted : SigningPolicy) (identity : SignerIdentity) :
    Twins w (· = ·) (a.publish redacted identity) (a.publish redacted identity) := by
  refine (Twins.refl_of_looks (.backendAt _ _)).bind_eq fun _ _ => ?_
  refine Twins.bind_eq ?_ fun _ _ => .pure rfl
  cases identity.certificate with
  | none => exact .pure rfl
  | some c => exact (Site.twins_encodePlain _ _ c).bind_eq fun _ _ => .pure rfl

/-! ## Secrets -/

/-- Policies with one redacted form make the same request, with the key named otherwise. -/
theorem exists_under_eq (h : p.redacted = q.redacted) (r : CertificateRequest) :
    ∃ key passphrase, r.confined.under q = (r.confined.under p).withKey key passphrase := by
  rw [SigningPolicy.eq_withSecrets_of_redacted h]
  exact ⟨_, _, rfl⟩

theorem twins_identity {r : CertificateRequest} {key : Option Material}
    {passphrase : Option String}
    (hkey : (a.site.signingKey r).result w =
      (a.site.signingKey (r.withKey key passphrase)).result w) :
    Twins w (· = ·) (a.identity r) (a.identity (r.withKey key passphrase)) := by
  refine (Site.twins_signer hkey).bind_eq fun _ signing => ?_
  cases signing with
  | some signing => exact .pure rfl
  | none => exact .refl_of_looks (Site.looks_signerIdentity.bind fun _ => .ofOutcome _)

/-- A description tells no more than the redacted policy and the identity it signs as. -/
theorem twins_describe (h : p.redacted = q.redacted)
    (hidentity : (a.identity ((CertificateRequest.new p.kind).under p)).result w =
      (a.identity ((CertificateRequest.new q.kind).under q)).result w) :
    Twins w (· = ·) (a.describe p) (a.describe q) := by
  rw [describe_eq_publish, describe_eq_publish, ← h]
  exact (Twins.of_looks (looks_identity _) (looks_identity _) (.of_eq hidentity)).bind_eq
    fun _ _ => twins_publish _ _

theorem twins_certify (hs : ∀ kind, (a.site.backend kind).KeyBlind) (h : p.redacted = q.redacted)
    {r : CertificateRequest}
    (hkey : (a.site.signingKey (r.confined.under p)).result w =
      (a.site.signingKey (r.confined.under q)).result w) :
    Twins w (· = ·) (a.certify p r) (a.certify q r) := by
  obtain ⟨key, passphrase, hunder⟩ := exists_under_eq h r
  unfold certify
  rw [hunder] at hkey ⊢
  exact (Site.twins_issue hs hkey).bind_eq fun _ c => Site.twins_encodePlain _ _ c

theorem twins_perform (hs : ∀ kind, (a.site.backend kind).KeyBlind) (h : p.redacted = q.redacted)
    (hkey : (a.site.signingKey (resolved p e)).result w =
      (a.site.signingKey (resolved q e)).result w) :
    Twins w (· = ·) (a.perform p e) (a.perform q e) := by
  unfold resolved at hkey
  unfold perform
  split
  · rename_i hdescribe
    rw [if_pos hdescribe, if_pos hdescribe] at hkey
    have hkind : q.kind = p.kind := (congrArg SigningPolicy.kind h).symm
    obtain ⟨key, passphrase, hunder⟩ := exists_under_eq h (.new p.kind)
    have hunder' : (CertificateRequest.new q.kind).under q =
        ((CertificateRequest.new p.kind).under p).withKey key passphrase := by
      rw [hkind]
      exact hunder
    rw [hunder'] at hkey
    have hidentity := (twins_identity hkey).eq_of_start.1
    rw [← hunder'] at hidentity
    exact (twins_describe h hidentity).bind_eq fun _ _ => .pure rfl
  · rename_i hsign
    rw [if_neg hsign, if_neg hsign] at hkey
    exact (twins_certify hs h hkey).bind_eq fun _ _ => .pure rfl

theorem failsIn_perform {fault : Fault Error}
    (h : (a.site.signingKey (resolved p e)).result w = .error fault) :
    Run.FailsIn w fault (a.perform p e) := by
  have hsigner := Site.failsIn_signer h
  unfold resolved at hsigner
  unfold perform
  split
  · rename_i hdescribe
    rw [if_pos hdescribe] at hsigner
    exact ((hsigner.bind _).bind _).map _
  · rename_i hsign
    rw [if_neg hsign] at hsigner
    exact (((hsigner.bind _).bind _).bind _).map _

/-! ## Replies -/

/-- Two policies with one verdict are told apart only by what is performed under them. -/
theorem handle_eq_of_twins {store : PolicyStore}
    (hp : a.store e.request.kind e.policyName = .ok (some p))
    (hq : store e.request.kind e.policyName = .ok (some q))
    (hverdict : a.verdict p e.identity = a.verdict q e.identity)
    (htwins : Twins w (· = ·) (a.perform { p with requesterMatcher := none } e)
      (a.perform { q with requesterMatcher := none } e)) :
    (a.handle e).run w = (Authority.handle { a with store } e).run w := by
  cases hv : a.verdict p e.identity with
  | error why =>
    have hv' : Authority.verdict { a with store } q e.identity = .error why :=
      hverdict.symm.trans hv
    rw [handle_of_refused hp hv, handle_of_refused hq hv']
  | ok _ =>
    have hv' : Authority.verdict { a with store } q e.identity = .ok () := hverdict.symm.trans hv
    obtain ⟨hresult, hworld⟩ := htwins.eq_of_start
    rw [handle_of_permitted hp hv, handle_of_permitted hq hv', hresult, hworld]
    rfl

/-- **Replies keep the secrets of a policy.** Take two policies that differ in nothing but their
matcher, their signing key and its passphrase, and whose matchers come to one verdict on the
requester.

If they load the same key, then whatever the envelope, the reply is the same, and so is the world
afterwards. For a description the public identity is all that has to be the same. A requester who is
turned away learns the verdict. Of a key that does not load only a general text is told. -/
theorem replies_keep_secrets (a : Authority σ) (hb : a.site.backend = CertificateKind.backend)
    (store : PolicyStore) (e : RequestEnvelope) (w : World σ) {p q : SigningPolicy}
    (hp : a.store e.request.kind e.policyName = .ok (some p))
    (hq : store e.request.kind e.policyName = .ok (some q)) (hsame : p.redacted = q.redacted)
    (hverdict : a.verdict p e.identity = a.verdict q e.identity) :
    let b : Authority σ := { a with store }
    ((a.site.signingKey (resolved p e)).result w = (b.site.signingKey (resolved q e)).result w →
      (a.handle e).run w = (b.handle e).run w) ∧
    (e.policyOnly = true →
      (a.identity (resolved p e)).result w = (b.identity (resolved q e)).result w →
      (a.handle e).run w = (b.handle e).run w) ∧
    (∀ why, a.verdict p e.identity = .error why →
      (a.handle e).run w = (.ofErrors [why.message], w)) ∧
    (∀ why, (a.site.signingKey (resolved p e)).result w = .error why →
      a.verdict p e.identity = .ok () →
      ∃ text ∈ keyFailures, (a.handle e).run w = (.ofErrors [text], w)) := by
  intro b
  have hs (kind : CertificateKind) : (a.site.backend kind).KeyBlind := hb ▸ kind.keyBlind
  -- The verdict is done with when a request is performed, so the matcher is gone by then.
  have hopen : ({ p with requesterMatcher := none } : SigningPolicy).redacted =
      ({ q with requesterMatcher := none } : SigningPolicy).redacted := hsame
  refine ⟨fun hkey => ?_, fun hdescribe hidentity => ?_, fun why hwhy => ?_, fun why hwhy hok => ?_⟩
  · exact handle_eq_of_twins hp hq hverdict (twins_perform hs hopen hkey)
  · refine handle_eq_of_twins hp hq hverdict ?_
    unfold resolved at hidentity
    rw [if_pos hdescribe, if_pos hdescribe] at hidentity
    unfold perform
    rw [if_pos hdescribe, if_pos hdescribe]
    exact (twins_describe hopen hidentity).bind_eq fun _ _ => .pure rfl
  · exact handle_of_refused hp hwhy w
  · obtain ⟨t, hrun, hworld⟩ :=
      failsIn_perform (p := { p with requesterMatcher := none }) (e := e) hwhy
    obtain ⟨text, htext, hreply⟩ := replyTo_of_failed_key hb hwhy
    refine ⟨text, htext, ?_⟩
    rw [handle_of_permitted hp hok, Run.result, hrun, hreply, hworld]

/-! ## One key under two names -/

/-- An Ed25519 key in the clear. -/
def openKey : Bytes :=
  Der.seqOf
    [Der.nat 0, X509.keyIdentifierOf .ed25519, Der.octets (Der.octets (List.replicate 32 7))]

/-- No passphrase is asked for where none is needed. -/
theorem loadPrivateKey_openKey (passphrase : Option String) :
    X509.loadPrivateKey openKey passphrase = .ok ⟨.x509, .ed25519, openKey⟩ := by
  have hfirst : Armor.first? openKey = none := by with_unfolding_all decide
  have hclear : (X509.encryptedContainer? openKey).isSome = false := by with_unfolding_all decide
  have hparse : X509.SigningKey.parse? openKey = some (.ed25519 (List.replicate 32 7)) := by
    with_unfolding_all decide
  simp only [X509.loadPrivateKey, X509.clearContainer, hfirst, hclear]
  rw [Outcome.bind_eq_ok_iff]
  exact ⟨openKey, rfl, by rw [hparse]; rfl⟩

/-- Holds its key. -/
def inlinePolicy : SigningPolicy where
  kind := .x509
  requesterMatcher := some "web*"
  overrides := { signingPrivateKey := some (.inline openKey) }

/-- Has it in a file, with a passphrase, and is for other requesters. -/
def filedPolicy : SigningPolicy :=
  inlinePolicy.withSecrets (some "*01") (some (.path "/ca.key")) (some "secret")

/-- Every file holds the key. -/
def keyFiles : FileSystem Unit :=
  { vaultFiles fun _ => true with read := fun _ _ => .ok openKey }

/-- The machine `web01` may use either policy, and cannot tell which one it was. -/
theorem replies_keep_secrets_filed :
    let a : Authority Unit :=
      { site := ⟨keyFiles, CertificateKind.backend⟩, store := fun _ _ => .ok (some inlinePolicy) }
    let b : Authority Unit := { a with store := fun _ _ => .ok (some filedPolicy) }
    let e : RequestEnvelope := { leafRequest with identity := some "web01" }
    let w : World Unit := { files := (), now := .ofSeconds 0, seed := [] }
    a.verdict inlinePolicy e.identity = .ok () ∧ a.verdict filedPolicy e.identity = .ok () ∧
      (a.site.signingKey (resolved inlinePolicy e)).result w =
        .ok (some ⟨.x509, .ed25519, openKey⟩) ∧
      (b.site.signingKey (resolved filedPolicy e)).result w =
        .ok (some ⟨.x509, .ed25519, openKey⟩) ∧
      (a.handle e).run w = (b.handle e).run w := by
  intro a b e w
  have hinline : a.verdict inlinePolicy e.identity = .ok () := by rfl
  have hfiled : a.verdict filedPolicy e.identity = .ok () := by rfl
  have hload (passphrase : Option String) :
      some <$> Outcome.mapError (Error.atStage .loadingSigningKey) (Outcome.mapError .backend
        (X509.loadPrivateKey openKey passphrase)) = .ok (some ⟨.x509, .ed25519, openKey⟩) := by
    rw [loadPrivateKey_openKey]
    rfl
  have hkey : (a.site.signingKey (resolved inlinePolicy e)).result w =
      .ok (some ⟨.x509, .ed25519, openKey⟩) :=
    (Site.result_signingKey (m := .inline openKey) rfl w).trans (hload none)
  have hkey' : (b.site.signingKey (resolved filedPolicy e)).result w =
      .ok (some ⟨.x509, .ed25519, openKey⟩) :=
    (Site.result_signingKey (m := .path "/ca.key") rfl w).trans (hload (some "secret"))
  obtain ⟨hreply, -⟩ := replies_keep_secrets a rfl b.store e w (p := inlinePolicy)
    (q := filedPolicy) rfl rfl rfl (hinline.trans hfiled.symm)
  exact ⟨hinline, hfiled, hkey, hkey', hreply (hkey.trans hkey'.symm)⟩

end Authority
end CertAuthority
