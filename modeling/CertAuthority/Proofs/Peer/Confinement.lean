import CertAuthority.Peer.Authority
import CertAuthority.Proofs.Issue.Journal

/-!
# What a requester can make an authority do

An authority serves an envelope with its own key and certificate, reads no file but those, and
writes none but a copy in its own directory. Whatever paths and keys a request names play no part.

* `SigningPolicy.Owns` : a request takes all that an authority is from the policy;
* `Authority.resolved` : the request that serving an envelope goes by;
* `SigningPolicy.Permits` : the acts that serving a request under the policy may consist of;
* `Authority.alike_perform` : there are no others;
* `Authority.confined_to_policy` : so for whole envelopes.
-/

namespace CertAuthority

namespace SigningPolicy

/-- The policy's own key and certificate. -/
def material (p : SigningPolicy) : List Material :=
  p.overrides.signingPrivateKey.toList ++ p.overrides.signingCert.toList ++
    p.overrides.signingPublicKey.toList

/-- The request names the policy's own key, certificate and directory, and of its subject nothing
but bytes. -/
structure Owns (p : SigningPolicy) (r : CertificateRequest) : Prop where
  signingPrivateKey : r.signingPrivateKey = p.overrides.signingPrivateKey
  signingPrivateKeyPassphrase :
    r.signingPrivateKeyPassphrase = p.overrides.signingPrivateKeyPassphrase
  signingCert : r.signingCert = p.overrides.signingCert
  signingPublicKey : r.signingPublicKey = p.overrides.signingPublicKey
  copypath : r.copypath = p.overrides.copypath
  prependCn : r.prependCn = p.overrides.prependCn.getD false
  appendCerts : r.appendCerts = []
  revoked : r.revoked = []
  subject : ∀ m ∈ r.subjectMaterial, m.isInline

/-- The acts that serving a request under the policy may consist of. -/
inductive Permits (p : SigningPolicy) (r : CertificateRequest) : Event → Prop
  | read {path : String} (own : .path path ∈ p.material) : Permits p r (.read path)
  | sign {d : Draft} (served : d.request = r) : Permits p r (.sign d)
  | copy {dir name : String} {data : Bytes} {mode : Nat} (own : p.overrides.copypath = some dir)
    (plain : Path.isPlain name) : Permits p r (.replace (Path.join dir name) data mode)

variable {p : SigningPolicy} {r : CertificateRequest}

open CertificateRequest (inlineOnly)

theorem subjectMaterial_confined (p : SigningPolicy) (r : CertificateRequest) :
    (r.confined.under p).subjectMaterial =
      (inlineOnly r.publicKey).toList ++ (inlineOnly r.csr).toList := by
  cases hk : p.kind <;>
    simp [CertificateRequest.under, resolve, applyOverrides, applyIdentity, hk,
      CertificateRequest.confined, CertificateRequest.subjectMaterial]

/-- Nothing of a confined request stands where the policy sets nothing. -/
theorem owns_confined (p : SigningPolicy) (r : CertificateRequest) :
    p.Owns (r.confined.under p) := by
  constructor
  case subject =>
    have hinline (m : Option Material) : ∀ m' ∈ (inlineOnly m).toList, m'.isInline = true :=
      fun m' h => (Option.filter_eq_some_iff.1 (Option.mem_toList.1 h)).2
    rw [subjectMaterial_confined]
    exact fun m h => (List.mem_append.1 h).elim (hinline _ m) (hinline _ m)
  all_goals
    cases hk : p.kind <;>
      simp [CertificateRequest.under, resolve, applyOverrides, applyIdentity, hk,
        CertificateRequest.confined]

theorem Owns.permits (h : p.Owns r) {e : Event} (he : Site.Acts r e) : p.Permits r e := by
  cases he with
  | read hpath =>
    rcases List.mem_append.1 hpath with hown | hsubject
    · rw [CertificateRequest.authorityMaterial, h.signingPrivateKey, h.signingCert,
        h.signingPublicKey] at hown
      exact .read hown
    · cases h.subject _ hsubject
  | sign hr => exact .sign hr
  | copy hdir hplain => exact .copy (h.copypath ▸ hdir) hplain

end SigningPolicy

namespace Authority

variable {σ : Type}

/-- The request that serving the envelope under the policy goes by. -/
def resolved (p : SigningPolicy) (e : RequestEnvelope) : CertificateRequest :=
  (if e.policyOnly then CertificateRequest.new p.kind else e.request.confined).under p

theorem owns_resolved (p : SigningPolicy) (e : RequestEnvelope) : p.Owns (resolved p e) := by
  unfold resolved
  split
  · exact SigningPolicy.owns_confined p (.new p.kind)
  · exact SigningPolicy.owns_confined p e.request

/-- The same authority over other files. -/
abbrev withFiles (a : Authority σ) (files : FileSystem σ) : Authority σ :=
  { a with site := a.site.withFiles files }

variable {a : Authority σ} {p : SigningPolicy} {e : RequestEnvelope} {g : FileSystem σ}

open Run (Alike)

theorem alike_describe {P : Event → Prop} (hg : a.site.files.Agree g P)
    (h : ∀ path, .path path ∈ p.material → P (.read path)) :
    Alike P (a.describe p) ((a.withFiles g).describe p) fun _ => True := by
  have howns : p.Owns ((CertificateRequest.new p.kind).under p) :=
    SigningPolicy.owns_confined p (.new p.kind)
  have hread (path : String)
      (hpath : .path path ∈ ((CertificateRequest.new p.kind).under p).authorityMaterial) :
      P (.read path) := by
    rw [CertificateRequest.authorityMaterial, howns.signingPrivateKey, howns.signingCert,
      howns.signingPublicKey] at hpath
    exact h path hpath
  have hidentity : Alike P (a.identity ((CertificateRequest.new p.kind).under p))
      ((a.withFiles g).identity ((CertificateRequest.new p.kind).under p)) fun _ => True := by
    refine (Site.alike_signer hg hread).bind fun signing _ => ?_
    cases signing with
    | some signing => exact Alike.pure trivial
    | none => exact (Site.alike_signerIdentity hg hread).bind fun _ _ => (Alike.ofOutcome _).any
  refine hidentity.bind fun identity _ => (Alike.backendAt _ _).bind fun _ _ =>
    Alike.bind (Q := fun _ => True) ?_ fun _ _ => Alike.pure trivial
  cases identity.certificate with
  | none => exact Alike.pure trivial
  | some c => exact Alike.map some (Site.alike_encodePlain _ _ c)

theorem alike_certify (hs : a.site.DraftsAsAsked) {r : CertificateRequest}
    (hg : a.site.files.Agree g (Site.Acts (r.confined.under p))) :
    Alike (Site.Acts (r.confined.under p)) (a.certify p r) ((a.withFiles g).certify p r)
      fun _ => True :=
  (Site.alike_issue hs hg).bind fun c _ => Site.alike_encodePlain _ _ c

/-- Serving an envelope does nothing but what the policy permits. -/
theorem alike_perform (hs : a.site.DraftsAsAsked)
    (hg : a.site.files.Agree g (p.Permits (resolved p e))) :
    Alike (p.Permits (resolved p e)) (a.perform p e) ((a.withFiles g).perform p e)
      fun _ => True := by
  unfold perform
  split
  · exact Alike.map _ (alike_describe hg fun path hpath => .read hpath)
  · rename_i hsigning
    have hr : resolved p e = e.request.confined.under p := by rw [resolved, if_neg hsigning]
    have howns := owns_resolved p e
    rw [hr] at hg howns ⊢
    have hcertify := alike_certify hs (hg.mono fun _ => howns.permits)
    exact Alike.map _ (hcertify.mono (fun _ => howns.permits) fun _ h => h)

theorem serve_of_authorize {q : SigningPolicy} (h : a.authorize e = .ok q) (w : World σ) :
    let run := (a.perform q e).run.run ⟨w, [], {}⟩
    a.serve e w = (replyTo run.1, run.2) := by
  unfold serve
  rw [h]
  rfl

theorem run_handle {q : SigningPolicy} (h : a.authorize e = .ok q) (w : World σ) :
    (a.handle e).run w =
      (replyTo ((a.perform q e).run.run ⟨w, [], {}⟩).1,
        ((a.perform q e).run.run ⟨w, [], {}⟩).2.world) := by
  show ((a.serve e w).1, (a.serve e w).2.world) = _
  rw [serve_of_authorize h]

/-- **A requester cannot make an authority act outside its policy.** An envelope that is not
authorized leaves no trace. For any other one the resolved request has its key, passphrase,
certificate, public key, directory and naming of copies from the policy. All that happens is that
the policy's own files are read, a draft for the resolved request is signed, and a copy is written
under a plain name into the policy's directory. Nothing else in the files makes a difference. -/
theorem confined_to_policy (files : FileSystem σ)
    (store : PolicyStore) (matcher : RequesterMatcher) (e : RequestEnvelope) (w : World σ) :
    let a : Authority σ := { site := ⟨files, CertificateKind.backend⟩, store, matcher }
    match a.authorize e with
    | .error _ => (a.serve e w).2 = ⟨w, [], {}⟩
    | .ok p =>
      p.Owns (resolved p e) ∧
      (∀ event ∈ (a.serve e w).2.journal, p.Permits (resolved p e) event) ∧
      ∀ g, files.Agree g (p.Permits (resolved p e)) → (a.withFiles g).serve e w = a.serve e w := by
  intro a
  have hs : a.site.DraftsAsAsked := Site.draftsAsAsked_backend files
  split
  · rename_i why hwhy
    unfold serve
    rw [hwhy]
    cases why <;> rfl
  · rename_i p hp
    refine ⟨owns_resolved p e, fun event hevent => ?_, fun g hg => ?_⟩
    · obtain ⟨added, hjournal, hpermits⟩ :=
        (alike_perform hs (FileSystem.Agree.refl files _)).journal ⟨w, [], {}⟩
      rw [serve_of_authorize hp, hjournal] at hevent
      exact hpermits event hevent
    · have hover : (a.withFiles g).authorize e = .ok p := hp
      rw [serve_of_authorize hp, serve_of_authorize hover, (alike_perform hs hg).same]

/-! ## An intrusion -/

/-- Signs with the key in one file. -/
def vaultPolicy : SigningPolicy where
  kind := .x509
  overrides := { signingPrivateKey := some (.path "/ca.key") }

/-- Files that can be found, but not opened; nothing can be written. -/
def vaultFiles (found : String → Bool) : FileSystem Unit where
  has _ path := found path
  isLink _ _ := false
  read _ path := Outcome.fail (if found path then .denied path else .missing path)
  replace files path _ _ := (Outcome.fail (.denied path), files)
  backUp files path := (Outcome.fail (.denied path), files)

/-- Wants another file used as key and certificates, and a copy in a directory of its choice. -/
def intrusion : RequestEnvelope where
  policyName := "vault"
  request := { CertificateRequest.new .x509 with
    publicKey := some (.path "/etc/shadow")
    signingPrivateKey := some (.path "/etc/shadow")
    signingCert := some (.path "/etc/shadow")
    appendCerts := [.path "/etc/shadow"]
    copypath := some "/etc/cron.d" }

/-- The authority looks for its own key, and another file at hand goes unnoticed. -/
theorem confined_to_policy_vault :
    let a (found : String → Bool) : Authority Unit :=
      { site := ⟨vaultFiles found, CertificateKind.backend⟩
        store _ _ := .ok (some vaultPolicy) }
    let w : World Unit := { files := (), now := .ofSeconds 0, seed := [] }
    ((a fun _ => false).serve intrusion w).2.journal = [.read "/ca.key"] ∧
      vaultPolicy.Owns (resolved vaultPolicy intrusion) ∧
      vaultPolicy.Permits (resolved vaultPolicy intrusion) (.read "/ca.key") ∧
      (a (· == "/etc/shadow")).serve intrusion w = (a fun _ => false).serve intrusion w := by
  intro a w
  have hjournal : ((a fun _ => false).serve intrusion w).2.journal = [.read "/ca.key"] := rfl
  obtain ⟨howns, hpermits, hover⟩ :=
    confined_to_policy (vaultFiles fun _ => false) (fun _ _ => .ok (some vaultPolicy)) {}
      intrusion w
  refine ⟨hjournal, howns, hpermits _ (hjournal ▸ List.mem_singleton.2 rfl), hover _ ⟨?_, ?_⟩⟩
  · rintro path ⟨hpath⟩ files
    obtain rfl : path = "/ca.key" := by simpa [SigningPolicy.material, vaultPolicy] using hpath
    rfl
  · rintro path data mode ⟨⟩ files
    rfl

end Authority
end CertAuthority
