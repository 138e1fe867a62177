import CertAuthority.Issue.Issuance
import CertAuthority.Proofs.Certificate.Drafts

/-!
# What issuing a certificate does

All acts of a run are in its journal, so what a run may do is a predicate on events. It is shown for
the parts of a run, and for the whole from them. To see that the journal tells all there is, each
part is compared with the same part over another file system, which need only agree where the run
may act.

* `Run.Alike` : two runs are one, add only such events to the journal, and come only to such values;
* `FileSystem.Agree` : file systems that do the same wherever a run may act;
* `Site.Acts` : the acts that issuing from a request consists of: reading material that the request
  names, signing a draft for it, and writing a copy into the directory that it names;
* `Site.alike_issue` : issuing from a request does nothing else.
-/

namespace CertAuthority

/-! ## Runs -/

namespace Run

variable {σ α β : Type} {P P' : Event → Prop} {Q Q' : α → Prop} {R : β → Prop} {x y : Run σ α}

/-- The runs are one. From every state it adds only events `P` to the journal, and comes only to
values `Q`. -/
structure Alike (P : Event → Prop) (x y : Run σ α) (Q : α → Prop) : Prop where
  same : x = y
  journal : ∀ s, ∃ added, (x.run.run s).2.journal = s.journal ++ added ∧ ∀ e ∈ added, P e
  value : ∀ s a, (x.run.run s).1 = .ok a → Q a

theorem run_bind (x : Run σ α) (f : α → Run σ β) (s : RunState σ) :
    (x >>= f).run.run s =
      match x.run.run s with
      | (.ok a, s') => (f a).run.run s'
      | (.error e, s') => (.error e, s') := by
  rw [ExceptT.run_bind, StateT.run_bind]
  obtain ⟨_ | a, s'⟩ := x.run.run s
  · rfl
  · rfl

namespace Alike

/-- A run that leaves the journal alone. -/
theorem of_journal_eq (hj : ∀ s, (x.run.run s).2.journal = s.journal)
    (hv : ∀ s a, (x.run.run s).1 = .ok a → Q a) : Alike P x x Q :=
  ⟨rfl, fun s => ⟨[], by simp [hj], by simp⟩, hv⟩

theorem mono (h : Alike P x y Q) (hp : ∀ e, P e → P' e) (hq : ∀ a, Q a → Q' a) :
    Alike P' x y Q' :=
  ⟨h.same, fun s => (h.journal s).imp fun _ ⟨hj, he⟩ => ⟨hj, fun e hm => hp e (he e hm)⟩,
    fun s a ha => hq a (h.value s a ha)⟩

/-- What a run comes to does not matter. -/
theorem any (h : Alike P x y Q) : Alike P x y fun _ => True :=
  h.mono (fun _ hp => hp) fun _ _ => trivial

theorem bind {f g : α → Run σ β} (hx : Alike P x y Q) (hf : ∀ a, Q a → Alike P (f a) (g a) R) :
    Alike P (x >>= f) (y >>= g) R := by
  obtain rfl := hx.same
  refine ⟨?_, fun s => ?_, fun s b hb => ?_⟩
  · refine ExceptT.ext (StateT.ext fun s => ?_)
    show (x >>= f).run.run s = (x >>= g).run.run s
    rw [run_bind, run_bind]
    cases hrun : x.run.run s with
    | mk result s' =>
      cases result with
      | error e => rfl
      | ok a =>
        have ha : Q a := hx.value s a (by rw [hrun])
        exact congrArg (fun z => z.run.run s') (hf a ha).same
  · obtain ⟨first, hj, hp⟩ := hx.journal s
    rw [run_bind]
    cases hrun : x.run.run s with
    | mk result s' =>
      rw [hrun] at hj
      cases result with
      | error e => exact ⟨first, hj, hp⟩
      | ok a =>
        obtain ⟨added, hj', hp'⟩ := (hf a (hx.value s a (by rw [hrun]))).journal s'
        refine ⟨first ++ added, by rw [hj', hj, List.append_assoc], fun e he => ?_⟩
        exact (List.mem_append.1 he).elim (hp e) (hp' e)
  · rw [run_bind] at hb
    cases hrun : x.run.run s with
    | mk result s' =>
      rw [hrun] at hb
      cases result with
      | error e => cases hb
      | ok a => exact (hf a (hx.value s a (by rw [hrun]))).value s' b hb

theorem pure {a : α} (h : Q a) : Alike P (Pure.pure a : Run σ α) (Pure.pure a) Q :=
  of_journal_eq (fun _ => rfl) fun _ _ h' => Except.ok.inj h' ▸ h

theorem map (f : α → β) (hx : Alike P x y Q) : Alike P (f <$> x) (f <$> y) fun _ => True := by
  rw [map_eq_pure_bind, map_eq_pure_bind]
  exact hx.bind fun _ _ => pure trivial

theorem ofOutcome (o : Outcome Error α) :
    Alike P (Run.ofOutcome o : Run σ α) (Run.ofOutcome o) fun a => o = .ok a := by
  cases o with
  | ok a => exact of_journal_eq (fun _ => rfl) fun _ _ h => h
  | error e => exact of_journal_eq (fun _ => rfl) fun _ _ h => h

theorem note {e : Event} (h : P e) : Alike P (Run.note e : Run σ Unit) (Run.note e) fun _ => True :=
  ⟨rfl, fun s => ⟨[e], rfl, by simpa using h⟩, fun _ _ _ => trivial⟩

theorem atStage (stage : Stage) (h : Alike P x y Q) :
    Alike P (Run.atStage stage x) (Run.atStage stage y) Q :=
  ⟨congrArg _ h.same, h.journal, fun s a ha => h.value s a (Outcome.mapError_eq_ok_iff.1 ha)⟩

theorem backendAt (stage : Stage) (r : BackendResult α) :
    Alike P (Run.backendAt stage r : Run σ α) (Run.backendAt stage r) fun a => r = .ok a :=
  atStage stage <| (ofOutcome _).mono (fun _ h => h) fun _ h => Outcome.mapError_eq_ok_iff.1 h

theorem world : Alike P (get : Run σ (RunState σ)) get fun _ => True :=
  of_journal_eq (fun _ => rfl) fun _ _ _ => trivial

theorem moment : Alike P (Run.moment : Run σ Moment) Run.moment fun _ => True :=
  of_journal_eq (fun _ => rfl) fun _ _ _ => trivial

theorem changeFiles (act : σ → Outcome FileError α × σ) :
    Alike P (Site.changeFiles act) (Site.changeFiles act) fun _ => True :=
  bind (of_journal_eq (Q := fun _ => True) (fun _ => rfl) fun _ _ _ => trivial)
    fun _ _ => (ofOutcome _).any

end Alike
end Run

/-! ## Material -/

/-- The file systems do the same wherever `P` lets a run act. -/
structure FileSystem.Agree {σ : Type} (f g : FileSystem σ) (P : Event → Prop) : Prop where
  read {path : String} (h : P (.read path)) (files : σ) : f.read files path = g.read files path
  replace {path : String} {data : Bytes} {mode : Nat} (h : P (.replace path data mode))
    (files : σ) : f.replace files path data mode = g.replace files path data mode

namespace FileSystem.Agree

variable {σ : Type} {f g : FileSystem σ} {P P' : Event → Prop}

theorem refl (f : FileSystem σ) (P : Event → Prop) : f.Agree f P :=
  ⟨fun _ _ => rfl, fun _ _ => rfl⟩

theorem mono (h : f.Agree g P) (hp : ∀ e, P' e → P e) : f.Agree g P' :=
  ⟨fun hr => h.read (hp _ hr), fun hr => h.replace (hp _ hr)⟩

end FileSystem.Agree

namespace CertificateRequest

/-- What the request names of its authority. -/
def authorityMaterial (r : CertificateRequest) : List Material :=
  r.signingPrivateKey.toList ++ r.signingCert.toList ++ r.signingPublicKey.toList

/-- What the request names of its subject. -/
def subjectMaterial (r : CertificateRequest) : List Material :=
  r.publicKey.toList ++ r.privateKey.toList ++ r.csr.toList

end CertificateRequest

namespace Site

/-- The same backends over other files. -/
abbrev withFiles {σ : Type} (s : Site σ) (files : FileSystem σ) : Site σ := { s with files }

variable {σ : Type} {P : Event → Prop} {s : Site σ} {g : FileSystem σ} {r : CertificateRequest}

open Run (Alike)

section

variable (hg : s.files.Agree g P)
include hg

theorem alike_read {path : String} (h : P (.read path)) :
    Alike P (s.read path) ((s.withFiles g).read path) fun _ => True :=
  (Alike.note h).bind fun _ _ => Alike.world.bind fun _ _ => by
    rw [withFiles, hg.read h]
    exact (Alike.ofOutcome _).any

theorem alike_replace {path : String} {data : Bytes} {mode : Nat}
    (h : P (.replace path data mode)) :
    Alike P (s.replace path data mode) ((s.withFiles g).replace path data mode) fun _ => True := by
  refine (Alike.note h).bind fun _ _ => ?_
  simp only [hg.replace h]
  exact Alike.changeFiles _

theorem alike_material {stage : Stage} {m : Material}
    (h : ∀ path, m = .path path → P (.read path)) :
    Alike P (s.material stage m) ((s.withFiles g).material stage m) fun _ => True := by
  cases m with
  | inline b => exact Alike.pure trivial
  | path path => exact Alike.atStage stage (alike_read hg (h path rfl))

section

variable (h : ∀ path, .path path ∈ r.authorityMaterial → P (.read path))
include h

theorem alike_signingCertificate :
    Alike P (s.signingCertificate r) ((s.withFiles g).signingCertificate r) fun _ => True := by
  unfold signingCertificate
  split
  · rename_i m hkind hm
    have hread (path : String) (hpath : m = .path path) : P (.read path) :=
      h path (by simp [CertificateRequest.authorityMaterial, hm, hpath])
    refine Alike.bind (Q := fun _ => True) ?_ fun _ _ => Alike.pure trivial
    exact (alike_material hg hread).bind fun _ _ => (Alike.backendAt _ _).any
  · exact Alike.pure trivial

theorem alike_signer : Alike P (s.signer r) ((s.withFiles g).signer r) fun _ => True := by
  unfold signer
  split
  · exact Alike.pure trivial
  · rename_i m hm
    have hread (path : String) (hpath : m = .path path) : P (.read path) :=
      h path (by simp [CertificateRequest.authorityMaterial, hm, hpath])
    exact (alike_material hg hread).bind fun _ _ => (Alike.backendAt _ _).bind fun _ _ =>
      (Alike.backendAt _ _).bind fun _ _ => (alike_signingCertificate hg h).bind fun _ _ =>
        Alike.pure trivial

theorem alike_signerIdentity :
    Alike P (s.signerIdentity r) ((s.withFiles g).signerIdentity r) fun _ => True := by
  refine (alike_signingCertificate hg h).bind fun certificate _ => ?_
  split
  · rename_i m hm
    have hread (path : String) (hpath : m = .path path) : P (.read path) :=
      h path (by simp [CertificateRequest.authorityMaterial, hm, hpath])
    exact (alike_material hg hread).bind fun _ _ => (Alike.backendAt _ _).bind fun _ _ =>
      Alike.pure trivial
  · exact Alike.pure trivial

end

/-- Without material of a subject, the key is the authority's. -/
theorem alike_subjectKey (authority : PublicKey)
    (h : ∀ path, .path path ∈ r.subjectMaterial → P (.read path)) :
    Alike P (s.subjectKey r authority) ((s.withFiles g).subjectKey r authority) fun subject =>
      r.subjectMaterial = [] → subject.publicKey = authority := by
  have hread {m : Material} (hm : m ∈ r.subjectMaterial) (stage : Stage) :
      Alike P (s.material stage m) ((s.withFiles g).material stage m) fun _ => True :=
    alike_material hg fun path hpath => h path (hpath ▸ hm)
  unfold subjectKey
  split
  · rename_i m hm
    have hmem : m ∈ r.subjectMaterial := by simp [CertificateRequest.subjectMaterial, hm]
    exact (hread hmem _).bind fun _ _ => (Alike.backendAt _ _).bind fun _ _ =>
      Alike.pure fun hnone => by simp [hnone] at hmem
  · rename_i m hp hm
    have hmem : m ∈ r.subjectMaterial := by simp [CertificateRequest.subjectMaterial, hm]
    exact (hread hmem _).bind fun _ _ => (Alike.backendAt _ _).bind fun _ _ =>
      (Alike.backendAt _ _).bind fun _ _ => Alike.pure fun hnone => by simp [hnone] at hmem
  · rename_i m hp hk hm
    have hmem : m ∈ r.subjectMaterial := by simp [CertificateRequest.subjectMaterial, hm]
    exact (hread hmem _).bind fun _ _ => (Alike.backendAt _ _).bind fun _ _ =>
      Alike.pure fun hnone => by simp [hnone] at hmem
  · exact Alike.pure fun _ => rfl

end

/-! ## Issuance -/

/-- Drafts are for what was asked. -/
def DraftsAsAsked (s : Site σ) : Prop :=
  ∀ {k m artifact r subject signer d},
    (s.backend k).buildDraft m artifact r subject signer = .ok d → d.IsFor r subject signer

theorem draftsAsAsked_backend (files : FileSystem σ) :
    (Site.mk files CertificateKind.backend).DraftsAsAsked :=
  CertificateKind.isFor_of_buildDraft

/-- The acts that issuing from a request consists of. -/
inductive Acts (r : CertificateRequest) : Event → Prop
  | read {path : String} (h : .path path ∈ r.authorityMaterial ++ r.subjectMaterial) :
    Acts r (.read path)
  | sign {d : Draft} (request : d.request = r)
    (own : r.subjectMaterial = [] → d.info.publicKey = d.signer.publicKey) : Acts r (.sign d)
  | copy {dir name : String} {data : Bytes} {mode : Nat} (asked : r.copypath = some dir)
    (plain : Path.isPlain name) : Acts r (.replace (Path.join dir name) data mode)

theorem alike_draft (hs : s.DraftsAsAsked) (artifact : ArtifactKind) (subject : PublicKey)
    (signer : SignerIdentity) :
    Alike P (s.draft artifact r subject signer) ((s.withFiles g).draft artifact r subject signer)
      fun d => d.IsFor r subject signer :=
  Alike.moment.bind fun _ _ => (Alike.backendAt _ _).mono (fun _ h => h) fun _ h => hs h

theorem alike_encodePlain (stage : Stage) (kind : CertificateKind) (c : Certificate) :
    Alike P (s.encodePlain stage kind c) ((s.withFiles g).encodePlain stage kind c) fun _ => True :=
  Alike.moment.bind fun _ _ => (Alike.backendAt _ _).any

theorem alike_keepCopy (hg : s.files.Agree g P)
    (h : ∀ {dir name data mode}, r.copypath = some dir → Path.isPlain name →
      P (.replace (Path.join dir name) data mode)) (c : Certificate) :
    Alike P (s.keepCopy r c) ((s.withFiles g).keepCopy r c) fun _ => True := by
  unfold keepCopy
  split
  · exact Alike.pure trivial
  · rename_i dir hdir
    refine Alike.bind (Q := fun _ => True) ?_ fun _ _ => Alike.pure trivial
    dsimp only [writeCopy]
    split
    · rename_i hplain
      exact (alike_encodePlain _ _ _).bind fun _ _ =>
        (Alike.atStage _ (alike_replace hg (h hdir hplain))).bind fun _ _ => Alike.pure trivial
    · exact (Alike.ofOutcome _).any

theorem alike_signCertificate {d : Draft} (hg : s.files.Agree g P) (hsign : P (.sign d))
    (hcopy : ∀ {dir name data mode}, d.request.copypath = some dir → Path.isPlain name →
      P (.replace (Path.join dir name) data mode)) (key : PrivateKey) :
    Alike P (s.signCertificate d key) ((s.withFiles g).signCertificate d key) fun _ => True := by
  refine Alike.bind (Q := fun _ => True) ?_ fun c _ =>
    (alike_keepCopy hg hcopy c).bind fun _ _ => Alike.pure trivial
  exact (Alike.note hsign).bind fun _ _ => Alike.moment.bind fun _ _ => (Alike.backendAt _ _).any

/-- Issuing from a request does nothing but that. -/
theorem alike_issue (hs : s.DraftsAsAsked) (hg : s.files.Agree g (Acts r)) :
    Alike (Acts r) (s.issue r) ((s.withFiles g).issue r) fun _ => True := by
  have hauthority (path : String) (h : .path path ∈ r.authorityMaterial) : Acts r (.read path) :=
    .read (List.mem_append_left _ h)
  have hsubject (path : String) (h : .path path ∈ r.subjectMaterial) : Acts r (.read path) :=
    .read (List.mem_append_right _ h)
  refine Alike.bind (Q := fun _ => True) ?_ fun signing _ => ?_
  · exact (alike_signer hg hauthority).bind fun _ _ => (Alike.ofOutcome _).any
  · refine (alike_subjectKey hg _ hsubject).bind fun subject hown => ?_
    refine (alike_draft hs _ _ _).bind fun d hd => ?_
    obtain rfl := hd.request
    refine alike_signCertificate hg (.sign rfl fun hnone => ?_) .copy _
    rw [hd.subject, hd.signer]
    exact hown hnone

end Site
end CertAuthority
