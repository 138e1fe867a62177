import CertAuthority.Proofs.Certificate.PrivateKeys
import CertAuthority.Proofs.Managed.Targets

/-!
# A managed private key is not lost without consent

Where no fresh key is asked for, a key that can be read and is of the wanted algorithm stays. It may
be encrypted in place. A file that no key can be read from is left alone, unless it may be
overwritten.

* `Backend.Opens` : a key is read with the passphrase or without, and `CertificateKind.of_opens`;
* `Node.of_decideKey` : how a decision about a key was made;
* `Node.key_kept_or_refused` : what a run leaves at its target.
-/

namespace CertAuthority

open Run (bind_eq_ok_iff pure_eq_ok_iff atStage_eq_ok_iff ofOutcome_eq_ok_iff)

/-! ## Reading stored keys -/

section

variable {b : Backend} {data : Bytes} {passphrase : Option String} {key : PrivateKey}
  {encrypted : Bool}

/-- A key is read from the bytes, without a passphrase or with this one. -/
def Backend.Opens (b : Backend) (data : Bytes) (passphrase : Option String) (key : PrivateKey) :
    Prop :=
  b.loadPrivateKey data none = .ok key ∨ b.loadPrivateKey data passphrase = .ok key

theorem Backend.opens_of_readKey (h : b.readKey data passphrase = .ok (key, encrypted)) :
    b.Opens data passphrase key := by
  unfold readKey at h
  split at h
  · rename_i hload
    obtain ⟨rfl, -⟩ := Prod.mk.inj (Except.ok.inj h)
    exact .inl hload
  · obtain ⟨_, hload, h⟩ := Outcome.bind_eq_ok_iff.1 h
    obtain ⟨rfl, -⟩ := Prod.mk.inj (Except.ok.inj h)
    exact .inr hload
  · cases h

/-- A key that opens is read, and whether it is encrypted is found out. -/
theorem CertificateKind.of_opens (kind : CertificateKind)
    (h : kind.backend.Opens data passphrase key) :
    (kind.backend.loadPrivateKey data none = .ok key ∧
      kind.backend.readKey data passphrase = .ok (key, false)) ∨
    ∃ p, passphrase = some p ∧ kind.backend.loadPrivateKey data none = Outcome.fail .encrypted ∧
      kind.backend.readKey data passphrase = .ok (key, true) := by
  have hclear (hload : kind.backend.loadPrivateKey data none = .ok key) :
      kind.backend.readKey data passphrase = .ok (key, false) := by
    unfold Backend.readKey
    rw [hload]
  rcases h with hload | hload
  · exact .inl ⟨hload, hclear hload⟩
  cases passphrase with
  | none => exact .inl ⟨hload, hclear hload⟩
  | some p =>
    rcases kind.isClear_or_encrypted hload with hnone | hasks
    · exact .inl ⟨hnone, hclear hnone⟩
    · refine .inr ⟨p, rfl, hasks, ?_⟩
      unfold Backend.readKey
      rw [hasks]
      show (do return (← kind.backend.loadPrivateKey data (some p), true)) = Except.ok (key, true)
      rw [hload]
      rfl

end

/-! ## Decisions -/

namespace PrivateKeySpec

variable {spec : PrivateKeySpec} {b : Backend} {data : Bytes} {key : PrivateKey} {encrypted : Bool}
  {d : Decision KeyChanges PrivateKey}

theorem decide_of_readKey (h : b.readKey data spec.passphrase = .ok (key, encrypted)) :
    spec.decide b data = .ok (spec.decideFor key encrypted) := by
  rw [decide, h]

/-- Nothing is decided about a file that no key can be read from, unless it may be overwritten. -/
theorem exists_readKey_of_decide (h : spec.decide b data = .ok d) (hkeep : spec.overwrite = false) :
    ∃ key encrypted, b.readKey data spec.passphrase = .ok (key, encrypted) := by
  unfold decide at h
  split at h
  · rename_i key encrypted hread
    exact ⟨key, encrypted, hread⟩
  · cases h
  · rw [hkeep] at h
    cases h

/-- A key of the wanted algorithm is kept, or encrypted or decrypted in place. -/
theorem decideFor_of_algorithm (h : key.algorithm = spec.algorithm) (encrypted : Bool) :
    spec.decideFor key encrypted = if encrypted = spec.passphrase.isSome then .keep key
      else .reEncode key { passphrase := true } := by
  have halgorithm : (key.algorithm != spec.algorithm) = false := bne_eq_false_iff_eq.2 h
  unfold decideFor
  rw [halgorithm]
  by_cases hsame : encrypted = spec.passphrase.isSome
  · rw [if_pos hsame, bne_eq_false_iff_eq.2 hsame]
    rfl
  · rw [if_neg hsame, bne_iff_ne.2 hsame]
    rfl

end PrivateKeySpec

namespace Node

variable {σ : Type} {n : Node σ} {spec : PrivateKeySpec} {s s' t : RunState σ}
  {d : Decision KeyChanges PrivateKey} {out : Outcome Error (Report KeyChanges PrivateKey)}

/-- Where something is there and no fresh key is asked for, the stored bytes decide. -/
theorem of_decideKey (hthere : n.site.files.has s.world.files spec.target.path = true)
    (hfresh : spec.fresh = false) (h : (n.decideKey spec).run.run s = (.ok d, t)) :
    ∃ data, n.site.files.read s.world.files spec.target.path = .ok data ∧
      spec.decide (n.site.backend spec.kind) data = .ok d := by
  rw [decideKey, bind_eq_ok_iff] at h
  obtain ⟨there, u, hlooked, h⟩ := h
  have hfound : (n.site.has spec.target.path).run.run s =
      (.ok (n.site.files.has s.world.files spec.target.path), s) := rfl
  rw [hthere] at hfound
  obtain ⟨rfl, rfl⟩ := Run.ok_inj hfound hlooked
  rw [if_neg (by decide), hfresh, if_neg (by decide), bind_eq_ok_iff] at h
  obtain ⟨data, u, hread, h⟩ := h
  rw [atStage_eq_ok_iff, Site.run_read] at hread
  refine ⟨data, Outcome.mapError_eq_ok_iff.1 (Prod.mk.inj hread).1, ?_⟩
  exact (ofOutcome_eq_ok_iff.1 h).1

/-! ## Runs -/

/-- The file at the target holds the key, in the clear or under the passphrase. -/
structure Holds (n : Node σ) (spec : PrivateKeySpec) (files : σ) (data : Bytes)
    (key : PrivateKey) : Prop where
  there : n.site.files.has files spec.target.path = true
  bytes : n.site.files.read files spec.target.path = .ok data
  opens : (n.site.backend spec.kind).Opens data spec.passphrase key

/-- What is written for the key is read back as the same key. -/
def WritesBack (n : Node σ) (spec : PrivateKeySpec) (key : PrivateKey) : Prop :=
  ∀ m data, (n.site.backend spec.kind).encodePrivateKey m key spec.passphrase = .ok data →
    ∃ key', (n.site.backend spec.kind).loadPrivateKey data spec.passphrase = .ok key' ∧
      key.IsSame key'

/-- A key that was read is written back, unless it is of an enormous size. -/
theorem writesBack_of_holds {files : σ} {data : Bytes} {key : PrivateKey}
    (hb : n.site.backend = CertificateKind.backend) (h : n.Holds spec files data key)
    (hl : key.encoded.length < bitLimit 31) : n.WritesBack spec key := by
  intro m data' hencode
  have hopens := h.opens
  rw [hb] at hencode hopens ⊢
  rcases hopens with hload | hload
  · exact spec.kind.exists_isSame_of_encodePrivateKey hload hl hencode
  · exact spec.kind.exists_isSame_of_encodePrivateKey hload hl hencode

theorem Holds.of_sight {files files' : σ} {data : Bytes} {key : PrivateKey}
    (h : n.Holds spec files data key) (hsight : n.site.files.sight spec.target.path files' =
      n.site.files.sight spec.target.path files) : n.Holds spec files' data key :=
  ⟨(FileSystem.has_of_sight hsight).trans h.there,
    (FileSystem.read_of_sight hsight).trans h.bytes, h.opens⟩

/-- The decision about a key of the wanted algorithm that the target holds. -/
theorem decision_of_holds {data : Bytes} {key : PrivateKey}
    (hb : n.site.backend = CertificateKind.backend) (hfresh : spec.fresh = false)
    (hholds : n.Holds spec s.world.files data key) (halgorithm : key.algorithm = spec.algorithm)
    (h : (n.decideKey spec).run.run s = (.ok d, t)) :
    (d = .keep key ∧ ((n.site.backend spec.kind).loadPrivateKey data none =
      Outcome.fail .encrypted ↔ spec.passphrase.isSome = true)) ∨
    ∃ p changes, spec.passphrase = some p ∧ d = .reEncode key changes := by
  obtain ⟨there, bytes, opens⟩ := hholds
  obtain ⟨_, hread, hdecide⟩ := of_decideKey there hfresh h
  obtain rfl := Except.ok.inj (bytes.symm.trans hread)
  rw [hb] at opens hdecide ⊢
  rcases spec.kind.of_opens opens with ⟨hclear, hkey⟩ | ⟨p, hp, hasks, hkey⟩
  · obtain rfl := Except.ok.inj ((PrivateKeySpec.decide_of_readKey hkey).symm.trans hdecide)
    rw [PrivateKeySpec.decideFor_of_algorithm halgorithm]
    cases hpassphrase : spec.passphrase with
    | none =>
      refine .inl ⟨rfl, ?_⟩
      rw [hclear]
      exact iff_of_false (by rintro ⟨⟩) Bool.false_ne_true
    | some p => exact .inr ⟨p, _, rfl, rfl⟩
  · obtain rfl := Except.ok.inj ((PrivateKeySpec.decide_of_readKey hkey).symm.trans hdecide)
    rw [PrivateKeySpec.decideFor_of_algorithm halgorithm, hp]
    exact .inl ⟨rfl, iff_of_true hasks rfl⟩

/-- **A managed private key is not lost without consent.** Whatever a run comes to that does not ask
for a fresh key: if its target holds a key of the wanted algorithm, in the clear or under the
passphrase, it holds the same key afterwards; and if the run succeeded in earnest, the key is
encrypted if and only if there is a passphrase. If no key can be read from what is there, and it may
not be overwritten, then the run fails and no file changes. What is asked of the files is that they
show what was put there, and of encoding that it can be undone. -/
theorem key_kept_or_refused (hb : n.site.backend = CertificateKind.backend)
    (hfiles : n.site.files.IsFaithful spec.target.path) (hfresh : spec.fresh = false)
    (hrun : (n.privateKey spec).run.run s = (out, s')) :
    (∀ data key, n.Holds spec s.world.files data key → key.algorithm = spec.algorithm →
      n.WritesBack spec key →
        ∃ data' key', n.Holds spec s'.world.files data' key' ∧ key.IsSame key' ∧
          ∀ report, out = .ok report → spec.target.dryRun = false →
            ((n.site.backend spec.kind).loadPrivateKey data' none = Outcome.fail .encrypted ↔
              spec.passphrase.isSome = true)) ∧
    (n.site.files.has s.world.files spec.target.path = true →
      (∀ data key, ¬ n.Holds spec s.world.files data key) → spec.overwrite = false →
        (∃ fault, out = .error fault) ∧ s'.world.files = s.world.files) := by
  refine ⟨fun data key hholds halgorithm hback => ?_, fun hthere hnone hkeep => ?_⟩
  · rcases cases_sight (a := .privateKey spec) trivial hfiles hrun with
      ⟨hsight, hidle⟩ | ⟨j, t, key', data', m, report, hj, hmakes, hencode, hsight, -⟩
    · -- nothing was written: a successful run in earnest had decided to keep the key
      refine ⟨data, key, hholds.of_sight hsight, .refl key, fun report hreport hearnest => ?_⟩
      have hnoOp : report.action = .noOp := by
        refine (hidle report hreport).1.resolve_right fun hdry => ?_
        exact Bool.false_ne_true (hearnest.symm.trans hdry)
      subst hreport
      obtain ⟨d, _, hdecide, hsettle⟩ := bind_eq_ok_iff.1 hrun
      have haction := (Site.of_settle hsettle).1
      rcases decision_of_holds hb hfresh hholds halgorithm hdecide with ⟨-, hsame⟩ | ⟨_, _, -, rfl⟩
      · exact hsame
      · cases hnoOp.symm.trans haction
    · -- what was written is the key that was there
      obtain ⟨d, u, hdecide, hj⟩ := bind_eq_ok_iff.1 hj
      obtain ⟨rfl, rfl⟩ := pure_eq_ok_iff.1 hj
      have hthere := congrArg Prod.fst hsight
      have hbytes := congrArg (·.2.2) hsight
      rcases decision_of_holds hb hfresh hholds halgorithm hdecide with ⟨rfl, -⟩ |
        ⟨p, changes, hp, rfl⟩
      · exact hmakes.elim
      · obtain rfl : key' = key := hmakes
        obtain ⟨stored, hload, hsame⟩ := hback m data' hencode
        refine ⟨data', stored, ⟨hthere, hbytes, .inr hload⟩, hsame, fun _ _ _ => ?_⟩
        rw [hp] at hload hencode ⊢
        rw [hb] at hload hencode ⊢
        exact iff_of_true (spec.kind.asks_of_encodePrivateKey hencode hload) rfl
  · have hlooks : Run.Keeps (fun _ => True) (fun files _ => files) (n.decideKey spec) :=
      keeps_decideKey (fun _ => trivial) spec
    rcases hlooks.bind_cases hrun with ⟨fault, hfault, hleaves⟩ | ⟨d, u, hdecide, -, -⟩
    · exact ⟨⟨fault, hfault⟩, hleaves.seen⟩
    · obtain ⟨data, hread, hdecided⟩ := of_decideKey hthere hfresh hdecide
      obtain ⟨key, encrypted, hkey⟩ := PrivateKeySpec.exists_readKey_of_decide hdecided hkeep
      exact absurd ⟨hthere, hread, Backend.opens_of_readKey hkey⟩ (hnone data key)

section

/-- The key in the clear, and bare. -/
def bareKey : PrivateKey where
  kind := .x509
  algorithm := .ed25519
  encoded := Der.seqOf [Der.nat 0, X509.keyIdentifierOf .ed25519,
    Der.octets (Der.octets (List.replicate 32 9))]

/-- The key is to be encrypted. -/
def lockedKey : PrivateKeySpec where
  target := { path := "/host.key", mode := Target.keyMode }
  kind := .x509
  algorithm := .ed25519
  passphrase := some "sesame"

def lockedStart : RunState FileStore where
  world :=
    { files := { entries := [("/host.key", .file bareKey.encoded Target.keyMode)] }
      now := .ofSeconds 0, seed := [] }

theorem holds_lockedStart :
    keeper.Holds lockedKey lockedStart.world.files bareKey.encoded bareKey := by
  refine ⟨rfl, rfl, .inl (X509.loadPrivateKey_eq_ok_iff.2 ?_)⟩
  have hclear : X509.clearContainer bareKey.encoded none = .ok bareKey.encoded := by
    with_unfolding_all decide
  have hparse : (X509.SigningKey.parse? bareKey.encoded).map (·.algorithm) = some .ed25519 := by
    with_unfolding_all decide
  obtain ⟨key, hkey, halgorithm⟩ := Option.map_eq_some_iff.1 hparse
  exact ⟨bareKey.encoded, key, hclear, hkey, by rw [halgorithm]; rfl⟩

/-- The key is encrypted where it is, and it is the same key. -/
theorem key_kept_or_refused_of_lockedKey :
    ∃ report v data key, (keeper.privateKey lockedKey).run.run lockedStart = (.ok report, v) ∧
      keeper.site.files.IsFaithful "/host.key" ∧ report.action = .reEncode ∧
      keeper.Holds lockedKey v.world.files data key ∧ bareKey.IsSame key ∧
      X509.loadPrivateKey data none = Outcome.fail .encrypted := by
  have haction : ((keeper.privateKey lockedKey).run.run lockedStart).1.toOption.map
      (·.action) = some .reEncode := by decide +kernel
  obtain ⟨report, v, hrun, haction⟩ : ∃ report v,
      (keeper.privateKey lockedKey).run.run lockedStart = (.ok report, v) ∧
        report.action = .reEncode := by
    cases hrun : (keeper.privateKey lockedKey).run.run lockedStart with
    | mk out v =>
      rw [hrun] at haction
      cases out with
      | error fault => cases haction
      | ok report => exact ⟨report, v, rfl, Option.some.inj haction⟩
  have hfiles := FileStore.isFaithful "/host.key"
  have hback : keeper.WritesBack lockedKey bareKey :=
    writesBack_of_holds rfl holds_lockedStart (by decide +kernel)
  obtain ⟨data, key, hholds, hsame, hencrypted⟩ :=
    (key_kept_or_refused rfl hfiles rfl hrun).1 _ _ holds_lockedStart rfl hback
  exact ⟨report, v, data, key, hrun, hfiles, haction, hholds, hsame,
    (hencrypted report rfl rfl).2 rfl⟩

end

end Node
end CertAuthority
