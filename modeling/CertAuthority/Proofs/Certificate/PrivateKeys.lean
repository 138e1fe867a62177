import CertAuthority.Certificate.Family
import CertAuthority.Proofs.OpenSsh.PrivateKeys
import CertAuthority.Proofs.X509.PrivateKeys

/-!
# Private keys of either family are read back

* `PrivateKey.IsSame` : the same key, whatever random word its container holds. The same keys have
  one public key (`derivePublicKey_of_isSame`) and sign alike (`sign_of_isSame`);
* `CertificateKind.loadPrivateKey_of_clear`, `isClear_or_encrypted` : what is read without a
  passphrase, and what asks for one;
* `CertificateKind.asks_of_encodePrivateKey` : what was written under a passphrase asks for it;
* `CertificateKind.exists_isSame_of_encodePrivateKey` : what was written is read back.
-/

namespace CertAuthority

open OpenSsh (sectionOf)

namespace PrivateKey

variable {k k' : PrivateKey}

/-- The same key. OpenSSH puts a new random word into a container with each encryption; it says
nothing about the key. -/
def IsSame (k k' : PrivateKey) : Prop :=
  k' = k ∨ (k.kind = .ssh ∧ k'.kind = .ssh ∧ k'.algorithm = k.algorithm ∧
    ∃ s check, sectionOf k = .ok s ∧ sectionOf k' = .ok { s with check })

theorem IsSame.refl (k : PrivateKey) : k.IsSame k := .inl rfl

theorem IsSame.algorithm_eq (h : k.IsSame k') : k'.algorithm = k.algorithm := by
  rcases h with rfl | ⟨-, -, h, -⟩
  · rfl
  · exact h

theorem derivePublicKey_of_isSame (h : k.IsSame k') :
    k'.kind.backend.derivePublicKey k' = k.kind.backend.derivePublicKey k := by
  rcases h with rfl | ⟨hkind, hkind', -, s, check, hs, hs'⟩
  · rfl
  · rw [hkind, hkind']
    show OpenSsh.derivePublicKey k' = OpenSsh.derivePublicKey k
    unfold OpenSsh.derivePublicKey
    rw [hs, hs']
    rfl

theorem sign_of_isSame (h : k.IsSame k') (m : Moment) (d : Draft) (digest : Option Digest) :
    k'.kind.backend.sign m d k' digest = k.kind.backend.sign m d k digest := by
  rcases h with rfl | ⟨hkind, hkind', halgorithm, s, check, hs, hs'⟩
  · rfl
  · rw [hkind, hkind']
    show OpenSsh.signDraft m d k' digest = OpenSsh.signDraft m d k digest
    unfold OpenSsh.signDraft
    rw [hs, hs', halgorithm]
    rfl

end PrivateKey

namespace CertificateKind

variable {b data : Bytes} {k k' : PrivateKey} {p : String} {passphrase q : Option String}
  {m : Moment}

/-- A key in the clear is read with whatever passphrase. -/
theorem loadPrivateKey_of_clear (kind : CertificateKind)
    (h : kind.backend.loadPrivateKey b none = .ok k) (p : String) :
    kind.backend.loadPrivateKey b (some p) = .ok k := by
  cases kind with
  | x509 => exact X509.loadPrivateKey_of_clear h p
  | ssh => exact OpenSsh.loadPrivateKey_of_clear h p

/-- A key that is read with a passphrase is in the clear, or asks for one. -/
theorem isClear_or_encrypted (kind : CertificateKind)
    (h : kind.backend.loadPrivateKey b (some p) = .ok k) :
    kind.backend.loadPrivateKey b none = .ok k ∨
      kind.backend.loadPrivateKey b none = Outcome.fail .encrypted := by
  cases kind with
  | x509 => exact X509.isClear_or_encrypted h
  | ssh => exact OpenSsh.isClear_or_encrypted h

/-- What was written under a passphrase, and is read with it, asks for it. -/
theorem asks_of_encodePrivateKey (kind : CertificateKind)
    (h : kind.backend.encodePrivateKey m k (some p) = .ok data)
    (hload : kind.backend.loadPrivateKey data (some p) = .ok k') :
    kind.backend.loadPrivateKey data none = Outcome.fail .encrypted := by
  cases kind with
  | x509 => exact X509.asks_of_encodePrivateKey h
  | ssh =>
    rcases OpenSsh.isClear_or_encrypted hload with hclear | hasks
    · exact absurd hclear (OpenSsh.loadPrivateKey_none_ne_ok h)
    · exact hasks

/-- **A key that was written is read back**, with the passphrase it was written under if there was
one. -/
theorem exists_isSame_of_encodePrivateKey (kind : CertificateKind)
    (hk : kind.backend.loadPrivateKey b q = .ok k) (hl : k.encoded.length < bitLimit 31)
    (h : kind.backend.encodePrivateKey m k passphrase = .ok data) :
    ∃ k', kind.backend.loadPrivateKey data passphrase = .ok k' ∧ k.IsSame k' := by
  cases kind with
  | x509 =>
    have hlimit : bitLimit 31 < bitLimit 62 := by decide
    exact ⟨k, X509.loadPrivateKey_encodePrivateKey hk (hl.trans hlimit) h, .refl k⟩
  | ssh =>
    obtain ⟨k', s, check, hload, halgorithm, hs, hs'⟩ :=
      OpenSsh.exists_loadPrivateKey_encodePrivateKey hk hl h
    exact ⟨k', hload, .inr ⟨OpenSsh.kind_of_loadPrivateKey hk, OpenSsh.kind_of_loadPrivateKey hload,
      halgorithm, s, check, hs, hs'⟩⟩

end CertificateKind
end CertAuthority
