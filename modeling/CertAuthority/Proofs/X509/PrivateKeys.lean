import CertAuthority.Proofs.Text.Armor
import CertAuthority.Proofs.X509.PasswordEncryption
import CertAuthority.X509.PrivateKey

/-!
# Private key files of X.509 are read back

* `loadPrivateKey_of_clear` : a key in the clear is read with whatever passphrase;
* `isClear_or_encrypted` : a key that is read with a passphrase is in the clear, or asks for one;
* `loadPrivateKey_encodePrivateKey` : a key that was written under a passphrase, or in the clear, is
  read with it; and only with one if there was one (`asks_of_encodePrivateKey`).
-/

namespace CertAuthority.X509

open Der

variable {b data : Bytes} {k : PrivateKey} {p : String} {passphrase : Option String}

/-! ## Reading with and without a passphrase -/

theorem loadPrivateKey_eq_ok_iff :
    loadPrivateKey b passphrase = .ok k ↔ ∃ der s, clearContainer b passphrase = .ok der ∧
      SigningKey.parse? der = some s ∧ k = ⟨.x509, s.algorithm, der⟩ := by
  rw [loadPrivateKey, Outcome.bind_eq_ok_iff]
  constructor
  · rintro ⟨der, hder, h⟩
    split at h
    · rename_i s hs
      exact ⟨der, s, hder, hs, (Except.ok.inj h).symm⟩
    · cases h
  · rintro ⟨der, s, hder, hs, rfl⟩
    refine ⟨der, hder, ?_⟩
    rw [hs]
    rfl

/-- Without a passphrase the container is found as with one, or asks for it. -/
theorem clearContainer_cases (b : Bytes) (p : String) :
    clearContainer b none = clearContainer b (some p) ∨
      clearContainer b none = Outcome.fail .encrypted := by
  unfold clearContainer
  split
  · split
    · exact .inr rfl
    · exact .inl rfl
  · split
    · exact .inr rfl
    · exact .inl rfl

/-- A key in the clear is read with whatever passphrase. -/
theorem loadPrivateKey_of_clear (h : loadPrivateKey b none = .ok k) (p : String) :
    loadPrivateKey b (some p) = .ok k := by
  obtain ⟨der, s, hder, hs⟩ := loadPrivateKey_eq_ok_iff.1 h
  rcases clearContainer_cases b p with hclear | hasks
  · exact loadPrivateKey_eq_ok_iff.2 ⟨der, s, hclear ▸ hder, hs⟩
  · rw [hasks] at hder
    cases hder

/-- A key that is read with a passphrase is in the clear, or asks for one. -/
theorem isClear_or_encrypted (h : loadPrivateKey b (some p) = .ok k) :
    loadPrivateKey b none = .ok k ∨ loadPrivateKey b none = Outcome.fail .encrypted := by
  rcases clearContainer_cases b p with hclear | hasks
  · left
    unfold loadPrivateKey
    rw [hclear]
    exact h
  · right
    unfold loadPrivateKey
    rw [hasks]
    rfl

/-! ## Reading what was written -/

theorem isLabel_privateKey : Armor.IsLabel labelPrivateKey := ⟨by decide, by with_unfolding_all decide⟩

theorem isLabel_encryptedKey : Armor.IsLabel labelEncryptedKey := ⟨by decide, by with_unfolding_all decide⟩

theorem clearContainer_armored {label : String} (h : Armor.IsLabel label) (content : Bytes)
    (passphrase : Option String) :
    clearContainer (Armor.encode label content) passphrase =
      if label = labelEncryptedKey then decryptContainer content passphrase
      else if label = labelPrivateKey then .ok content else unrecognizedKey := by
  have hblock := Armor.first?_encode h content []
  rw [List.append_nil] at hblock
  rw [clearContainer, hblock]

/-- A standard container is a sequence. -/
theorem isSequence_of_isContainer {der : Bytes} (h : isContainer der = true) :
    isSequence der = true := by
  unfold isContainer Parser.parseAll? Parser.runOn at h
  split at h
  · rename_i hread
    obtain ⟨content, rest, htagged, hfilled⟩ := bind_eq_some_iff.1 hread
    obtain ⟨_, -, hrest⟩ := Option.map_eq_some_iff.1 hfilled
    obtain rfl := (Prod.mk.inj hrest).2
    rw [isSequence, Parser.parseAll?, Parser.runOn, htagged]
    rfl
  · cases h

theorem encryptedContainer?_encode {random : Bytes} (hrandom : random.length = 32)
    (hl : data.length < bitLimit 63) :
    encryptedContainer? (seqOf [(PasswordScheme.fresh random).encode, octets data]) =
      some (.fresh random, data) := by
  obtain ⟨a, hread, ha, hshort⟩ :=
    PasswordScheme.exists_parser_encode hrandom .distinguished (octets data)
  have hlimit : bitLimit 63 + 2000 < bitLimit 64 := by decide
  have hoctets : (octets data).length ≤ data.length + 10 := length_element_le (by omega)
  have hparts : ([(PasswordScheme.fresh random).encode, octets data].flatten).length <
      bitLimit 64 := by
    simp only [List.flatten_cons, List.flatten_nil, List.append_nil, List.length_append]
    omega
  have hdata : tagged tagOctetString .distinguished (octets data) = some (data, []) := by
    have h : tagged tagOctetString .distinguished (octets data ++ []) = some (data, []) :=
      tagged_element (by decide) (by omega)
    rwa [List.append_nil] at h
  have hfields : Parser.parseAll? (inWholeSequence do
      return (← AlgorithmIdentifier.parser, ← tagged tagOctetString)) .distinguished
      (seqOf [(PasswordScheme.fresh random).encode, octets data]) = some (a, data) := by
    have hwhole : tagged tagSequence .distinguished
        (seqOf [(PasswordScheme.fresh random).encode, octets data] ++ []) =
        some ([(PasswordScheme.fresh random).encode, octets data].flatten, []) :=
      tagged_element (by decide) hparts
    have hinner : (do return (← AlgorithmIdentifier.parser, ← tagged tagOctetString) :
        Parser (AlgorithmIdentifier × Bytes)) .distinguished
        [(PasswordScheme.fresh random).encode, octets data].flatten = some ((a, data), []) := by
      simp only [bind_eq_some_iff, List.flatten_cons, List.flatten_nil, List.append_nil]
      exact ⟨a, _, hread, data, [], hdata, rfl⟩
    rw [List.append_nil] at hwhole
    have hsequence : inWholeSequence (do
        return (← AlgorithmIdentifier.parser, ← tagged tagOctetString)) .distinguished
        (seqOf [(PasswordScheme.fresh random).encode, octets data]) = some ((a, data), []) := by
      rw [inWholeSequence, bind_eq_some_iff]
      refine ⟨_, _, hwhole, ?_⟩
      rw [filling, Parser.parseAll?, Parser.runOn, hinner]
      rfl
    rw [Parser.parseAll?, Parser.runOn, hsequence]
  rw [encryptedContainer?, hfields]
  simp only [Option.bind_eq_bind, Option.bind_some, ha]
  rfl

/-- **A key that was written is read back**, with the passphrase it was written under if there was
one. -/
theorem loadPrivateKey_encodePrivateKey {q : Option String} (hk : loadPrivateKey b q = .ok k)
    (hl : k.encoded.length < bitLimit 62) {m : Moment}
    (h : encodePrivateKey m k passphrase = .ok data) : loadPrivateKey data passphrase = .ok k := by
  obtain ⟨der, s, -, hs, rfl⟩ := loadPrivateKey_eq_ok_iff.1 hk
  replace hl : der.length < bitLimit 62 := hl
  refine loadPrivateKey_eq_ok_iff.2 ⟨der, s, ?_, hs, rfl⟩
  cases passphrase with
  | none =>
    obtain rfl := Except.ok.inj h
    have hlabel : labelPrivateKey ≠ labelEncryptedKey := by decide
    rw [clearContainer_armored isLabel_privateKey, if_neg hlabel, if_pos rfl]
  | some p =>
    unfold encodePrivateKey at h
    dsimp only at h
    split at h
    · rename_i hcontainer
      obtain rfl := Except.ok.inj h
      have hrandom := m.length_random 32
      have hlength := PasswordScheme.length_encrypt_le hrandom (Bytes.ofText p) der
      have hlimit : bitLimit 62 + 16 < bitLimit 63 := by decide
      rw [clearContainer_armored isLabel_encryptedKey, if_pos rfl, decryptContainer,
        encryptedContainer?_encode hrandom (by omega)]
      simp only [PasswordScheme.decrypt?_encrypt hrandom, isSequence_of_isContainer hcontainer,
        if_true]
    · cases h

/-- What was written under a passphrase asks for it. -/
theorem asks_of_encodePrivateKey {m : Moment} (h : encodePrivateKey m k (some p) = .ok data) :
    loadPrivateKey data none = Outcome.fail .encrypted := by
  unfold encodePrivateKey at h
  dsimp only at h
  split at h
  · obtain rfl := Except.ok.inj h
    rw [loadPrivateKey, clearContainer_armored isLabel_encryptedKey, if_pos rfl]
    rfl
  · cases h

end CertAuthority.X509
