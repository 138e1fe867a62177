import CertAuthority.Proofs.X509.Revocations

/-!
# Signatures on stored artifacts

What a key signed is found again in the stored artifact, next to the algorithm. Whether it verifies
is up to the signature scheme; that the verifier is given the right message, algorithm and key is
shown here.

* `signedPart?` : the part of an artifact that its signature is over;
* `PrivateKey.Confirms` : what the key signs verifies with its public key;
* `SigningKey.length_publicBits` : the public half of every key that is accepted is short;
* `verifiesArtifact_certificate`, `verifiesArtifact_list` : so a certificate or a list that renders
  its plan verifies.
-/

namespace CertAuthority
namespace X509

open Der

/-! ## The length of public keys -/

theorem lt_bitLimit_of_bitLength {n k : Nat} (h : bitLength n ≤ k) : n < bitLimit k := by
  unfold bitLength at h
  split at h
  · rename_i hn
    rw [hn]
    exact bitLimit_pos k
  · exact Nat.lt_of_lt_of_le Nat.lt_log2_self (Nat.pow_le_pow_right (by decide) h)

theorem length_encodeRsaPublicKey {k : Rsa.PrivateKey} (h : isSoundRsa k = true) :
    (encodeRsaPublicKey k.publicKey).length < bitLimit 32 := by
  simp only [isSoundRsa, Bool.and_eq_true, decide_eq_true_eq] at h
  have hbits : bitLength k.modulus ≤ 8 * 512 := by omega
  have hexponent : k.publicExponent < bitLimit (8 * 5) :=
    Nat.lt_trans (by omega) (show bitLimit 33 < bitLimit (8 * 5) by decide)
  have hn := length_nat_le (by decide) (lt_bitLimit_of_bitLength hbits)
  have he := length_nat_le (by decide) hexponent
  have hlimit : 2000 < bitLimit 64 ∧ 2000 < bitLimit 32 := by decide
  have hcontent : [nat k.modulus, nat k.publicExponent].flatten.length ≤ 600 := by
    simp only [List.flatten_cons, List.flatten_nil, List.append_nil, List.length_append]
    omega
  have hle : (seqOf [nat k.modulus, nat k.publicExponent]).length ≤
      [nat k.modulus, nat k.publicExponent].flatten.length + 10 := length_element_le (by omega)
  exact Nat.lt_of_le_of_lt hle (by omega)

theorem isSoundRsa_of_rsaKey? {c : KeyContainer} {k : SigningKey} (h : rsaKey? c = some k) :
    ∃ key, k = .rsa key ∧ isSoundRsa key = true := by
  obtain ⟨key, -, h⟩ := Option.bind_eq_some_iff.1 h
  split at h
  · rename_i hsound
    exact ⟨key, (Option.some.inj h).symm, hsound.2.2⟩
  · cases h

namespace SigningKey

theorem isSoundRsa_of_parse? {der : Bytes} {key : Rsa.PrivateKey}
    (h : parse? der = some (.rsa key)) : isSoundRsa key = true := by
  obtain ⟨c, -, h⟩ := Option.bind_eq_some_iff.1 h
  simp only [Option.orElse_eq_orElse, Option.orElse_eq_or, Option.or_eq_some_iff,
    Option.map_eq_some_iff] at h
  rcases h with h | ⟨-, ⟨d, -, h⟩ | ⟨-, ⟨d, -, h⟩ | ⟨-, h⟩⟩⟩
  · obtain ⟨seed, -, h⟩ := Option.bind_eq_some_iff.1 h
    split at h <;> cases h
  · cases h
  · cases h
  · obtain ⟨found, hfound, hsound⟩ := isSoundRsa_of_rsaKey? h
    rwa [SigningKey.rsa.inj hfound]

theorem length_publicBits {der : Bytes} {k : SigningKey} (h : parse? der = some k) :
    k.publicBits.length < bitLimit 32 := by
  have hlimit : 200 < bitLimit 32 := by decide
  have hpoint (c : Curve) (hc : c.size ≤ 48) (d : Nat) :
      ((c.publicKey? d).getD []).length ≤ 97 := by
    cases hd : c.publicKey? d with
    | none => exact Nat.zero_le _
    | some pub =>
      unfold Curve.publicKey? at hd
      split at hd
      · obtain ⟨⟨x, y⟩, -, hpub⟩ := Option.bind_eq_some_iff.1 hd
        rw [Option.getD_some, ← Option.some.inj hpub, Curve.encodePoint, List.length_cons,
          List.length_append, Bytes.length_ofNatWidth, Bytes.length_ofNatWidth]
        omega
      · cases hd
  cases k with
  | ed25519 seed =>
    have hlength : (Ed25519.publicKey seed).length = 32 := by
      rw [Ed25519.publicKey, Ed25519.encode, Ed25519.toLittle, List.length_reverse,
        Bytes.length_ofNatWidth]
    rw [publicBits, hlength]
    decide
  | ecdsaP256 d => exact Nat.lt_of_le_of_lt (hpoint .p256 (by decide) d) (by decide)
  | ecdsaP384 d => exact Nat.lt_of_le_of_lt (hpoint .p384 (by decide) d) (by decide)
  | rsa key => exact length_encodeRsaPublicKey (isSoundRsa_of_parse? h)

end SigningKey

/-! ## What was signed -/

/-- The part of a stored artifact that its signature is over. -/
def signedPart? (der : Bytes) : Option Bytes :=
  ((inSequence anyElement).parse? .tolerant der).map (·.raw)

/-- What stands first in an artifact is what was read as the signed part. -/
theorem signedPart?_of_parse? {α : Type} {p : Element → Parser α} {der : Bytes} {a : α}
    {g : α → Bytes} (hsigned : ∀ {e : Element} {b left : Bytes} {x : α},
      p e .tolerant b = some (x, left) → g x = e.raw)
    (h : (inSequence do
      let e ← anyElement
      if e.tag = tagSequence then p e else Der.fail).parse? .tolerant der = some a) :
    signedPart? der = some (g a) := by
  obtain ⟨⟨_, left⟩, hread, rfl⟩ := Option.map_eq_some_iff.1 h
  obtain ⟨content, rest, hcontent, hread⟩ := bind_eq_some_iff.1 hread
  obtain ⟨⟨_, hfields⟩, rfl⟩ := within_eq_some_iff.1 hread
  obtain ⟨e, after, he, hfields⟩ := bind_eq_some_iff.1 hfields
  split at hfields
  · have hfirst : (inSequence anyElement) .tolerant der = some (e, rest) := by
      rw [inSequence, bind_eq_some_iff]
      exact ⟨content, rest, hcontent, within_eq_some_iff.2 ⟨⟨after, he⟩, rfl⟩⟩
    rw [signedPart?, Parser.parse?, Parser.runOn, hfirst]
    exact congrArg some (hsigned hfields).symm
  · cases hfields

theorem CertificateForm.signedPart?_eq {der : Bytes} {f : CertificateForm}
    (h : CertificateForm.parse? der = some f) : signedPart? der = some f.signed := by
  refine signedPart?_of_parse? (g := CertificateForm.signed) (fun {e b left x} hx => ?_) h
  obtain ⟨inner, _, hwithin, hx⟩ := bind_eq_some_iff.1 hx
  obtain ⟨⟨_, hfields⟩, rfl⟩ := within_eq_some_iff.1 hwithin
  simp only [bind_eq_some_iff, pure_eq_some_iff] at hx
  obtain ⟨_, _, -, _, _, -, rfl, -⟩ := hx
  simp only [signedFields, bind_eq_some_iff, pure_eq_some_iff, Prod.exists] at hfields
  obtain ⟨_, _, -, _, _, -, _, _, -, _, _, -, _, _, _, -, _, _, -, _, _, -, _, _, -, _, _, -, _, _,
    -, rfl, -⟩ := hfields
  rfl

theorem RevocationListForm.signedPart?_eq {der : Bytes} {f : RevocationListForm}
    (h : RevocationListForm.parse? der = some f) : signedPart? der = some f.signed := by
  refine signedPart?_of_parse? (g := RevocationListForm.signed) (fun {e b left x} hx => ?_) h
  obtain ⟨inner, _, hwithin, hx⟩ := bind_eq_some_iff.1 hx
  obtain ⟨⟨_, hfields⟩, rfl⟩ := within_eq_some_iff.1 hwithin
  simp only [bind_eq_some_iff, pure_eq_some_iff] at hx
  obtain ⟨_, _, -, _, _, -, rfl, -⟩ := hx
  simp only [signedFields, bind_eq_some_iff, pure_eq_some_iff] at hfields
  obtain ⟨_, _, -, _, _, -, _, _, -, _, _, -, _, _, -, _, _, -, _, _, -, rfl, -⟩ := hfields
  rfl

end X509

/-- What the key signs, if anything, verifies with its public key. -/
def PrivateKey.Confirms (key : PrivateKey) (message : Bytes) : Prop :=
  ∀ k a signature, X509.signingKey key = .ok k → k.sign? a message = some signature →
    X509.verifies a.identifier k.subjectKey.info message signature = true

/-- An Ed25519 key signs with one algorithm only. -/
theorem PrivateKey.confirms_of_ed25519 {key : PrivateKey} {seed message : Bytes}
    (hk : X509.signingKey key = .ok (.ed25519 seed))
    (h : X509.verifies X509.SignatureAlgorithm.ed25519.identifier
      (X509.SigningKey.ed25519 seed).subjectKey.info message (Ed25519.sign seed message) = true) :
    key.Confirms message := by
  intro k a signature hk' hsign
  obtain rfl := Except.ok.inj (hk.symm.trans hk')
  cases a with
  | ed25519 =>
    rw [X509.SigningKey.sign?, Option.some.injEq] at hsign
    rw [← hsign]
    exact h
  | _ => cases hsign

namespace X509

variable {c : Certificate} {k : SigningKey} {a : SignatureAlgorithm} {key : PrivateKey}

/-- The key behind a handle is found in the handle of its public half. -/
theorem parse?_derived {derived : PublicKey} (hk : signingKey key = .ok k)
    (hderived : derivePublicKey key = .ok derived) :
    KeyInfo.parser.parse? .tolerant derived.encoded = some k.subjectKey.info := by
  rw [derivePublicKey, hk] at hderived
  rw [← Except.ok.inj hderived]
  have hlength : k.subjectKey.bits.length < bitLimit 32 := by
    unfold signingKey at hk
    split at hk
    · rename_i found hfound
      rw [← Except.ok.inj hk]
      exact SigningKey.length_publicBits hfound
    · cases hk
  have hread : KeyInfo.parser .tolerant (k.subjectKey.encode ++ []) =
      some (k.subjectKey.info, []) :=
    KeyInfo.parser_encode hlength
  rw [List.append_nil] at hread
  exact congrArg (Option.map Prod.fst) hread

variable {derived : PublicKey} {issuer : Issuer}

/-- A certificate that renders its plan verifies with the key that signed it. -/
theorem verifiesArtifact_certificate {p : CertificatePlan} {f : CertificateForm}
    (hk : signingKey key = .ok k) (hderived : derivePublicKey key = .ok derived)
    (hkind : c.info.artifact = .certificate) (hf : CertificateForm.parse? c.encoded = some f)
    (hrenders : f.Renders p issuer (.ofKey k a))
    (hconfirms : ∀ part, signedPart? c.encoded = some part → key.Confirms part) :
    verifiesArtifact c derived = true := by
  have hsigned := hconfirms f.signed (CertificateForm.signedPart?_eq hf)
  have hverified := hsigned k a f.signature hk hrenders.signature
  unfold verifiesArtifact
  rw [parse?_derived hk hderived, hkind]
  simp only [hf, Option.any_some, CertificateForm.isSignedBy, hrenders.algorithm]
  exact hverified

/-- So does a revocation list. -/
theorem verifiesArtifact_list {p : RevocationListPlan} {f : RevocationListForm}
    (hk : signingKey key = .ok k) (hderived : derivePublicKey key = .ok derived)
    (hkind : c.info.artifact = .crl) (hf : RevocationListForm.parse? c.encoded = some f)
    (hrenders : f.Renders p issuer (.ofKey k a))
    (hconfirms : ∀ part, signedPart? c.encoded = some part → key.Confirms part) :
    verifiesArtifact c derived = true := by
  have hsigned := hconfirms f.signed (RevocationListForm.signedPart?_eq hf)
  have hverified := hsigned k a f.signature hk hrenders.signature
  have hknown (a : SignatureAlgorithm) :
      ([SignatureAlgorithm.ed25519, .ecdsaSha256, .ecdsaSha384, .rsaSha256, .rsaSha384,
        .rsaSha512].any fun b => b.oid == a.oid) = true := by
    cases a <;> decide
  unfold verifiesArtifact
  rw [parse?_derived hk hderived, hkind]
  simp only [hf, Option.any_some, RevocationListForm.isSignedBy, hrenders.algorithm,
    Bool.and_eq_true]
  exact ⟨hknown a, hverified⟩

end X509
end CertAuthority
