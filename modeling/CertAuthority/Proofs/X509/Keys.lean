import CertAuthority.Proofs.Asn1.Containers
import CertAuthority.Proofs.X509.Period

/-!
# Keys and algorithms in stored artifacts

Public keys and signature algorithms are written in one form each, whatever they were read from.

* `AlgorithmIdentifier.standard`, `SubjectKey.info` : what that form of a public key is read as;
* `KeyInfo.of_parser_encode` : a key that was written is read so, with nothing of what follows it;
* `SubjectKey.handle_info` : its handle keeps the bytes that were written;
* `SignatureAlgorithm.identifier`, `AlgorithmIdentifier.of_parser_signature` : the same for the
  algorithm of a signature, whose digest the view names.
-/

namespace CertAuthority.X509

open Der

/-! ## Identifiers -/

namespace AlgorithmIdentifier

/-- The identifier that is written with the keys of an algorithm. -/
def standard : KeyAlgorithm → AlgorithmIdentifier
  | .ed25519 => ⟨oidEd25519, none⟩
  | .ecdsaP256 => ⟨oidEcPublicKey, some ⟨tagOid, oidContent oidP256, Der.oid oidP256⟩⟩
  | .ecdsaP384 => ⟨oidEcPublicKey, some ⟨tagOid, oidContent oidP384, Der.oid oidP384⟩⟩
  | .rsa => ⟨oidRsaEncryption, some ⟨tagNull, [], null⟩⟩

def fields : Parser AlgorithmIdentifier := do return ⟨← oidValue, ← optionally anyElement⟩

/-- An identifier whose fields read as `a` is read as `a`. -/
theorem parser_seqOf {parts : List Bytes} {a : AlgorithmIdentifier} {r : Rules}
    (hl : parts.flatten.length < bitLimit 64) (hf : fields r parts.flatten = some (a, []))
    (rest : Bytes) : parser r (seqOf parts ++ rest) = some (a, rest) :=
  (inSequence_seqOf hl).trans (congrArg (Option.map fun x => (x.1, rest)) hf)

theorem parser_standard (a : KeyAlgorithm) (r : Rules) (rest : Bytes) :
    parser r (keyIdentifierOf a ++ rest) = some (standard a, rest) := by
  cases a <;> refine parser_seqOf (by with_unfolding_all decide) ?_ rest <;> cases r <;> with_unfolding_all decide

end AlgorithmIdentifier

/-- The identifier that a signature is stored with. -/
def SignatureAlgorithm.identifier (a : SignatureAlgorithm) : AlgorithmIdentifier :=
  ⟨a.oid, if a.isRsa then some ⟨tagNull, [], null⟩ else none⟩

theorem AlgorithmIdentifier.parser_signature (a : SignatureAlgorithm) (r : Rules) (rest : Bytes) :
    parser r (a.encode ++ rest) = some (a.identifier, rest) := by
  cases a <;> refine parser_seqOf (by with_unfolding_all decide) ?_ rest <;> cases r <;> with_unfolding_all decide

theorem SignatureAlgorithm.digestOfOid?_oid (a : SignatureAlgorithm) :
    digestOfOid? a.oid = a.digest? := by
  cases a <;> decide

/-! ## Public keys -/

namespace SubjectKey

/-- What a written key is read as. -/
def info (k : SubjectKey) : KeyInfo := ⟨.standard k.algorithm, k.bits, k.encode⟩

theorem algorithm?_info (k : SubjectKey) : k.info.algorithm? = some k.algorithm := by
  have hstandard (a : KeyAlgorithm) : KeyInfo.algorithm? ⟨.standard a, [], []⟩ = some a := by
    cases a <;> cbv
  exact hstandard k.algorithm

/-- The handle of a key that was read keeps the bytes that were written. -/
theorem handle_info (k : SubjectKey) : k.info.handle = .ok ⟨.x509, k.algorithm, k.encode⟩ := by
  rw [KeyInfo.handle, algorithm?_info]
  rfl

end SubjectKey

namespace KeyInfo

variable {k : SubjectKey} {r : Rules} {rest : Bytes}

theorem of_parser_encode {b : Bytes} {x : KeyInfo}
    (h : parser r (k.encode ++ rest) = some (x, b)) : x = k.info ∧ b = rest := by
  obtain ⟨e, _, he, hread⟩ := bind_eq_some_iff.1 h
  obtain ⟨rfl, rfl⟩ := of_anyElement_element (by decide) he
  rw [if_pos rfl] at hread
  obtain ⟨⟨identifier, content⟩, _, hwithin, hread⟩ := bind_eq_some_iff.1 hread
  obtain ⟨⟨left, hfields⟩, rfl⟩ := within_eq_some_iff.1 hwithin
  obtain ⟨rfl, rfl⟩ := pure_eq_some_iff.1 hread
  simp only [KeyInfo.fields, bind_eq_some_iff, pure_eq_some_iff, List.flatten_cons,
    AlgorithmIdentifier.parser_standard, Option.some.injEq, Prod.mk.injEq] at hfields
  obtain ⟨_, _, ⟨rfl, rfl⟩, found, _, hbits, ⟨rfl, rfl⟩, rfl⟩ := hfields
  obtain ⟨rfl, -⟩ := of_bitsValue_bits hbits
  exact ⟨rfl, rfl⟩

/-- A key within the limits of the encoding is read back. -/
theorem parser_encode (hl : k.bits.length < bitLimit 32) :
    parser r (k.encode ++ rest) = some (k.info, rest) := by
  have hlimit : bitLimit 32 < bitLimit 64 - 64 := by decide
  have hbits : k.bits.length + 1 < bitLimit 64 := by omega
  have hlength : [keyIdentifierOf k.algorithm, Der.bits k.bits].flatten.length < bitLimit 64 := by
    have hid : (keyIdentifierOf k.algorithm).length ≤ 30 := by
      cases k.algorithm <;> cbv
    have hle : (Der.bits k.bits).length ≤ (0 :: k.bits).length + 10 := length_element_le hbits
    simp only [List.flatten_cons, List.flatten_nil, List.append_nil, List.length_append]
    rw [List.length_cons] at hle
    omega
  have hfields : fields r [keyIdentifierOf k.algorithm, Der.bits k.bits].flatten =
      some ((.standard k.algorithm, k.bits), []) := by
    simp only [fields, bind_eq_some_iff, List.flatten_cons, AlgorithmIdentifier.parser_standard]
    exact ⟨_, _, rfl, _, _, bitsValue_bits hbits, rfl⟩
  rw [parser, bind_eq_some_iff]
  refine ⟨_, _, anyElement_element (by decide) hlength, ?_⟩
  rw [if_pos rfl, bind_eq_some_iff]
  exact ⟨_, _, within_eq_some_iff.2 ⟨⟨_, hfields⟩, rfl⟩, rfl⟩

end KeyInfo

end CertAuthority.X509
