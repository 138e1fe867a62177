import CertAuthority.Proofs.Certificate.Drafts
import CertAuthority.Proofs.Cipher.Aes
import CertAuthority.Proofs.Cipher.Modes
import CertAuthority.Proofs.X509.Keys
import CertAuthority.X509.PasswordEncryption

/-!
# What was encrypted under a password opens under it

* `Pbkdf2.length_derive` : derived keys have the length asked for;
* `PasswordScheme.decrypt?_encrypt` : what a new scheme encrypts under a password is decrypted
  under it;
* `PasswordScheme.parser_encode` : the scheme is read back from its identifier.
-/

namespace CertAuthority

/-! ## Lengths -/

namespace Pbkdf2

theorem length_chain {f : Bytes → Bytes} {size : Nat} (hf : ∀ b, (f b).length = size) (n : Nat)
    (last : Bytes) {out : Bytes} (hout : out.length = size) :
    (chain f n last out).length = size := by
  induction n generalizing last out with
  | zero => exact hout
  | succ n ih =>
    refine ih _ ?_
    rw [Bytes.length_xor, hf, hout, Nat.min_self]

theorem length_derive (password salt : Bytes) (iterations length : Nat) :
    (derive .sha256 password salt iterations length).length = length := by
  have hkeyed (b : Bytes) : (Hmac.withKey .sha256 password b).length = 32 := by
    simp [Hmac.withKey, Sha256.finish, Sha256.State.toBytes, Bytes.ofWord32,
      Bytes.length_ofNatWidth]
  have hblock (i : Nat) :
      (block (Hmac.withKey .sha256 password) salt iterations i).length = 32 :=
    length_chain hkeyed _ _ (hkeyed _)
  have hsize : HashAlgorithm.size .sha256 = 32 := rfl
  have hall : ((List.range ((length + 32 - 1) / 32)).flatMap fun i =>
      block (Hmac.withKey .sha256 password) salt iterations (i + 1)).length =
        32 * ((length + 32 - 1) / 32) := by
    rw [List.flatMap_def, Bytes.length_flatten (n := 32) (by simp [hblock])]
    simp
  rw [derive, hsize, List.length_take, hall]
  omega

end Pbkdf2

namespace X509

open Der

/-! ## Encrypting and decrypting -/

theorem isCipher_aes {key : Bytes} (hkey : key.length = 32) :
    Cipher.IsCipher 16 (Aes.encryptBlock (Aes.roundKeys key))
      (Aes.decryptBlock (Aes.roundKeys key)) := by
  have hkeys : ∀ k ∈ Aes.roundKeys key, k.length = 16 :=
    Aes.length_of_mem_roundKeys (by decide : 0 < 8) hkey
  exact ⟨fun block hblock => Aes.length_encryptBlock hkeys hblock,
    fun block hblock => Aes.decryptBlock_encryptBlock hkeys hblock⟩

namespace PasswordScheme

variable {random : Bytes}

theorem decrypt?_encrypt_aes {salt iv : Bytes} (n : Nat) (hiv : iv.length = 16)
    (password data : Bytes) :
    let scheme := PasswordScheme.aes (.pbkdf2 salt n none (some .sha256)) 32 iv
    scheme.decrypt? password (scheme.encrypt password data) = some data := by
  have hkey : (PasswordDerivation.pbkdf2 salt n none (some .sha256)).key? password 32 =
      some (Pbkdf2.derive .sha256 password salt n 32) := by
    simp [PasswordDerivation.key?]
  simp only [decrypt?, encrypt, hkey, Option.bind_eq_bind, Option.bind_some, Option.getD_some]
  exact Cipher.decryptChained?_encryptChained (isCipher_aes (Pbkdf2.length_derive _ _ _ _))
    (by decide) (by decide) hiv data

theorem length_encrypt_aes {salt iv : Bytes} (n : Nat) (hiv : iv.length = 16)
    (password data : Bytes) :
    ((PasswordScheme.aes (.pbkdf2 salt n none (some .sha256)) 32 iv).encrypt password data).length =
      (Cipher.pad 16 data).length := by
  have hkey : (PasswordDerivation.pbkdf2 salt n none (some .sha256)).key? password 32 =
      some (Pbkdf2.derive .sha256 password salt n 32) := by
    simp [PasswordDerivation.key?]
  simp only [encrypt, hkey, Option.getD_some]
  exact Cipher.length_encryptChained (isCipher_aes (Pbkdf2.length_derive _ _ _ _)) (by decide) hiv data

theorem length_iv (hrandom : random.length = 32) : ((random.drop 16).take 16).length = 16 := by
  rw [List.length_take, List.length_drop]
  omega

/-- **What a new scheme encrypts under a password, it decrypts under it.** -/
theorem decrypt?_encrypt (hrandom : random.length = 32) (password data : Bytes) :
    (fresh random).decrypt? password ((fresh random).encrypt password data) = some data :=
  decrypt?_encrypt_aes iterations (length_iv hrandom) password data

theorem length_encrypt_le (hrandom : random.length = 32) (password data : Bytes) :
    ((fresh random).encrypt password data).length ≤ data.length + 16 := by
  have hlength : ((fresh random).encrypt password data).length = (Cipher.pad 16 data).length :=
    length_encrypt_aes iterations (length_iv hrandom) password data
  rw [hlength]
  exact Cipher.length_pad_le 16 data

theorem length_le_encrypt (hrandom : random.length = 32) (password data : Bytes) :
    data.length ≤ ((fresh random).encrypt password data).length := by
  have hlength : ((fresh random).encrypt password data).length = (Cipher.pad 16 data).length :=
    length_encrypt_aes iterations (length_iv hrandom) password data
  rw [hlength, Cipher.pad, List.length_append]
  exact Nat.le_add_right _ _

/-! ## Identifiers -/

/-- An object identifier with one parameter. -/
theorem parser_oid {arcs : List Nat} {r : Rules} {tag : UInt8} {content : Bytes}
    (harcs : arcsOfContent? (oidContent arcs) = some arcs) (hl : (oidContent arcs).length < 100)
    (htag : tag &&& 0x1f ≠ 0x1f) (hcontent : content.length < 1000) (rest : Bytes) :
    AlgorithmIdentifier.parser r (seqOf [oid arcs, element tag content] ++ rest) =
      some (⟨arcs, some ⟨tag, content, element tag content⟩⟩, rest) := by
  have hlimit : 2000 < bitLimit 64 := by decide
  have hoid : (oidContent arcs).length < bitLimit 64 := by omega
  have helement : content.length < bitLimit 64 := by omega
  refine AlgorithmIdentifier.parser_seqOf ?_ ?_ rest
  · have hone : (oid arcs).length ≤ (oidContent arcs).length + 10 := length_element_le hoid
    have htwo : (element tag content).length ≤ content.length + 10 := length_element_le helement
    simp only [List.flatten_cons, List.flatten_nil, List.append_nil, List.length_append]
    omega
  · simp only [AlgorithmIdentifier.fields, bind_eq_some_iff, pure_eq_some_iff, List.flatten_cons,
      List.flatten_nil]
    exact ⟨arcs, _, oidValue_oid harcs hoid, _, [],
      of_optionally (anyElement_element htag helement), rfl, rfl⟩

def oidHmacSha256 : List Nat := [1, 2, 840, 113549, 2, 9]
def oidAes256 : List Nat := [2, 16, 840, 1, 101, 3, 4, 1, 42]

theorem prfParser_sha256 (r : Rules) (rest : Bytes) :
    prfParser r (seqOf [oid oidHmacSha256, null] ++ rest) = some (some .sha256, rest) := by
  have hread : AlgorithmIdentifier.parser r (seqOf [oid oidHmacSha256, null] ++ rest) =
      some (⟨oidHmacSha256, some ⟨tagNull, [], null⟩⟩, rest) :=
    parser_oid (by cbv) (by cbv) (by decide) (by decide) rest
  rw [prfParser, bind_eq_some_iff]
  exact ⟨_, _, hread, rfl⟩

/-- Salt and iterations of a key derivation. -/
def derivationContent (salt : Bytes) : Bytes :=
  octets salt ++ (nat iterations ++ seqOf [oid oidHmacSha256, null])

variable {salt iv : Bytes}

theorem length_derivationContent_le (hsalt : salt.length = 16) :
    (derivationContent salt).length ≤ 44 := by
  have hnat : (nat iterations).length = 4 := by
    simp [nat, natContent, Bytes.ofNat, Bytes.ofNatAux, element, lengthBytes, iterations]
  have hprf : (seqOf [oid oidHmacSha256, null]).length = 14 := by cbv
  have hoctets : (octets salt).length ≤ 16 + 10 :=
    hsalt ▸ length_element_le (by rw [hsalt]; decide)
  simp only [derivationContent, List.length_append, hnat, hprf]
  omega

theorem derivationOf?_pbkdf2 (hsalt : salt.length = 16) :
    derivationOf? ⟨oidPbkdf2, some ⟨tagSequence, derivationContent salt,
      element tagSequence (derivationContent salt)⟩⟩ =
      some (.pbkdf2 salt iterations none (some .sha256)) := by
  have hshort : salt.length < bitLimit 64 := by
    rw [hsalt]
    decide
  have hcount : (natContent iterations).length < bitLimit 64 := by
    simp [natContent, Bytes.ofNat, Bytes.ofNatAux, iterations, bitLimit]
  have hprf := prfParser_sha256 .distinguished []
  rw [List.append_nil] at hprf
  have hfields : pbkdf2Fields .distinguished (derivationContent salt) =
      some (.pbkdf2 salt iterations none (some .sha256), []) := by
    simp only [pbkdf2Fields, bind_eq_some_iff]
    refine ⟨salt, _, tagged_element (by decide) hshort, iterations, _,
      natBelow_nat (by decide) hcount _ _, none, _, rfl, false, _, rfl, ?_⟩
    rw [if_neg Bool.false_ne_true, bind_eq_some_iff]
    exact ⟨_, _, hprf, rfl⟩
  simp only [derivationOf?, Option.bind_eq_bind, Option.bind_some, ne_eq, not_true_eq_false,
    if_false, if_true, Parser.parseAll?, Parser.runOn, hfields]

theorem fields_aes (hsalt : salt.length = 16) (hiv : iv.length = 16) :
    fields .distinguished (seqOf [oid oidPbkdf2, element tagSequence (derivationContent salt)] ++
      seqOf [oid oidAes256, octets iv]) =
      some (.aes (.pbkdf2 salt iterations none (some .sha256)) 32 iv, []) := by
  have hshort := length_derivationContent_le hsalt
  have hderivation := @parser_oid oidPbkdf2 .distinguished tagSequence (derivationContent salt)
    (by cbv) (by cbv) (by decide) (by omega) (seqOf [oid oidAes256, octets iv])
  have hcipher := @parser_oid oidAes256 .distinguished tagOctetString iv
    (by cbv) (by cbv) (by decide) (by omega) []
  rw [List.append_nil] at hcipher
  simp only [fields, bind_eq_some_iff]
  have hlookup : cipherOids.lookup oidAes256 = some 32 := by decide
  refine ⟨_, _, hderivation, _, _, hcipher, .pbkdf2 salt iterations none (some .sha256), [], ?_,
    ⟨tagOctetString, iv, element tagOctetString iv⟩, [], rfl, ?_⟩
  · rw [derivationOf?_pbkdf2 hsalt]
    rfl
  · simp only [hlookup, hiv, and_self, if_true]
    rfl

/-- **A new scheme is read back from its identifier.** -/
theorem exists_parser_encode (hrandom : random.length = 32) (r : Rules) (rest : Bytes) :
    ∃ a, AlgorithmIdentifier.parser r ((fresh random).encode ++ rest) = some (a, rest) ∧
      ofIdentifier? a = some (fresh random) ∧ (fresh random).encode.length < 1100 := by
  obtain ⟨salt, iv, hsalt, hiv, hfresh⟩ : ∃ salt iv : Bytes, salt.length = 16 ∧ iv.length = 16 ∧
      fresh random = .aes (.pbkdf2 salt iterations none (some .sha256)) 32 iv := by
    refine ⟨random.take 16, (random.drop 16).take 16, ?_, length_iv hrandom, rfl⟩
    rw [List.length_take]
    omega
  let content := seqOf [oid oidPbkdf2, element tagSequence (derivationContent salt)] ++
    seqOf [oid oidAes256, octets iv]
  have hencode : (fresh random).encode = seqOf [oid oidPbes2, element tagSequence content] := by
    simp only [hfresh, encode, content, derivationContent, seqOf, List.flatten_cons,
      List.flatten_nil, List.append_nil]
    rfl
  have hshort : content.length < 1000 := by
    have hlimit : 1000 < bitLimit 64 := by decide
    have hone := length_derivationContent_le hsalt
    have htwo : (oid oidPbkdf2).length = 11 ∧ (oid oidAes256).length = 11 := by cbv
    have hthree := @length_element_le tagSequence (derivationContent salt) (by omega)
    have hfour := @length_element_le tagOctetString iv (by omega)
    have hfive := @length_element_le tagSequence
      [oid oidPbkdf2, element tagSequence (derivationContent salt)].flatten
    have hsix := @length_element_le tagSequence [oid oidAes256, octets iv].flatten
    simp only [List.flatten_cons, List.flatten_nil, List.append_nil, List.length_append, htwo,
      octets] at hfive hsix
    simp only [content, seqOf, List.length_append, List.flatten_cons, List.flatten_nil,
      List.append_nil, octets]
    omega
  refine ⟨⟨oidPbes2, some ⟨tagSequence, content, element tagSequence content⟩⟩, ?_, ?_, ?_⟩
  · rw [hencode]
    exact parser_oid (by cbv) (by cbv) (by decide) hshort rest
  · simp only [ofIdentifier?, Option.bind_eq_bind, Option.bind_some, if_true, Parser.parseAll?,
      Parser.runOn, content, fields_aes hsalt hiv, hfresh]
  · have hlimit : 1100 < bitLimit 64 := by decide
    have hoid : (oid oidPbes2).length = 11 := by cbv
    have hparams := @length_element_le tagSequence content (by omega)
    have hwhole := @length_element_le tagSequence [oid oidPbes2, element tagSequence content].flatten
    simp only [List.flatten_cons, List.flatten_nil, List.append_nil, List.length_append,
      hoid] at hwhole
    simp only [hencode, seqOf, List.flatten_cons, List.flatten_nil, List.append_nil]
    omega

end PasswordScheme
end X509
end CertAuthority
