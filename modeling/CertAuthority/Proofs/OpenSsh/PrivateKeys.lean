import CertAuthority.Proofs.Cipher.Aes
import CertAuthority.Proofs.Cipher.Modes
import CertAuthority.Proofs.Certificate.Drafts
import CertAuthority.Proofs.OpenSsh.Keys
import CertAuthority.Proofs.Text.Armor

/-!
# Private key files of OpenSSH are read back

* `SshPrivateKey.reads_encode`, `PrivateSection.parse?_encode` : the parts of a container;
* `PrivateKeyFile.parse?_printClear`, `parse?_printEncrypted`, `of_encrypt?` : the container;
* `loadPrivateKey_of_clear` : a key in the clear is read with whatever passphrase;
* `isClear_or_encrypted` : a key that is read with a passphrase is in the clear, or asks for one;
* `exists_loadPrivateKey_encodePrivateKey` : a key that was written under a passphrase, or in the
  clear, is read with it; and not without one if there was one (`loadPrivateKey_none_ne_ok`).
-/

namespace CertAuthority.OpenSsh

open Wire

/-! ## Keys -/

namespace SshPrivateKey

variable {f : KeyFamily} {fields canonical : List Bytes} {b b' : Bytes} {k : SshPrivateKey}

/-- The byte strings are in their usual form, and their lengths fit the format. -/
structure IsValid (k : SshPrivateKey) : Prop where
  arity : arity? k.family = some k.fields.length
  canonical : canonical? k.family k.fields = some k.fields
  short : ∀ b ∈ k.fields, b.length < bitLimit 32

theorem length_of_canonicalFactor? {size : Nat} {c : Bytes} (h : canonicalFactor? size b = some c) :
    c.length ≤ size + 1 := by
  unfold canonicalFactor? at h
  generalize (if b.length = size + 1 ∧ b.head? = some 0 then b.drop 1 else b) = digits at h
  dsimp only at h
  split at h
  · cases h
  · split at h
    · obtain rfl := Option.some.inj h
      rw [List.length_cons]
      omega
    · obtain rfl := Option.some.inj h
      omega

/-- The usual form of a factor is its own. -/
theorem canonicalFactor?_canonical {size : Nat} {c : Bytes} (h : canonicalFactor? size b = some c) :
    canonicalFactor? size c = some c := by
  unfold canonicalFactor? at h
  generalize (if b.length = size + 1 ∧ b.head? = some 0 then b.drop 1 else b) = digits at h
  dsimp only at h
  split at h
  · cases h
  · rename_i hlength
    replace hlength : digits.length = size := Decidable.byContradiction hlength
    split at h
    · rename_i htop
      obtain rfl := Option.some.inj h
      have hdigits : (0 :: digits).length = size + 1 ∧ (0 :: digits).head? = some 0 :=
        ⟨by rw [List.length_cons, hlength], rfl⟩
      rw [canonicalFactor?, if_pos hdigits]
      simp only [List.drop_succ_cons, List.drop_zero, hlength, ne_eq, not_true_eq_false, if_false,
        htop, if_true]
    · rename_i htop
      obtain rfl := Option.some.inj h
      have hplain : ¬ (digits.length = size + 1 ∧ digits.head? = some 0) := by omega
      rw [canonicalFactor?, if_neg hplain]
      simp only [hlength, ne_eq, not_true_eq_false, if_false, htop, Bool.false_eq_true]

theorem of_canonical? (h : canonical? f fields = some canonical)
    (hshort : ∀ b ∈ fields, b.length < bitLimit 32) :
    canonical? f canonical = some canonical ∧ canonical.length = fields.length ∧
      ∀ b ∈ canonical, b.length < bitLimit 32 := by
  have hsame (h : some fields = some canonical) (hf : canonical? f fields = some fields) :
      canonical? f canonical = some canonical ∧ canonical.length = fields.length ∧
        ∀ b ∈ canonical, b.length < bitLimit 32 := by
    obtain rfl := Option.some.inj h
    exact ⟨hf, rfl, hshort⟩
  unfold canonical? at h
  split at h
  · rename_i hpair
    split at h
    · rename_i hagree
      exact hsame h (by simp only [canonical?, hagree, and_self, if_true])
    · cases h
  · rename_i c curve point factor
    split at h
    · rename_i haccepts
      obtain ⟨factor', hfactor, rfl⟩ := Option.map_eq_some_iff.1 h
      refine ⟨?_, rfl, ?_⟩
      · simp only [canonical?, haccepts, if_true, canonicalFactor?_canonical hfactor, Option.map_some]
      · have hsize : c.size + 1 < bitLimit 32 := by cases c <;> decide
        have hlength := length_of_canonicalFactor? hfactor
        simp only [List.forall_mem_cons] at hshort ⊢
        exact ⟨hshort.1, hshort.2.1, by omega, hshort.2.2.2⟩
    · cases h
  · split at h
    · rename_i hnumbers
      exact hsame h (by simp only [canonical?, hnumbers, if_true])
    · cases h
  · split at h
    · rename_i hnumbers
      exact hsame h (by simp only [canonical?, hnumbers, if_true])
    · cases h
  · cases h

theorem isValid_of_read (h : parser b = some (k, b')) : k.IsValid := by
  obtain ⟨_, _, -, h⟩ := bind_eq_some_iff.1 h
  obtain ⟨f, _, -, h⟩ := bind_eq_some_iff.1 h
  obtain ⟨n, _, hn, h⟩ := bind_eq_some_iff.1 h
  obtain ⟨fields, _, hfields, h⟩ := bind_eq_some_iff.1 h
  obtain ⟨canonical, _, hcanonical, h⟩ := bind_eq_some_iff.1 h
  obtain ⟨rfl, -⟩ := Prod.mk.inj (Option.some.inj h)
  obtain ⟨hn, -⟩ := ofOption_eq_some_iff.1 hn
  obtain ⟨hcanonical, -⟩ := ofOption_eq_some_iff.1 hcanonical
  obtain ⟨hlength, hshort⟩ := of_takeStrings hfields
  obtain ⟨hself, hsame, hshort⟩ := of_canonical? hcanonical hshort
  exact ⟨by rw [hn, hsame, hlength], hself, hshort⟩

theorem reads_encode (h : k.IsValid) : Reads parser k.encode k := by
  refine (Reads.text (KeyFamily.isName_name _).short).bind
    (.ofOption_bind (KeyFamily.ofName?_name _) (.ofOption_bind h.arity ?_))
  exact (Reads.strings h.short).bind_pure (by rw [h.canonical]; rfl)

end SshPrivateKey

/-! ## Sections -/

namespace PrivateSection

variable {s : PrivateSection} {b b' : Bytes} {size : Nat}

/-- All parts fit the format. -/
structure IsValid (s : PrivateSection) : Prop where
  check : s.check < bitLimit 32
  key : s.key.IsValid
  comment : (Bytes.ofText s.comment).length < bitLimit 32

theorem isValid_of_read (h : parser size b = some (s, b')) : s.IsValid := by
  obtain ⟨_, _, -, h⟩ := bind_eq_some_iff.1 h
  obtain ⟨check, _, hcheck, h⟩ := bind_eq_some_iff.1 h
  obtain ⟨_, _, -, h⟩ := bind_eq_some_iff.1 h
  obtain ⟨key, _, hkey, h⟩ := bind_eq_some_iff.1 h
  obtain ⟨comment, _, hcomment, h⟩ := bind_eq_some_iff.1 h
  obtain ⟨_, _, -, h⟩ := bind_eq_some_iff.1 h
  obtain ⟨_, _, -, h⟩ := bind_eq_some_iff.1 h
  split at h
  · obtain ⟨rfl, -⟩ := Prod.mk.inj (Option.some.inj h)
    exact ⟨lt_of_takeWord32 hcheck, SshPrivateKey.isValid_of_read hkey, of_takeText hcomment⟩
  · cases h

theorem length_padding (n : Nat) : (padding n).length = n := by
  rw [padding, List.length_map, List.length_range]

theorem isValid_of_parse? {publicKey : SshKey} (h : parse? publicKey size b = some s) :
    s.IsValid := by
  obtain ⟨s', hs', hsame⟩ := Option.bind_eq_some_iff.1 h
  split at hsame
  · obtain rfl := Option.some.inj hsame
    exact isValid_of_read (parseAll?_eq_some_iff.1 hs')
  · cases hsame

/-- What is missing of whole blocks. -/
theorem mod_add_missing (hsize : 0 < size) (n : Nat) :
    (n + (size - n % size) % size) % size = 0 := by
  by_cases hzero : n % size = 0
  · rw [hzero, Nat.sub_zero, Nat.mod_self, Nat.add_zero, hzero]
  · have hlt := Nat.mod_lt n hsize
    have hdiv := Nat.div_add_mod n size
    rw [Nat.mod_eq_of_lt (show size - n % size < size by omega)]
    refine Nat.mod_eq_zero_of_dvd ⟨n / size + 1, ?_⟩
    rw [Nat.mul_add, Nat.mul_one]
    omega

theorem length_encode_mod (hsize : 0 < size) (s : PrivateSection) :
    (s.encode size).length % size = 0 := by
  rw [encode, List.length_append, length_padding]
  exact mod_add_missing hsize _

/-- All random words are equally long. -/
theorem length_encode_withCheck (s : PrivateSection) (check size : Nat) :
    (encode { s with check } size).length = (s.encode size).length := by
  simp only [encode, List.length_append, word32, Bytes.length_ofNatWidth]

theorem length_encode_le {size' : Nat} (hsize : 0 < size') (s : PrivateSection) :
    (s.encode size').length ≤ (s.encode size).length + size' := by
  have hlt := Nat.mod_lt (size' - (word32 s.check ++ word32 s.check ++ s.key.encode ++
    text s.comment).length % size') hsize
  simp only [encode, List.length_append, length_padding] at hlt ⊢
  omega

/-- **A section is read back**, with its padding. -/
theorem parse?_encode (h : s.IsValid) (hsize : 0 < size) :
    parse? s.key.publicKey size (s.encode size) = some s := by
  obtain ⟨body, hbody⟩ : ∃ body, body =
      word32 s.check ++ word32 s.check ++ s.key.encode ++ text s.comment := ⟨_, rfl⟩
  obtain ⟨n, hn⟩ : ∃ n, n = (size - body.length % size) % size := ⟨_, rfl⟩
  have hencode : s.encode size = body ++ padding n := by rw [hn, hbody]; rfl
  have haligned : (body ++ padding n).length % size = 0 := hencode ▸ length_encode_mod hsize s
  have hshort : n < size := hn ▸ Nat.mod_lt _ hsize
  have htake : take (padding n).length (padding n) = some (padding n, []) := by
    have hall := Reads.take (b := padding n) rfl []
    rwa [List.append_nil] at hall
  have hread : parser size (body ++ padding n) = some (s, []) := by
    simp only [parser, bind_eq_some_iff]
    refine ⟨_, _, rfl, s.check, word32 s.check ++ (s.key.encode ++ (text s.comment ++ padding n)), ?_,
      s.check, _, Reads.word32 h.check _, s.key, _, SshPrivateKey.reads_encode h.key _,
      s.comment, _, Reads.text h.comment _, _, _, rfl, _, _, htake, ?_⟩
    · rw [hbody]
      simp only [List.append_assoc]
      exact Reads.word32 h.check _
    · rw [if_pos ⟨haligned, rfl, by rwa [length_padding], by rw [length_padding]⟩]
      rfl
  rw [parse?, hencode, parseAll?_eq_some_iff.2 hread]
  simp

end PrivateSection

/-! ## Containers -/

namespace PrivateKeyFile

variable {s : PrivateSection} {publicKey : SshKey} {file : PrivateKeyFile}

theorem parse?_print {cipher derivation : String} {options data : Bytes}
    {d : Option FileKeyDerivation} (hcipher : (Bytes.ofText cipher).length < bitLimit 32)
    (hderivation : Reads derivationParser (text derivation ++ string options) d)
    (hkey : publicKey.IsValid) (hlength : publicKey.encode.length < bitLimit 32)
    (hbody : Reads (if cipher = "none" then bodyParser none d publicKey
      else ofOption (FileCipher.all.find? (·.name == cipher)) >>= fun c =>
        bodyParser (some c) d publicKey) (string data) file) :
    parse? (print cipher derivation options publicKey data) = some file := by
  have hmagic : Reads (take magic.length) magic magic := .take rfl
  have hcontent : Reads parser (magic ++ (text cipher ++ ((text derivation ++ string options) ++
      (word32 1 ++ (string publicKey.encode ++ string data))))) file := by
    refine hmagic.bind ((Reads.text hcipher).bind (hderivation.bind
      ((Reads.word32 (by decide)).bind
        ((Reads.inside hlength (SshKey.reads_encode hkey).parseAll?).bind ?_))))
    simpa using hbody
  have hne : magic ++ (text cipher ++ ((text derivation ++ string options) ++
      (word32 1 ++ (string publicKey.encode ++ string data)))) ≠ [] := by
    simp [magic]
  rw [parse?, print]
  simp only [List.append_assoc] at hcontent hne ⊢
  rw [StrictArmor.decode?_encode (by decide) hne]
  exact hcontent.parseAll?

/-- The parts are no longer than the whole. -/
theorem length_le_print (cipher derivation : String) (options : Bytes) (publicKey : SshKey)
    (data : Bytes) :
    publicKey.encode.length + data.length ≤
      (print cipher derivation options publicKey data).length := by
  have hencode := StrictArmor.length_le_encode (by decide : lineWidth ≠ 0) label
    (magic ++ text cipher ++ text derivation ++ string options ++ word32 1 ++
      string publicKey.encode ++ string data)
  simp only [List.length_append, length_string] at hencode
  rw [print]
  omega

/-- A container that names a cipher holds nothing in the clear, whatever else is in it. -/
theorem parse?_print_ne_clear {cipher derivation : String} {options data : Bytes}
    (hcipher : (Bytes.ofText cipher).length < bitLimit 32) (hname : cipher ≠ "none") :
    parse? (print cipher derivation options publicKey data) ≠ some (.clear s) := by
  intro h
  obtain ⟨content, hcontent, h⟩ := Option.bind_eq_some_iff.1 h
  have hne : magic ++ text cipher ++ text derivation ++ string options ++ word32 1 ++
      string publicKey.encode ++ string data ≠ [] := by simp [magic]
  rw [print, StrictArmor.decode?_encode (by decide) hne] at hcontent
  obtain rfl := Option.some.inj hcontent
  rw [parseAll?_eq_some_iff] at h
  simp only [List.append_assoc] at h
  obtain ⟨start, rest, hstart, h⟩ := bind_eq_some_iff.1 h
  obtain ⟨-, hrest⟩ := Prod.mk.inj (Option.some.inj (hstart.symm.trans (Reads.take rfl _)))
  rw [hrest] at h
  obtain ⟨name, _, hread, h⟩ := bind_eq_some_iff.1 h
  obtain ⟨hread, -⟩ := Prod.mk.inj (Option.some.inj (hread.symm.trans (Reads.text hcipher _)))
  rw [hread] at h
  obtain ⟨_, _, -, h⟩ := bind_eq_some_iff.1 h
  obtain ⟨_, _, -, h⟩ := bind_eq_some_iff.1 h
  obtain ⟨_, _, -, h⟩ := bind_eq_some_iff.1 h
  split at h
  · obtain ⟨c, _, -, h⟩ := bind_eq_some_iff.1 h
    obtain ⟨_, _, -, h⟩ := bind_eq_some_iff.1 h
    obtain ⟨_, _, -, h⟩ := bind_eq_some_iff.1 h
    split at h
    · cases h
    · cases h
  · cases h

theorem reads_noDerivation : Reads derivationParser (text "none" ++ string []) none :=
  (Reads.text (by with_unfolding_all decide)).bind (Reads.inside (by decide) rfl)

theorem reads_bcrypt {d : FileKeyDerivation} (hsalt : d.salt.length < 1000)
    (hrounds : d.rounds < bitLimit 32) :
    Reads derivationParser (text "bcrypt" ++ string (string d.salt ++ word32 d.rounds)) (some d) := by
  have hlimit : 2000 < bitLimit 32 := by decide
  have hlength : (string d.salt ++ word32 d.rounds).length < bitLimit 32 := by
    rw [List.length_append, length_string, word32, Bytes.length_ofNatWidth]
    omega
  have hfields : Reads (do return some ⟨← takeString, ← takeWord32⟩ : Parser (Option FileKeyDerivation))
      (string d.salt ++ word32 d.rounds) (some d) :=
    (Reads.string (by omega)).bind ((Reads.word32 hrounds).bind_pure rfl)
  exact (Reads.text (by with_unfolding_all decide)).bind (Reads.inside hlength hfields.parseAll?)

/-- A container without encryption is read back. -/
theorem parse?_printClear (hs : s.IsValid) (hkey : s.key.publicKey.IsValid)
    (hlength : s.key.publicKey.encode.length < bitLimit 32)
    (hdata : (s.encode clearBlock).length < bitLimit 32) :
    parse? (printClear s) = some (.clear s) := by
  have hsection := PrivateSection.parse?_encode hs (show 0 < clearBlock by decide)
  refine parse?_print (by with_unfolding_all decide) reads_noDerivation hkey hlength ?_
  rw [if_pos rfl]
  refine (Reads.string hdata).bind_pure ?_
  simp only [Option.isSome_none, Bool.false_eq_true, if_false, hsection]
  rfl

/-- An encrypted container is read back, and asks for its password. -/
theorem parse?_printEncrypted {d : FileKeyDerivation} {data : Bytes} (hkey : publicKey.IsValid)
    (hlength : publicKey.encode.length < bitLimit 32) (hsalt : d.salt.length < 1000)
    (hrounds : d.rounds < bitLimit 32) (hdata : data.length < bitLimit 32)
    (haligned : data.length % 16 = 0) :
    parse? (print FileCipher.aesCounter.name "bcrypt" (string d.salt ++ word32 d.rounds) publicKey
      data) = some (.encrypted publicKey .aesCounter (some d) data) := by
  have hfind : FileCipher.all.find? (·.name == FileCipher.aesCounter.name) =
      some .aesCounter := by decide
  have hname : ¬ FileCipher.aesCounter.name = "none" := by decide
  refine parse?_print (by with_unfolding_all decide) (reads_bcrypt hsalt hrounds) hkey hlength ?_
  rw [if_neg hname]
  refine .ofOption_bind hfind ?_
  have htag : Reads (take FileCipher.aesCounter.tagSize) [] [] := .take rfl
  have hbody : Reads (bodyParser (some .aesCounter) (some d) publicKey) (string data ++ [])
      (.encrypted publicKey .aesCounter (some d) data) :=
    (Reads.string hdata).bind (htag.bind_pure (if_pos haligned))
  rwa [List.append_nil] at hbody

theorem length_of_derive? {d : FileKeyDerivation} {password : String} {key iv : Bytes}
    (h : d.derive? .aesCounter password = some (key, iv)) : key.length = 32 ∧ iv.length = 16 := by
  unfold FileKeyDerivation.derive? at h
  split at h
  · cases h
  · have hlength : (BcryptPbkdf.derive (Bytes.ofText password) d.salt d.rounds 48).length = 48 := by
      rw [BcryptPbkdf.derive, List.length_map, List.length_range]
    obtain ⟨rfl, rfl⟩ := Prod.mk.inj (Option.some.inj h)
    constructor
    · rw [List.length_take]
      exact Nat.min_eq_left (hlength ▸ by decide)
    · rw [List.length_drop]
      exact (congrArg (· - 32) hlength).trans rfl

/-- Any four random bytes will do. -/
theorem isValid_withCheck {random : Bytes} (hs : s.IsValid) (hrandom : random.length = 20) :
    ({ s with check := Bytes.toNat (random.drop 16) } : PrivateSection).IsValid := by
  have hlt := Bytes.toNat_lt (random.drop 16)
  rw [List.length_drop, hrandom] at hlt
  exact ⟨hlt, hs.key, hs.comment⟩

/-- What was encrypted under a password is decrypted under it; the random word is its own. -/
theorem of_encrypt? {random data : Bytes} {password : String} (hs : s.IsValid)
    (hkey : s.key.publicKey.IsValid) (hlength : s.key.publicKey.encode.length < bitLimit 32)
    (hdata : (s.encode 16).length < bitLimit 32) (hrandom : random.length = 20)
    (h : encrypt? s random password = some data) :
    ∃ d cipherText, parse? data = some (.encrypted s.key.publicKey .aesCounter d cipherText) ∧
      decrypt? s.key.publicKey .aesCounter d cipherText password =
        some { s with check := Bytes.toNat (random.drop 16) } := by
  obtain ⟨check, hcheck⟩ : ∃ check, check = Bytes.toNat (random.drop 16) := ⟨_, rfl⟩
  have hs' := isValid_withCheck hs hrandom
  rw [← hcheck] at hs'
  obtain ⟨⟨key, iv⟩, hderive, h⟩ := Option.bind_eq_some_iff.1 h
  obtain ⟨hkeyLength, hivLength⟩ := length_of_derive? hderive
  have hkeys : ∀ k ∈ Aes.roundKeys key, k.length = 16 :=
    Aes.length_of_mem_roundKeys (by decide : 0 < 8) hkeyLength
  have hblock : ∀ block : Bytes, block.length = iv.length →
      (Aes.encryptBlock (Aes.roundKeys key) block).length = iv.length := by
    intro block hblock
    rw [hivLength] at hblock ⊢
    exact Aes.length_encryptBlock hkeys hblock
  obtain ⟨cipherText, hcipherText⟩ : ∃ cipherText, cipherText =
      Cipher.counterMode (Aes.encryptBlock (Aes.roundKeys key)) iv
        (PrivateSection.encode { s with check } 16) := ⟨_, rfl⟩
  have hlengthText : cipherText.length = (s.encode 16).length := by
    rw [hcipherText, Cipher.length_counterMode (by omega) hblock,
      PrivateSection.length_encode_withCheck]
  have haligned : cipherText.length % 16 = 0 :=
    hlengthText ▸ PrivateSection.length_encode_mod (by decide) s
  have hsalt : (random.take 16).length < 1000 := by
    rw [List.length_take]
    omega
  refine ⟨some ⟨random.take 16, rounds⟩, cipherText, ?_, ?_⟩
  · have hsize : FileCipher.aesCounter.blockSize = 16 := rfl
    obtain rfl := Option.some.inj h
    rw [← hcheck, hsize, ← hcipherText]
    have hrounds : rounds < bitLimit 32 := by decide
    exact parse?_printEncrypted (d := ⟨random.take 16, rounds⟩) hkey hlength hsalt hrounds
      (hlengthText ▸ hdata) haligned
  · have hclear : FileCipher.aesCounter.decrypt? key iv cipherText =
        some (PrivateSection.encode { s with check } 16) := by
      rw [hcipherText]
      exact congrArg some (Cipher.counterMode_counterMode (by omega) hblock _)
    have hsection := PrivateSection.parse?_encode hs' (show 0 < 16 by decide)
    rw [← hcheck, decrypt?]
    simp only [Option.bind_eq_bind, Option.bind_some, hderive, hclear]
    exact hsection

end PrivateKeyFile

/-! ## Handles -/

section

variable {b data : Bytes} {k k' : PrivateKey} {s : PrivateSection} {passphrase : Option String}

/-- A handle that was loaded stands for a section that was read. -/
theorem exists_of_loadPrivateKey (h : loadPrivateKey b passphrase = .ok k) :
    ∃ s : PrivateSection, s.IsValid ∧ s.key.publicKey.IsValid ∧ handleOf s = .ok k := by
  unfold loadPrivateKey at h
  split at h
  · cases h
  · rename_i s hfile
    obtain ⟨hkey, hclear⟩ := of_parse? hfile
    obtain ⟨data, hdata⟩ := hclear s rfl
    exact ⟨s, PrivateSection.isValid_of_parse? hdata, hkey, h⟩
  · cases h
  · rename_i publicKey c d data p hfile
    split at h
    · rename_i s hs
      obtain ⟨_, -, hs⟩ := Option.bind_eq_some_iff.1 hs
      obtain ⟨_, -, hs⟩ := Option.bind_eq_some_iff.1 hs
      obtain ⟨_, -, hs⟩ := Option.bind_eq_some_iff.1 hs
      have hkey := (of_parse? hfile).1
      rw [PrivateKeyFile.publicKey, ← publicKey_of_parseSection hs] at hkey
      exact ⟨s, PrivateSection.isValid_of_parse? hs, hkey, h⟩
    · cases h

theorem handleOf_eq_ok_iff :
    handleOf s = .ok k ↔ ∃ a, s.key.publicKey.algorithm = .ok a ∧
      k = ⟨.ssh, a, PrivateKeyFile.printClear s⟩ := by
  rw [handleOf, Outcome.bind_eq_ok_iff]
  exact exists_congr fun a => and_congr_right fun _ =>
    ⟨fun h => (Except.ok.inj h).symm, fun h => h ▸ rfl⟩

theorem kind_of_loadPrivateKey (h : loadPrivateKey b passphrase = .ok k) : k.kind = .ssh := by
  obtain ⟨s, -, -, hhandle⟩ := exists_of_loadPrivateKey h
  obtain ⟨a, -, rfl⟩ := handleOf_eq_ok_iff.1 hhandle
  rfl

/-- A key in the clear is read with whatever passphrase. -/
theorem loadPrivateKey_of_clear (h : loadPrivateKey b none = .ok k) (p : String) :
    loadPrivateKey b (some p) = .ok k := by
  unfold loadPrivateKey at h ⊢
  cases hfile : PrivateKeyFile.parse? b with
  | none =>
    rw [hfile] at h
    cases h
  | some file =>
    rw [hfile] at h
    cases file with
    | clear s => exact h
    | encrypted publicKey c d data => cases h

/-- A key that is read with a passphrase is in the clear, or asks for one. -/
theorem isClear_or_encrypted {p : String} (h : loadPrivateKey b (some p) = .ok k) :
    loadPrivateKey b none = .ok k ∨ loadPrivateKey b none = Outcome.fail .encrypted := by
  unfold loadPrivateKey at h ⊢
  cases hfile : PrivateKeyFile.parse? b with
  | none =>
    rw [hfile] at h
    cases h
  | some file =>
    rw [hfile] at h
    cases file with
    | clear s => exact .inl h
    | encrypted publicKey c d data => exact .inr rfl

/-- A section fits the format if its handle does. -/
theorem length_of_handleOf (h : handleOf s = .ok k) (hl : k.encoded.length < bitLimit 31) :
    s.key.publicKey.encode.length < bitLimit 32 ∧
      (s.encode PrivateKeyFile.clearBlock).length < bitLimit 32 ∧
      (s.encode 16).length < bitLimit 32 := by
  obtain ⟨a, -, rfl⟩ := handleOf_eq_ok_iff.1 h
  have hlimit : bitLimit 31 + 1000 < bitLimit 32 := by decide
  have hparts := PrivateKeyFile.length_le_print "none" "none" [] s.key.publicKey
    (s.encode PrivateKeyFile.clearBlock)
  have hwider : (s.encode 16).length ≤ (s.encode PrivateKeyFile.clearBlock).length + 16 :=
    PrivateSection.length_encode_le (by decide) s
  replace hl : (PrivateKeyFile.print "none" "none" [] s.key.publicKey
    (s.encode PrivateKeyFile.clearBlock)).length < bitLimit 31 := hl
  exact ⟨by omega, by omega, by omega⟩

/-- The handle of a section stands for it, if the section fits the format. -/
theorem sectionOf_of_handleOf (hs : s.IsValid) (hkey : s.key.publicKey.IsValid)
    (h : handleOf s = .ok k) (hlength : s.key.publicKey.encode.length < bitLimit 32)
    (hdata : (s.encode PrivateKeyFile.clearBlock).length < bitLimit 32) : sectionOf k = .ok s := by
  obtain ⟨a, -, rfl⟩ := handleOf_eq_ok_iff.1 h
  rw [sectionOf, PrivateKeyFile.parse?_printClear hs hkey hlength hdata]

/-- **A key that was written is read back**, with the passphrase it was written under if there was
one. Only the random word of its container may be another. -/
theorem exists_loadPrivateKey_encodePrivateKey {q : Option String}
    (hk : loadPrivateKey b q = .ok k) (hl : k.encoded.length < bitLimit 31) {m : Moment}
    (h : encodePrivateKey m k passphrase = .ok data) :
    ∃ k' s check, loadPrivateKey data passphrase = .ok k' ∧ k'.algorithm = k.algorithm ∧
      sectionOf k = .ok s ∧ sectionOf k' = .ok { s with check } := by
  obtain ⟨s, hs, hkey, hhandle⟩ := exists_of_loadPrivateKey hk
  obtain ⟨hlength, hdata, hwide⟩ := length_of_handleOf hhandle hl
  have hsection := sectionOf_of_handleOf hs hkey hhandle hlength hdata
  obtain ⟨a, ha, rfl⟩ := handleOf_eq_ok_iff.1 hhandle
  cases passphrase with
  | none =>
    obtain rfl := Except.ok.inj h
    refine ⟨_, s, s.check, ?_, rfl, hsection, hsection⟩
    unfold loadPrivateKey
    rw [PrivateKeyFile.parse?_printClear hs hkey hlength hdata]
    exact hhandle
  | some p =>
    obtain ⟨s', hs', h⟩ := Outcome.bind_eq_ok_iff.1 h
    obtain rfl := Except.ok.inj (hsection.symm.trans hs')
    have hrandom := m.length_random 20
    obtain ⟨d, cipherText, hfile, hopen⟩ := PrivateKeyFile.of_encrypt? hs hkey hlength hwide
      hrandom (Outcome.ofOption_eq_ok_iff.1 h)
    obtain ⟨check, hcheck⟩ : ∃ check, check = Bytes.toNat ((m.random 20).drop 16) := ⟨_, rfl⟩
    have hvalid := PrivateKeyFile.isValid_withCheck hs hrandom
    rw [← hcheck] at hopen hvalid
    obtain ⟨t, ht⟩ : ∃ t, t = { s with check } := ⟨_, rfl⟩
    have hsame : t.key.publicKey = s.key.publicKey := by rw [ht]
    have hdata' : (t.encode PrivateKeyFile.clearBlock).length < bitLimit 32 := by
      rw [ht, PrivateSection.length_encode_withCheck]
      exact hdata
    rw [← ht] at hopen hvalid
    rw [← hsame] at ha hkey hlength
    have hhandle' : handleOf t = .ok ⟨.ssh, a, PrivateKeyFile.printClear t⟩ :=
      handleOf_eq_ok_iff.2 ⟨a, ha, rfl⟩
    have hsection' := sectionOf_of_handleOf hvalid hkey hhandle' hlength hdata'
    refine ⟨⟨.ssh, a, PrivateKeyFile.printClear t⟩, s, check, ?_, rfl, hsection, ht ▸ hsection'⟩
    unfold loadPrivateKey
    rw [hfile]
    simp only [hopen]
    exact hhandle'

/-- What was written under a passphrase is not read without one. -/
theorem loadPrivateKey_none_ne_ok {p : String} {m : Moment}
    (h : encodePrivateKey m k (some p) = .ok data) : loadPrivateKey data none ≠ .ok k' := by
  obtain ⟨s, -, h⟩ := Outcome.bind_eq_ok_iff.1 h
  obtain ⟨_, -, h⟩ := Option.bind_eq_some_iff.1 (Outcome.ofOption_eq_ok_iff.1 h)
  obtain rfl := Option.some.inj h
  intro hload
  unfold loadPrivateKey at hload
  split at hload
  · cases hload
  · rename_i hfile
    exact PrivateKeyFile.parse?_print_ne_clear (by with_unfolding_all decide) (by decide) hfile
  · cases hload
  · rename_i hnone
    cases hnone

end

end CertAuthority.OpenSsh
