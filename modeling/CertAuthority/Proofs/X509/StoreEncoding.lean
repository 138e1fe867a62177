import CertAuthority.Proofs.X509.Bundles
import CertAuthority.Proofs.X509.PasswordEncryption
import CertAuthority.X509.KeyStore

/-!
# Stores opened again

A store that was written under a passphrase opens under it, and shows the bags that were put into it:
one for each certificate of each entry, one for each key.

* `Bag.bytes`, `Bag.parser_bytes` : a bag is read back from what is written of it;
* `KeyStore.bagsOf` : the bags of a store, certificates before keys;
* `KeyStore.open?_encode` : so the entries are found from these bags.
-/

namespace CertAuthority.X509

open Der

/-! ## Identifiers -/

def oidSha256 : List Nat := [2, 16, 840, 1, 101, 3, 4, 2, 1]

def storeIdentifiers : List (List Nat) :=
  [oidData, oidEncryptedData, oidCertificateBag, oidShroudedKeyBag, oidStoredCertificate,
    oidFriendlyName, oidLocalKeyId, oidSha256]

/-- The identifiers in a store are read back, and are short. -/
theorem of_mem_storeIdentifiers : ∀ arcs ∈ storeIdentifiers,
    arcsOfContent? (oidContent arcs) = some arcs ∧ (oid arcs).length ≤ 13 := by
  decide +kernel

theorem arcs_store {arcs : List Nat} (h : arcs ∈ storeIdentifiers) :
    arcsOfContent? (oidContent arcs) = some arcs := (of_mem_storeIdentifiers arcs h).1

theorem length_oid_store {arcs : List Nat} (h : arcs ∈ storeIdentifiers) :
    (oid arcs).length ≤ 13 := (of_mem_storeIdentifiers arcs h).2

/-! ## Names -/

/-- Two bytes for a character of the first plane. -/
theorem exists_units {c : Char} (hc : c.toNat < 0xffff) :
    ∃ a b : UInt8, Bytes.ofNatWidth 2 c.toNat = [a, b] ∧ Char.ofNat (a.toNat * 256 + b.toNat) = c ∧
      (0xd8 ≤ a && a < 0xe0) = false := by
  refine ⟨UInt8.ofNat (c.toNat / 256 % 256), UInt8.ofNat (c.toNat % 256), rfl, ?_, ?_⟩
  · have hvalue : (UInt8.ofNat (c.toNat / 256 % 256)).toNat * 256 +
        (UInt8.ofNat (c.toNat % 256)).toNat = c.toNat := by
      simp only [UInt8.toNat_ofNat']
      omega
    rw [hvalue, Char.ofNat_toNat]
  · -- the values between are no characters
    have hvalid : c.toNat < 0xd800 ∨ 0xdfff < c.toNat := by
      rcases c.valid with h | h
      · exact .inl h
      · exact .inr h.1
    simp only [Bool.and_eq_false_iff, decide_eq_false_iff_not, UInt8.le_iff_toNat_le,
      UInt8.lt_iff_toNat_lt, UInt8.toNat_ofNat']
    have htop : (0xd8 : UInt8).toNat = 216 ∧ (0xe0 : UInt8).toNat = 224 := ⟨rfl, rfl⟩
    omega

theorem textOfUnits_utf16 {s : String} (h : isFirstPlane s = true) :
    String.ofList (textOfUnits (Pkcs12Derivation.utf16 s)) = s ∧
      IssuedName.isBmp (Pkcs12Derivation.utf16 s) = true := by
  have hchars : ∀ c ∈ s.toList, c.toNat < 0xffff := by
    simpa [isFirstPlane] using h
  have hunits : Pkcs12Derivation.utf16 s =
      s.toList.flatMap fun c => Bytes.ofNatWidth 2 c.toNat := by
    rw [Pkcs12Derivation.utf16, List.flatMap_def, List.flatMap_def]
    refine congrArg List.flatten (List.map_congr_left fun c hc => ?_)
    exact if_pos (Nat.lt_trans (hchars c hc) (by decide))
  have hread : ∀ cs : List Char, (∀ c ∈ cs, c.toNat < 0xffff) →
      textOfUnits (cs.flatMap fun c => Bytes.ofNatWidth 2 c.toNat) = cs ∧
        IssuedName.isBmp (cs.flatMap fun c => Bytes.ofNatWidth 2 c.toNat) = true := by
    intro cs hcs
    induction cs with
    | nil => exact ⟨rfl, rfl⟩
    | cons c cs ih =>
      obtain ⟨hc, hcs⟩ := List.forall_mem_cons.1 hcs
      obtain ⟨a, b, hpair, hchar, hplane⟩ := exists_units hc
      obtain ⟨htext, hbmp⟩ := ih hcs
      rw [List.flatMap_cons, hpair]
      refine ⟨congrArg₂ List.cons hchar htext, ?_⟩
      rw [List.cons_append, List.cons_append, List.nil_append, IssuedName.isBmp, hplane, hbmp]
      rfl
  obtain ⟨htext, hbmp⟩ := hread s.toList hchars
  rw [hunits, htext, String.ofList_toList]
  exact ⟨rfl, hbmp⟩

/-! ## Bags -/

/-- Entries in any order are looked up the same, if each key is there once. -/
theorem lookup_eq_some_of_mem {α β : Type} [BEq α] [LawfulBEq α] {l : List (α × β)}
    (hnodup : (l.map Prod.fst).Nodup) {k : α} {v : β} (h : (k, v) ∈ l) : l.lookup k = some v := by
  induction l with
  | nil => cases h
  | cons x l ih =>
    rw [List.map_cons, List.nodup_cons] at hnodup
    rcases List.mem_cons.1 h with rfl | hmem
    · rw [List.lookup_cons, beq_self_eq_true]
    · have hne : (k == x.1) = false := by
        refine beq_false_of_ne fun heq => hnodup.1 ?_
        exact heq ▸ List.mem_map_of_mem (f := Prod.fst) hmem
      rw [List.lookup_cons, hne]
      exact ih hnodup.2 hmem

namespace Bag

/-- Attributes of a bag with their values. -/
def attributesOf (label : String) (keyId : Option Bytes) : List (List Nat × Bytes) :=
  (oidFriendlyName, element tagBmp (Pkcs12Derivation.utf16 label)) ::
    (keyId.map fun id => (oidLocalKeyId, octets id)).toList

def attributeOf (a : List Nat × Bytes) : Bytes := seqOf [oid a.1, element tagSet a.2]

theorem attributeBytes_eq (label : String) (keyId : Option Bytes) :
    attributeBytes label keyId = setOf ((attributesOf label keyId).map attributeOf) := by
  cases keyId <;> rfl

variable {label : String} {keyId : Option Bytes} {r : Rules}

theorem arcs_of_mem_attributesOf {a : List Nat × Bytes} (ha : a ∈ attributesOf label keyId) :
    arcsOfContent? (oidContent a.1) = some a.1 := by
  unfold attributesOf at ha
  rcases List.mem_cons.1 ha with rfl | ha
  · exact arcs_store (by simp [storeIdentifiers])
  · obtain ⟨id, -, rfl⟩ := Option.map_eq_some_iff.1 (Option.mem_toList.1 ha)
    exact arcs_store (by simp [storeIdentifiers])

theorem nodup_attributesOf : ((attributesOf label keyId).map Prod.fst).Nodup := by
  have hne : [oidFriendlyName, oidLocalKeyId].Nodup := by decide
  cases keyId with
  | none => exact List.pairwise_singleton _ _
  | some id => exact hne

theorem fits_attributeOf {a : List Nat × Bytes} (hl : Fits (attributeBytes label keyId))
    (ha : a ∈ attributesOf label keyId) : Fits (attributeOf a) := by
  rw [attributeBytes_eq] at hl
  exact hl.content.of_mem (List.mem_mergeSort.2 (List.mem_map_of_mem ha))

theorem fits_value {oid : List Nat} {tag : UInt8} {value : Bytes}
    (hl : Fits (attributeBytes label keyId))
    (ha : (oid, element tag value) ∈ attributesOf label keyId) : Fits value := by
  have hset : Fits (element tagSet (element tag value)) :=
    (fits_attributeOf hl ha).part (by simp)
  exact hset.content.content

/-- The attributes of a bag are found, in some order. -/
theorem exists_attributes (hl : Fits (attributeBytes label keyId)) (rest : Bytes) :
    ∃ found, attributes r (attributeBytes label keyId ++ rest) = some (found, rest) ∧
      found.Perm (attributesOf label keyId) := by
  let found := (attributesOf label keyId).mergeSort fun a b =>
    Bytes.le (attributeOf a) (attributeOf b)
  have hperm : found.Perm (attributesOf label keyId) := List.mergeSort_perm _ _
  have hsorted : ((attributesOf label keyId).map attributeOf).mergeSort Bytes.le =
      found.map attributeOf :=
    (List.map_mergeSort (f := attributeOf) fun _ _ _ _ => rfl).symm
  refine ⟨found, ?_, hperm⟩
  have hread : ∀ a ∈ found, ∀ rest,
      attributeParser r (attributeOf a ++ rest) = some (id a, rest) := by
    intro a ha rest
    have hattribute := fits_attributeOf hl (hperm.mem_iff.1 ha)
    have hoid : Fits (oid a.1) := hattribute.part List.mem_cons_self
    have hset : Fits (element tagSet a.2) := hattribute.part (by simp)
    refine inWholeSequence_seqOf hattribute ?_ _
    rw [bind_eq_some_iff]
    refine ⟨a.1, _, oidValue_oid (arcs_of_mem_attributesOf (hperm.mem_iff.1 ha)) hoid.content, ?_⟩
    rw [bind_eq_some_iff]
    exact ⟨a.2, [], tagged_element (by decide) hset.content, rfl⟩
  have hmany := manyToEnd_map (by cases r <;> rfl) hread
  rw [List.map_id, ← hsorted] at hmany
  rw [attributeBytes_eq] at hl ⊢
  rw [attributes, bind_eq_some_iff]
  exact ⟨some _, rest, taggedIf_element (by decide) hl, filling_eq_some hmany⟩

theorem value?_friendlyName {found : List (List Nat × Bytes)}
    (hfound : found.Perm (attributesOf label keyId)) (hlabel : isFirstPlane label = true)
    (hl : Fits (Pkcs12Derivation.utf16 label)) :
    value? found oidFriendlyName friendlyNameParser = some label := by
  have hlookup : found.lookup oidFriendlyName =
      some (element tagBmp (Pkcs12Derivation.utf16 label)) := by
    refine lookup_eq_some_of_mem ((hfound.map _).nodup_iff.2 nodup_attributesOf) ?_
    exact hfound.mem_iff.2 List.mem_cons_self
  obtain ⟨htext, hbmp⟩ := textOfUnits_utf16 hlabel
  have hread : friendlyNameParser .distinguished (element tagBmp (Pkcs12Derivation.utf16 label)) =
      some (label, []) := by
    rw [friendlyNameParser, bind_eq_some_iff]
    refine ⟨_, [], read_alone fun _ => tagged_element (by decide) hl, ?_⟩
    rw [if_pos hbmp, htext]
    rfl
  rw [value?, hlookup, Option.bind_eq_bind, Option.bind_some, Parser.parse?, Parser.runOn, hread]
  rfl

theorem value?_localKeyId {found : List (List Nat × Bytes)}
    (hfound : found.Perm (attributesOf label keyId)) (hl : ∀ id ∈ keyId, Fits id) :
    value? found oidLocalKeyId (tagged tagOctetString) = keyId := by
  cases keyId with
  | none =>
    have hlookup : found.lookup oidLocalKeyId = none := by
      obtain rfl := List.perm_singleton.1 hfound
      rfl
    rw [value?, hlookup]
    rfl
  | some id =>
    have hlookup : found.lookup oidLocalKeyId = some (octets id) := by
      refine lookup_eq_some_of_mem ((hfound.map _).nodup_iff.2 nodup_attributesOf) ?_
      exact hfound.mem_iff.2 (List.mem_cons_of_mem _ List.mem_cons_self)
    have hread : tagged tagOctetString .distinguished (octets id) = some (id, []) :=
      read_alone fun _ => tagged_element (by decide) (hl id rfl)
    rw [value?, hlookup, Option.bind_eq_bind, Option.bind_some, Parser.parse?, Parser.runOn, hread]
    rfl

/-- What is written of a bag; keys are encrypted under the password. -/
def bytes (scheme : PasswordScheme) (password : Bytes) (b : Bag) : Bytes :=
  let label := b.friendlyName.getD ""
  match b.content with
  | .certificate der => KeyStore.certificateBag der label b.keyId
  | .key container =>
    Bag.encode oidShroudedKeyBag
      (seqOf [scheme.encode, octets (scheme.encrypt password container)]) label b.keyId

variable {passphrase : String} {random : Bytes} {der container : Bytes}

theorem storedCertificate_seqOf
    (hl : Fits (seqOf [oid oidStoredCertificate, explicit 0 (octets der)])) (rest : Bytes) :
    storedCertificate r (seqOf [oid oidStoredCertificate, explicit 0 (octets der)] ++ rest) =
      some (.certificate der, rest) := by
  have hoid : Fits (oid oidStoredCertificate) := hl.part List.mem_cons_self
  have hexplicit : Fits (explicit 0 (octets der)) := hl.part (by simp)
  have hoctets : Fits (octets der) := hexplicit.content
  have hread : tagged tagOctetString r (octets der) = some (der, []) :=
    read_alone fun _ => tagged_element (by decide) hoctets.content
  have harcs : arcsOfContent? (oidContent oidStoredCertificate) = some oidStoredCertificate :=
    arcs_store (by simp [storeIdentifiers])
  refine inWholeSequence_seqOf hl ?_ _
  rw [bind_eq_some_iff]
  refine ⟨oidStoredCertificate, _, oidValue_oid harcs hoid.content, ?_⟩
  rw [if_pos rfl, bind_eq_some_iff]
  refine ⟨_, [], tagged_element (by decide) hexplicit.content, ?_⟩
  rw [bind_eq_some_iff]
  exact ⟨der, [], filling_eq_some hread, rfl⟩

/-- A new scheme is none of the outdated ones. -/
theorem decrypt?_of_ofIdentifier? {a : AlgorithmIdentifier} {data : Bytes}
    (ha : PasswordScheme.ofIdentifier? a = some (.fresh random)) :
    decrypt? a passphrase data =
      (PasswordScheme.fresh random).decrypt? (Bytes.ofText passphrase) data := by
  have hoid : a.oid ≠ oidTripleDes := by
    intro heq
    rw [PasswordScheme.ofIdentifier?, heq, if_neg (by decide), if_neg (by decide)] at ha
    cases ha
  rw [decrypt?, if_neg hoid, ha, Option.bind_eq_bind, Option.bind_some]

theorem shroudedKey_seqOf {a : AlgorithmIdentifier} {scheme data : Bytes}
    (hread : AlgorithmIdentifier.parser r (scheme ++ (octets data ++ [])) =
      some (a, octets data ++ []))
    (hdecrypt : decrypt? a passphrase data = some container)
    (hl : Fits (seqOf [scheme, octets data])) (rest : Bytes) :
    shroudedKey passphrase r (seqOf [scheme, octets data] ++ rest) =
      some (.key container, rest) := by
  have hoctets : Fits (octets data) := hl.part (by simp)
  refine inWholeSequence_seqOf hl ?_ _
  rw [bind_eq_some_iff]
  refine ⟨a, _, hread, ?_⟩
  rw [bind_eq_some_iff]
  refine ⟨data, [], tagged_element (by decide) hoctets.content, ?_⟩
  rw [bind_eq_some_iff]
  refine ⟨container, [], ?_, rfl⟩
  rw [hdecrypt]
  rfl

/-- A bag is read back, once its content is. -/
theorem parser_encode {type : List Nat} {value : Bytes} {content : BagContent}
    {p : Parser BagContent} (hlabel : isFirstPlane label = true)
    (hl : Fits (Bag.encode type value label keyId))
    (htype : type = oidShroudedKeyBag ∧ p = shroudedKey passphrase ∨
      type = oidCertificateBag ∧ p = storedCertificate)
    (hvalue : p .distinguished value = some (content, [])) (rest : Bytes) :
    parser passphrase .distinguished (Bag.encode type value label keyId ++ rest) =
      some (some ⟨content, some label, keyId⟩, rest) := by
  have harcs : arcsOfContent? (oidContent type) = some type := by
    rcases htype with ⟨rfl, -⟩ | ⟨rfl, -⟩ <;> exact arcs_store (by simp [storeIdentifiers])
  have hoid : Fits (oid type) := hl.part List.mem_cons_self
  have hexplicit : Fits (explicit 0 value) := hl.part (by simp)
  have hattributes : Fits (attributeBytes label keyId) := hl.part (by simp)
  obtain ⟨found, hfound, hperm⟩ := @exists_attributes label keyId .distinguished hattributes []
  have hname : value? found oidFriendlyName friendlyNameParser = some label :=
    value?_friendlyName hperm hlabel (fits_value hattributes List.mem_cons_self)
  have hkey : value? found oidLocalKeyId (tagged tagOctetString) = keyId :=
    value?_localKeyId hperm fun id hid => fits_value hattributes
      (List.mem_cons_of_mem _ (Option.mem_toList.2 (Option.map_eq_some_iff.2 ⟨id, hid, rfl⟩)))
  refine inWholeSequence_seqOf hl ?_ _
  rw [bind_eq_some_iff]
  refine ⟨type, _, oidValue_oid harcs hoid.content, ?_⟩
  rw [bind_eq_some_iff]
  refine ⟨value, _, tagged_element (by decide) hexplicit.content, ?_⟩
  rw [bind_eq_some_iff]
  refine ⟨found, [], hfound, ?_⟩
  rcases htype with ⟨rfl, rfl⟩ | ⟨rfl, rfl⟩
  · rw [if_pos rfl, bind_eq_some_iff]
    refine ⟨some content, [], map_eq_some_iff.2 ⟨content, filling_eq_some hvalue, rfl⟩, ?_⟩
    rw [hname, hkey]
    rfl
  · rw [if_neg (by decide), if_pos rfl, bind_eq_some_iff]
    refine ⟨some content, [], map_eq_some_iff.2 ⟨content, filling_eq_some hvalue, rfl⟩, ?_⟩
    rw [hname, hkey]
    rfl

/-- A bag is read back from what is written of it. -/
theorem parser_bytes {b : Bag} (hrandom : random.length = 32) (hname : b.friendlyName = some label)
    (hlabel : isFirstPlane label = true)
    (hl : Fits (b.bytes (.fresh random) (Bytes.ofText passphrase))) (rest : Bytes) :
    parser passphrase .distinguished (b.bytes (.fresh random) (Bytes.ofText passphrase) ++ rest) =
      some (some b, rest) := by
  obtain ⟨content, name, keyId⟩ := b
  obtain rfl : name = some label := hname
  cases content with
  | certificate der =>
    let value := seqOf [oid oidStoredCertificate, explicit 0 (octets der)]
    have hvalue : Fits (explicit 0 value) := hl.part (by simp [value])
    exact parser_encode hlabel hl (.inr ⟨rfl, rfl⟩)
      (read_alone (storedCertificate_seqOf hvalue.content)) rest
  | key container =>
    let data := (PasswordScheme.fresh random).encrypt (Bytes.ofText passphrase) container
    let value := seqOf [(PasswordScheme.fresh random).encode, octets data]
    have hvalue : Fits (explicit 0 value) := hl.part (by simp [value, data])
    obtain ⟨a, hread, hscheme, -⟩ :=
      PasswordScheme.exists_parser_encode hrandom .distinguished (octets data ++ [])
    have hdecrypt : decrypt? a passphrase data = some container := by
      rw [decrypt?_of_ofIdentifier? hscheme]
      exact PasswordScheme.decrypt?_encrypt hrandom _ _
    have hkey := read_alone (shroudedKey_seqOf hread hdecrypt hvalue.content)
    exact parser_encode hlabel hl (.inl ⟨rfl, rfl⟩) hkey rest

end Bag

/-! ## The guard -/

namespace StoreGuard

variable {passphrase : String} {salt content : Bytes} {r : Rules}

/-- A new guard is read back, and accepts the passphrase that it was made with. -/
theorem exists_parser_encode (hpassphrase : isFirstPlane passphrase = true)
    (hl : Fits (StoreGuard.encode passphrase salt content)) (rest : Bytes) :
    ∃ g, parser r (StoreGuard.encode passphrase salt content ++ rest) = some (g, rest) ∧
      g.accepts passphrase content = true := by
  let n := PasswordScheme.iterations
  generalize hdigest : digestOf .sha256 passphrase salt n content = digest
  have hencode : StoreGuard.encode passphrase salt content =
      seqOf [seqOf [seqOf [oid oidSha256, null], octets digest], octets salt, nat n] := by
    rw [← hdigest]
    rfl
  rw [hencode] at hl ⊢
  refine ⟨⟨.sha256, digest, salt, n⟩, ?_, ?_⟩
  · have hinner : Fits (seqOf [seqOf [oid oidSha256, null], octets digest]) :=
      hl.part List.mem_cons_self
    have hdigest : Fits (octets digest) := hinner.part (by simp)
    have hsalt : Fits (octets salt) := hl.part (by simp)
    have hnat : Fits (nat n) := hl.part (by simp)
    have hmem : oidSha256 ∈ storeIdentifiers := by simp [storeIdentifiers]
    have hshort : (oidContent oidSha256).length < 100 :=
      Nat.lt_of_le_of_lt (Nat.le_trans length_le_element (length_oid_store hmem)) (by decide)
    have hidentifier : AlgorithmIdentifier.parser r
        (seqOf [oid oidSha256, null] ++ (octets digest ++ [])) =
          some (⟨oidSha256, some ⟨tagNull, [], null⟩⟩, octets digest ++ []) :=
      PasswordScheme.parser_oid (arcs_store hmem) hshort (by decide) (by decide) _
    refine inWholeSequence_seqOf hl ?_ _
    rw [bind_eq_some_iff]
    refine ⟨(⟨oidSha256, some ⟨tagNull, [], null⟩⟩, digest), _, inWholeSequence_seqOf hinner ?_ _, ?_⟩
    · rw [bind_eq_some_iff]
      refine ⟨_, _, hidentifier, ?_⟩
      rw [bind_eq_some_iff]
      exact ⟨digest, [], tagged_element (by decide) hdigest.content, rfl⟩
    · rw [bind_eq_some_iff]
      refine ⟨.sha256, _, rfl, ?_⟩
      rw [bind_eq_some_iff]
      refine ⟨salt, _, tagged_element (by decide) hsalt.content, ?_⟩
      rw [bind_eq_some_iff]
      refine ⟨false, _, rfl, ?_⟩
      rw [if_neg Bool.false_ne_true, bind_eq_some_iff]
      exact ⟨n, [], natBelow_nat (by decide) hnat.content _ _, rfl⟩
  · rw [accepts, hpassphrase]
    simp only [hdigest, beq_self_eq_true, Bool.and_self]

end StoreGuard

/-! ## Stores -/

namespace KeyStore

/-- The bags of an entry's certificates. -/
def certificateBags : String × StoreEntry → List Bag
  | (label, .certificate der) => [⟨.certificate der, some label, none⟩]
  | (label, .key _ id chain) => chain.map fun der => ⟨.certificate der, some label, some id⟩

/-- The bag of an entry's key. -/
def keyBags : String × StoreEntry → List Bag
  | (_, .certificate _) => []
  | (label, .key container id _) => [⟨.key container, some label, some id⟩]

/-- The bags of a store as they are written. -/
def bagsOf (s : KeyStore) : List Bag :=
  s.entries.flatMap certificateBags ++ s.entries.flatMap keyBags

variable {passphrase : String} {random other : Bytes} {bags : List Bag}

theorem entryBags_eq (scheme other : PasswordScheme) (password : Bytes) (e : String × StoreEntry) :
    entryBags scheme password e =
      ((certificateBags e).map (Bag.bytes other password),
        (keyBags e).map (Bag.bytes scheme password)) := by
  obtain ⟨label, _ | _⟩ := e
  · simp only [entryBags, certificateBags, keyBags, List.map_map, List.map_cons, List.map_nil]
    rfl
  · rfl

/-- Bags that can be written and read back. -/
def AreNamed (bags : List Bag) : Prop :=
  ∀ b ∈ bags, ∃ label, b.friendlyName = some label ∧ isFirstPlane label = true

theorem bags_seqOf (hrandom : random.length = 32) (hbags : AreNamed bags)
    (hl : Fits (seqOf (bags.map (Bag.bytes (.fresh random) (Bytes.ofText passphrase))))) :
    inWholeSequence (manyToEnd (Bag.parser passphrase)) .distinguished
      (seqOf (bags.map (Bag.bytes (.fresh random) (Bytes.ofText passphrase)))) =
        some (bags.map some, []) := by
  have hread : ∀ b ∈ bags, ∀ rest, Bag.parser passphrase .distinguished
      (b.bytes (.fresh random) (Bytes.ofText passphrase) ++ rest) = some (some b, rest) := by
    intro b hb rest
    obtain ⟨label, hname, hlabel⟩ := hbags b hb
    exact Bag.parser_bytes hrandom hname hlabel (hl.part (List.mem_map_of_mem hb)) rest
  exact read_alone (inWholeSequence_seqOf hl (manyToEnd_map rfl hread))

theorem safe_data (hrandom : random.length = 32) (hbags : AreNamed bags)
    (hl : Fits (contentInfo oidData
      (octets (seqOf (bags.map (Bag.bytes (.fresh random) (Bytes.ofText passphrase)))))))
    (rest : Bytes) :
    safe passphrase .distinguished (contentInfo oidData
      (octets (seqOf (bags.map (Bag.bytes (.fresh random) (Bytes.ofText passphrase))))) ++ rest) =
        some (bags.map some, rest) := by
  have hoctets : Fits (octets (seqOf (bags.map
    (Bag.bytes (.fresh random) (Bytes.ofText passphrase))))) := Fits.contentInfo hl
  have hread := bags_seqOf hrandom hbags hoctets.content
  rw [safe, bind_eq_some_iff]
  refine ⟨_, rest, ?_, filling_eq_some hread⟩
  rw [safeContent, bind_eq_some_iff]
  have harcs : arcsOfContent? (oidContent oidData) = some oidData :=
    arcs_store (by simp [storeIdentifiers])
  refine ⟨_, rest, contentInfoParser_contentInfo harcs hl rest, ?_⟩
  dsimp only
  rw [if_pos rfl]
  exact filling_eq_some (read_alone fun _ => tagged_element (by decide) hoctets.content)

/-- The encrypted container of a store. -/
def encryptedContent (random password data : Bytes) : Bytes :=
  seqOf [nat 0, seqOf [oid oidData, (PasswordScheme.fresh random).encode,
    implicit 0 ((PasswordScheme.fresh random).encrypt password data)]]

theorem fits_hidden {password data : Bytes} (hl : Fits (encryptedContent random password data)) :
    Fits ((PasswordScheme.fresh random).encrypt password data) := by
  let hidden := (PasswordScheme.fresh random).encrypt password data
  have hparts : Fits (seqOf [oid oidData, (PasswordScheme.fresh random).encode,
    implicit 0 hidden]) := hl.part (by simp [hidden])
  have himplicit : Fits (implicit 0 hidden) := hparts.part (by simp)
  exact himplicit.content

theorem safeContent_encrypted (hrandom : random.length = 32) {data : Bytes}
    (hl : Fits (contentInfo oidEncryptedData
      (encryptedContent random (Bytes.ofText passphrase) data))) (rest : Bytes) :
    safeContent passphrase .distinguished (contentInfo oidEncryptedData
      (encryptedContent random (Bytes.ofText passphrase) data) ++ rest) = some (data, rest) := by
  let hidden := (PasswordScheme.fresh random).encrypt (Bytes.ofText passphrase) data
  let parts := [oid oidData, (PasswordScheme.fresh random).encode, implicit 0 hidden]
  have hcontent : Fits (seqOf [nat 0, seqOf parts]) := Fits.contentInfo hl
  have hnat : Fits (nat 0) := hcontent.part List.mem_cons_self
  have hparts : Fits (seqOf parts) := hcontent.part (by simp)
  have hoid : Fits (oid oidData) := hparts.part List.mem_cons_self
  have hhidden : Fits hidden := fits_hidden hcontent
  obtain ⟨a, hread, hscheme, -⟩ :=
    PasswordScheme.exists_parser_encode hrandom .distinguished (implicit 0 hidden ++ [])
  have hdecrypt : Bag.decrypt? a passphrase hidden = some data := by
    rw [Bag.decrypt?_of_ofIdentifier? hscheme]
    exact PasswordScheme.decrypt?_encrypt hrandom _ _
  have harcs : arcsOfContent? (oidContent oidData) = some oidData :=
    arcs_store (by simp [storeIdentifiers])
  have hhiding : arcsOfContent? (oidContent oidEncryptedData) = some oidEncryptedData :=
    arcs_store (by simp [storeIdentifiers])
  rw [safeContent, bind_eq_some_iff]
  refine ⟨_, rest, contentInfoParser_contentInfo hhiding hl rest, ?_⟩
  dsimp only
  rw [if_neg (by decide), if_pos rfl]
  refine filling_eq_some (read_alone (inWholeSequence_seqOf hcontent ?_))
  rw [bind_eq_some_iff]
  refine ⟨0, _, natBelow_nat (by decide) hnat.content _ _, ?_⟩
  refine inWholeSequence_seqOf hparts ?_ []
  rw [bind_eq_some_iff]
  refine ⟨oidData, _, oidValue_oid harcs hoid.content, ?_⟩
  rw [bind_eq_some_iff]
  refine ⟨a, _, hread, ?_⟩
  rw [bind_eq_some_iff]
  refine ⟨hidden, [], tagged_element (by decide) hhidden, ?_⟩
  rw [hdecrypt]
  rfl

theorem safe_encrypted (hrandom : random.length = 32) (hother : other.length = 32)
    (hbags : AreNamed bags)
    (hl : Fits (contentInfo oidEncryptedData (encryptedContent random (Bytes.ofText passphrase)
      (seqOf (bags.map (Bag.bytes (.fresh other) (Bytes.ofText passphrase)))))))
    (rest : Bytes) :
    safe passphrase .distinguished (contentInfo oidEncryptedData
      (encryptedContent random (Bytes.ofText passphrase)
        (seqOf (bags.map (Bag.bytes (.fresh other) (Bytes.ofText passphrase))))) ++ rest) =
          some (bags.map some, rest) := by
  have hfits : Fits (seqOf (bags.map (Bag.bytes (.fresh other) (Bytes.ofText passphrase)))) :=
    Nat.lt_of_le_of_lt (PasswordScheme.length_le_encrypt hrandom _ _)
      (fits_hidden (Fits.contentInfo hl))
  rw [safe, bind_eq_some_iff]
  exact ⟨_, rest, safeContent_encrypted hrandom hl rest,
    filling_eq_some (bags_seqOf hother hbags hfits)⟩

/-! ## Opening -/

variable {s : KeyStore} {m : Moment}

/-- What the guard of a store is about: certificates encrypted together, keys encrypted one by one. -/
def guarded (s : KeyStore) (random : Bytes) (password : Bytes) : Bytes :=
  let written := fun e => Bag.bytes (.fresh ((random.drop 32).take 32)) password e
  seqOf [
    contentInfo oidEncryptedData (encryptedContent (random.take 32) password
      (seqOf ((s.entries.flatMap certificateBags).map written))),
    contentInfo oidData (octets (seqOf ((s.entries.flatMap keyBags).map written)))]

theorem length_parts (hrandom : random.length = 80) :
    (random.take 32).length = 32 ∧ ((random.drop 32).take 32).length = 32 := by
  rw [List.length_take, List.length_take, List.length_drop]
  omega

theorem encode_eq (s : KeyStore) (m : Moment) (passphrase : String) :
    s.encode m passphrase =
      seqOf [nat 3,
        contentInfo oidData (octets (s.guarded (m.random 80) (Bytes.ofText passphrase))),
        StoreGuard.encode passphrase ((m.random 80).drop 64)
          (s.guarded (m.random 80) (Bytes.ofText passphrase))] := by
  let scheme := PasswordScheme.fresh (((m.random 80).drop 32).take 32)
  have hentries := funext (entryBags_eq scheme scheme (Bytes.ofText passphrase))
  simp only [encode, guarded, encryptedContent]
  rw [hentries]
  simp only [List.flatMap_map, List.map_flatMap, scheme]

theorem AreNamed.of_append {more : List Bag} (h : AreNamed (bags ++ more)) :
    AreNamed bags ∧ AreNamed more :=
  ⟨fun b hb => h b (List.mem_append_left more hb), fun b hb => h b (List.mem_append_right bags hb)⟩

/-- Both containers of a store are read. -/
theorem safes_guarded (hrandom : random.length = 80) (hbags : AreNamed s.bagsOf)
    (hl : Fits (s.guarded random (Bytes.ofText passphrase))) :
    inWholeSequence (manyToEnd (safe passphrase)) .distinguished
      (s.guarded random (Bytes.ofText passphrase)) =
        some ([(s.entries.flatMap certificateBags).map some,
          (s.entries.flatMap keyBags).map some], []) := by
  obtain ⟨hfirst, hsecond⟩ := length_parts hrandom
  obtain ⟨hcertificates, hkeys⟩ := hbags.of_append
  let written := Bag.bytes (.fresh ((random.drop 32).take 32)) (Bytes.ofText passphrase)
  let encrypted := contentInfo oidEncryptedData (encryptedContent (random.take 32)
    (Bytes.ofText passphrase) (seqOf ((s.entries.flatMap certificateBags).map written)))
  let plain := contentInfo oidData (octets (seqOf ((s.entries.flatMap keyBags).map written)))
  have hparts : s.guarded random (Bytes.ofText passphrase) = seqOf [encrypted, plain] := rfl
  rw [hparts] at hl ⊢
  have hfits : Fits plain := hl.part (by simp)
  have hencrypted := safe_encrypted hfirst hsecond hcertificates (hl.part List.mem_cons_self)
  have hplain := safe_data hsecond hkeys hfits
  let containers : List (Bytes × List (Option Bag)) :=
    [(encrypted, (s.entries.flatMap certificateBags).map some),
      (plain, (s.entries.flatMap keyBags).map some)]
  have hread : ∀ x ∈ containers, ∀ rest,
      safe passphrase .distinguished (x.1 ++ rest) = some (x.2, rest) := by
    intro x hx
    rcases List.mem_cons.1 hx with rfl | hx
    · exact hencrypted
    · rw [List.mem_singleton.1 hx]
      exact hplain
  exact read_alone (inWholeSequence_seqOf hl (manyToEnd_map rfl hread))

/-- The bags of a store that was written are found in it. -/
theorem bags_encode (hpassphrase : isFirstPlane passphrase = true) (hbags : AreNamed s.bagsOf)
    (hl : Fits (s.encode m passphrase)) :
    KeyStore.bags passphrase .distinguished (s.encode m passphrase) = some (s.bagsOf, []) := by
  let content := s.guarded (m.random 80) (Bytes.ofText passphrase)
  let guard := StoreGuard.encode passphrase ((m.random 80).drop 64) content
  have hparts : s.encode m passphrase =
      seqOf [nat 3, contentInfo oidData (octets content), guard] := encode_eq s m passphrase
  rw [hparts] at hl ⊢
  have hnat : Fits (nat 3) := hl.part List.mem_cons_self
  have hinfo : Fits (contentInfo oidData (octets content)) := hl.part (by simp)
  have hguard : Fits guard := hl.part (by simp)
  have hoctets : Fits (octets content) := Fits.contentInfo hinfo
  obtain ⟨g, hg, haccepts⟩ := StoreGuard.exists_parser_encode hpassphrase hguard []
  have harcs : arcsOfContent? (oidContent oidData) = some oidData :=
    arcs_store (by simp [storeIdentifiers])
  refine read_alone (inWholeSequence_seqOf hl ?_)
  rw [bind_eq_some_iff]
  refine ⟨3, _, natBelow_nat (by decide) hnat.content _ _, ?_⟩
  rw [bind_eq_some_iff]
  refine ⟨_, _, contentInfoParser_contentInfo harcs hinfo _, ?_⟩
  dsimp only
  rw [bind_eq_some_iff]
  refine ⟨content, _, filling_eq_some (read_alone fun _ =>
    tagged_element (by decide) hoctets.content), ?_⟩
  rw [bind_eq_some_iff]
  refine ⟨false, _, rfl, ?_⟩
  rw [if_neg Bool.false_ne_true, bind_eq_some_iff]
  refine ⟨some g, [], map_eq_some_iff.2 ⟨g, hg, rfl⟩, ?_⟩
  rw [if_pos ⟨rfl, rfl, haccepts⟩, bind_eq_some_iff]
  refine ⟨_, [], filling_eq_some (safes_guarded (m.length_random 80) hbags hoctets.content), ?_⟩
  rw [pure_eq_some_iff]
  refine ⟨?_, rfl⟩
  simp [bagsOf, List.filterMap_map]

/-- **A store that was written under a passphrase opens under it.** -/
theorem open?_encode (hpassphrase : isFirstPlane passphrase = true) (hbags : AreNamed s.bagsOf)
    (hl : (s.encode m passphrase).length < messageLimit) :
    open? (s.encode m passphrase) passphrase = ofBags? s.bagsOf := by
  have hfits : Fits (s.encode m passphrase) := Nat.lt_trans hl (by decide)
  have hread := parseAll?_eq_some (bags_encode hpassphrase hbags hfits)
  rw [open?, if_pos hl, hread, Option.bind_eq_bind, Option.bind_some]

end KeyStore
end CertAuthority.X509
