import CertAuthority.Proofs.X509.StoreEncoding

/-!
# How large stores get

A store of a few small certificates is far from the limit on messages, so it can be written.

* `Bag.IsSmall` : a bag of some bytes under a short alias;
* `KeyStore.length_encode_lt` : a few of them fit into a store.
-/

namespace CertAuthority.X509

open Der

theorem length_element_add_le {tag : UInt8} {data : Bytes} {n : Nat} (h : data.length ≤ n)
    (hn : n ≤ 100000) : (element tag data).length ≤ n + 10 := by
  have hlimit : 100000 < bitLimit 64 := by decide
  have hle : (element tag data).length ≤ data.length + 10 := length_element_le (by omega)
  omega

/-- Bytes of what a bag holds. -/
def BagContent.size : BagContent → Nat
  | .certificate der => der.length
  | .key container => container.length

namespace Bag

variable {label : String} {keyId : Option Bytes}

theorem length_attributeBytes_le (hlabel : (Pkcs12Derivation.utf16 label).length ≤ 100)
    (hkey : ∀ id ∈ keyId, id.length ≤ 20) : (attributeBytes label keyId).length ≤ 250 := by
  have hname : (oid oidFriendlyName).length ≤ 13 := length_oid_store (by simp [storeIdentifiers])
  have hlocal : (oid oidLocalKeyId).length ≤ 13 := length_oid_store (by simp [storeIdentifiers])
  have hattribute : ∀ {a : List Nat × Bytes} {n : Nat}, (oid a.1).length ≤ 13 → a.2.length ≤ n →
      n ≤ 1000 → (attributeOf a).length ≤ n + 33 := by
    intro a n hoid hvalue hn
    have hset : (element tagSet a.2).length ≤ n + 10 := length_element_add_le hvalue (by omega)
    refine length_element_add_le (n := n + 23) ?_ (by omega)
    simp only [List.flatten_cons, List.flatten_nil, List.append_nil, List.length_append]
    omega
  have hparts : ((attributesOf label keyId).map attributeOf).flatten.length ≤ 220 := by
    have hbmp : (element tagBmp (Pkcs12Derivation.utf16 label)).length ≤ 110 :=
      length_element_add_le hlabel (by omega)
    have hfirst : (attributeOf (oidFriendlyName,
        element tagBmp (Pkcs12Derivation.utf16 label))).length ≤ 143 :=
      hattribute hname hbmp (by omega)
    cases keyId with
    | none =>
      simp only [attributesOf, Option.map_none, Option.toList_none, List.map_cons, List.map_nil,
        List.flatten_cons, List.flatten_nil, List.append_nil]
      omega
    | some id =>
      have hoctets : (octets id).length ≤ 30 := length_element_add_le (hkey id rfl) (by omega)
      have hsecond : (attributeOf (oidLocalKeyId, octets id)).length ≤ 63 :=
        hattribute hlocal hoctets (by omega)
      simp only [attributesOf, Option.map_some, Option.toList_some, List.map_cons, List.map_nil,
        List.flatten_cons, List.flatten_nil, List.append_nil, List.length_append]
      omega
  rw [attributeBytes_eq]
  refine length_element_add_le (n := 240) ?_ (by omega)
  rw [(List.mergeSort_perm _ Bytes.le).flatten.length_eq]
  omega

/-- A bag of some bytes under a short alias. -/
structure IsSmall (b : Bag) : Prop where
  content : BagContent.size b.content ≤ 1000
  label : (Pkcs12Derivation.utf16 (b.friendlyName.getD "")).length ≤ 100
  keyId : ∀ id ∈ b.keyId, id.length ≤ 20

theorem length_encode_le {type : List Nat} {value : Bytes} {n : Nat}
    (htype : (oid type).length ≤ 13) (hvalue : value.length ≤ n) (hn : n ≤ 5000)
    (hattributes : (attributeBytes label keyId).length ≤ 250) :
    (Bag.encode type value label keyId).length ≤ n + 283 := by
  have hexplicit : (explicit 0 value).length ≤ n + 10 := length_element_add_le hvalue (by omega)
  refine length_element_add_le (n := n + 273) ?_ (by omega)
  simp only [List.flatten_cons, List.flatten_nil, List.append_nil, List.length_append]
  omega

theorem length_bytes_le {random password : Bytes} {b : Bag} (hrandom : random.length = 32)
    (hb : b.IsSmall) : (b.bytes (.fresh random) password).length ≤ 3000 := by
  have hattributes := length_attributeBytes_le hb.label hb.keyId
  obtain ⟨content, name, keyId⟩ := b
  cases content with
  | certificate der =>
    have hsize : der.length ≤ 1000 := hb.content
    have htype : (oid oidCertificateBag).length ≤ 13 := length_oid_store (by simp [storeIdentifiers])
    have hstored : (oid oidStoredCertificate).length ≤ 13 :=
      length_oid_store (by simp [storeIdentifiers])
    have hoctets : (octets der).length ≤ 1010 := length_element_add_le hsize (by omega)
    have hexplicit : (explicit 0 (octets der)).length ≤ 1020 :=
      length_element_add_le hoctets (by omega)
    have hvalue : (seqOf [oid oidStoredCertificate, explicit 0 (octets der)]).length ≤ 1043 := by
      refine length_element_add_le (n := 1033) ?_ (by omega)
      simp only [List.flatten_cons, List.flatten_nil, List.append_nil, List.length_append]
      omega
    exact Nat.le_trans (length_encode_le htype hvalue (by omega) hattributes) (by omega)
  | key container =>
    have hsize : container.length ≤ 1000 := hb.content
    have htype : (oid oidShroudedKeyBag).length ≤ 13 := length_oid_store (by simp [storeIdentifiers])
    have hhidden := PasswordScheme.length_encrypt_le hrandom password container
    obtain ⟨-, -, -, hscheme⟩ := PasswordScheme.exists_parser_encode hrandom .tolerant []
    have hoctets : (octets ((PasswordScheme.fresh random).encrypt password container)).length ≤
        1026 := length_element_add_le (n := 1016) (by omega) (by omega)
    have hvalue : (seqOf [(PasswordScheme.fresh random).encode,
        octets ((PasswordScheme.fresh random).encrypt password container)]).length ≤ 2136 := by
      refine length_element_add_le (n := 2126) ?_ (by omega)
      simp only [List.flatten_cons, List.flatten_nil, List.append_nil, List.length_append]
      omega
    exact Nat.le_trans (length_encode_le htype hvalue (by omega) hattributes) (by omega)

end Bag

theorem StoreGuard.length_encode_le {passphrase : String} {salt content : Bytes}
    (hsalt : salt.length = 16) : (StoreGuard.encode passphrase salt content).length ≤ 200 := by
  generalize hdigest : digestOf .sha256 passphrase salt PasswordScheme.iterations content = digest
  have hsize : digest.length = 32 := by
    rw [← hdigest]
    simp [digestOf, hmac, Hmac.withKey, Sha256.finish, Sha256.State.toBytes, Bytes.ofWord32,
      Bytes.length_ofNatWidth]
  have hoid : (oid oidSha256).length ≤ 13 := length_oid_store (by simp [storeIdentifiers])
  have hnull : null.length = 2 := rfl
  have hidentifier : (seqOf [oid oidSha256, null]).length ≤ 25 := by
    refine length_element_add_le (n := 15) ?_ (by omega)
    simp only [List.flatten_cons, List.flatten_nil, List.append_nil, List.length_append]
    omega
  have hnat : (nat PasswordScheme.iterations).length ≤ 13 := length_nat_le (by decide) (by decide)
  have hoctets : (octets digest).length ≤ 42 := length_element_add_le (Nat.le_of_eq hsize) (by omega)
  have hsalted : (octets salt).length ≤ 26 := length_element_add_le (Nat.le_of_eq hsalt) (by omega)
  have hinfo : (seqOf [seqOf [oid oidSha256, null], octets digest]).length ≤ 77 := by
    refine length_element_add_le (n := 67) ?_ (by omega)
    simp only [List.flatten_cons, List.flatten_nil, List.append_nil, List.length_append]
    omega
  rw [StoreGuard.encode, hdigest]
  refine length_element_add_le (n := 190) ?_ (by omega)
  simp only [List.flatten_cons, List.flatten_nil, List.append_nil, List.length_append]
  rw [show [2, 16, 840, 1, 101, 3, 4, 2, 1] = oidSha256 from rfl]
  omega

namespace KeyStore

theorem length_flatten_le {written : List Bytes} {n : Nat} (h : ∀ b ∈ written, b.length ≤ n) :
    written.flatten.length ≤ n * written.length := by
  induction written with
  | nil => exact Nat.zero_le _
  | cons b written ih =>
    obtain ⟨hb, hwritten⟩ := List.forall_mem_cons.1 h
    have hrest := ih hwritten
    rw [List.flatten_cons, List.length_append, List.length_cons, Nat.mul_add, Nat.mul_one]
    omega

theorem length_contentInfo_le {type : List Nat} {content : Bytes} {n : Nat}
    (htype : (oid type).length ≤ 13) (hcontent : content.length ≤ n) (hn : n ≤ 90000) :
    (contentInfo type content).length ≤ n + 33 := by
  have hexplicit : (explicit 0 content).length ≤ n + 10 :=
    length_element_add_le hcontent (by omega)
  refine length_element_add_le (n := n + 23) ?_ (by omega)
  simp only [List.flatten_cons, List.flatten_nil, List.append_nil, List.length_append]
  omega

theorem length_encryptedContent_le {random password data : Bytes} (hrandom : random.length = 32)
    (hdata : data.length ≤ 30010) : (encryptedContent random password data).length ≤ 31200 := by
  have hhidden := PasswordScheme.length_encrypt_le hrandom password data
  obtain ⟨-, -, -, hscheme⟩ := PasswordScheme.exists_parser_encode hrandom .tolerant []
  have htype : (oid oidData).length ≤ 13 := length_oid_store (by simp [storeIdentifiers])
  have hzero : (nat 0).length ≤ 11 := length_nat_le (by decide) (bitLimit_pos 0)
  have himplicit : (implicit 0 ((PasswordScheme.fresh random).encrypt password data)).length ≤
      30036 := length_element_add_le (n := 30026) (by omega) (by omega)
  have hparts : (seqOf [oid oidData, (PasswordScheme.fresh random).encode,
      implicit 0 ((PasswordScheme.fresh random).encrypt password data)]).length ≤ 31159 := by
    refine length_element_add_le (n := 31149) ?_ (by omega)
    simp only [List.flatten_cons, List.flatten_nil, List.append_nil, List.length_append]
    omega
  refine length_element_add_le (n := 31190) ?_ (by omega)
  simp only [List.flatten_cons, List.flatten_nil, List.append_nil, List.length_append]
  omega

/-- A few small bags fit into a store. -/
theorem length_encode_lt {s : KeyStore} (m : Moment) (passphrase : String)
    (hsmall : ∀ b ∈ s.bagsOf, b.IsSmall) (hcount : s.bagsOf.length ≤ 10) :
    (s.encode m passphrase).length < messageLimit := by
  let random := m.random 80
  have hrandom : random.length = 80 := m.length_random 80
  obtain ⟨hfirst, hsecond⟩ := length_parts hrandom
  let written := Bag.bytes (.fresh ((random.drop 32).take 32)) (Bytes.ofText passphrase)
  have hwritten : ∀ bags : List Bag, (∀ b ∈ bags, b ∈ s.bagsOf) → bags.length ≤ 10 →
      (seqOf (bags.map written)).length ≤ 30010 := by
    intro bags hbags hfew
    have hflatten : (bags.map written).flatten.length ≤ 3000 * (bags.map written).length := by
      refine length_flatten_le fun out hout => ?_
      obtain ⟨b, hb, rfl⟩ := List.mem_map.1 hout
      exact Bag.length_bytes_le hsecond (hsmall b (hbags b hb))
    rw [List.length_map] at hflatten
    exact length_element_add_le (n := 30000) (by omega) (by omega)
  rw [bagsOf, List.length_append] at hcount
  have hcertificates := hwritten (s.entries.flatMap certificateBags)
    (fun b hb => List.mem_append_left _ hb) (by omega)
  have hkeys := hwritten (s.entries.flatMap keyBags)
    (fun b hb => List.mem_append_right _ hb) (by omega)
  have htype : (oid oidData).length ≤ 13 := length_oid_store (by simp [storeIdentifiers])
  have htypeEncrypted : (oid oidEncryptedData).length ≤ 13 :=
    length_oid_store (by simp [storeIdentifiers])
  let encrypted := contentInfo oidEncryptedData (encryptedContent (random.take 32)
    (Bytes.ofText passphrase) (seqOf ((s.entries.flatMap certificateBags).map written)))
  let plain := contentInfo oidData (octets (seqOf ((s.entries.flatMap keyBags).map written)))
  let content := s.guarded random (Bytes.ofText passphrase)
  let guard := StoreGuard.encode passphrase (random.drop 64) content
  have hencrypted : encrypted.length ≤ 31233 := length_contentInfo_le htypeEncrypted
    (length_encryptedContent_le hfirst hcertificates) (by omega)
  have hplain : plain.length ≤ 30053 :=
    length_contentInfo_le htype (length_element_add_le hkeys (by omega)) (by omega)
  have hcontent : content.length ≤ 61300 := by
    refine length_element_add_le (n := 61290) ?_ (by omega)
    change [encrypted, plain].flatten.length ≤ 61290
    simp only [List.flatten_cons, List.flatten_nil, List.append_nil, List.length_append]
    omega
  have hinfo : (contentInfo oidData (octets content)).length ≤ 61343 :=
    length_contentInfo_le htype (length_element_add_le hcontent (by omega)) (by omega)
  have hguard : guard.length ≤ 200 :=
    StoreGuard.length_encode_le (by rw [List.length_drop, hrandom])
  have hversion : (nat 3).length ≤ 12 := length_nat_le (by decide) (by decide)
  have hlimit : 100000 < messageLimit := by decide
  have htotal : (s.encode m passphrase).length ≤ 61600 := by
    rw [encode_eq]
    refine length_element_add_le (n := 61590) ?_ (by omega)
    change [nat 3, contentInfo oidData (octets content), guard].flatten.length ≤ 61590
    simp only [List.flatten_cons, List.flatten_nil, List.append_nil, List.length_append]
    omega
  omega

end KeyStore
end CertAuthority.X509
