import CertAuthority.Proofs.Text.Basic
import CertAuthority.Proofs.X509.StoreSizes
import CertAuthority.X509.Backend

/-!
# Certificates in stores

A store has one entry for the key with its certificate and one for each certificate of the chain. It
does not say what its alias was made from, nor whether a passphrase was given: both are guessed when
it is read.

* `entries_foldl_put` : certificates that are stored under names of their own;
* `KeyStore.exists_ofBags?_storeOf` : the entries that are found again. The key takes its issuers out
  of the chain;
* `KeyStore.isStore_encode` : a store is known by its outline;
* `decodeStore_encodeStore` : what is read of an encoded store;
* `store_settles_iff` : when that is what was wanted.
-/

namespace CertAuthority

/-! ## Outlines -/

namespace Outline

open Der

variable {tag : UInt8} {data rest : Bytes}

/-- A length that is read under the stricter rules is read the same here. -/
theorem length?_of_takeLength {r : Rules} {b : Bytes} {n : Nat}
    (h : takeLength r b = some (n, rest)) (hn : n < bitLimit 64) :
    length? b = some (some n, rest) := by
  cases b with
  | nil => cases h
  | cons first b =>
    unfold takeLength at h
    unfold length?
    dsimp only at h ⊢
    split at h
    · rename_i hshort
      obtain ⟨rfl, rfl⟩ := Prod.mk.inj (Option.some.inj h)
      rw [if_pos hshort]
    · rename_i hlong
      split at h
      · cases h
      · rename_i hsize
        split at h
        · cases h
        · obtain ⟨rfl, rfl⟩ := Prod.mk.inj (Option.some.inj h)
          rw [if_neg hlong, if_neg (by omega), if_neg (by omega)]

theorem header?_element (ht : tag &&& 0x1f ≠ 0x1f) (hl : Fits (element tag data)) :
    header? (element tag data ++ rest) = some (⟨tag, some data.length⟩, data ++ rest) := by
  have htake := takeLength_lengthBytes .tolerant data.length (data ++ rest)
  rw [if_pos (show data.length < bitLimit 64 from hl.content)] at htake
  have hlength := length?_of_takeLength htake hl.content
  rw [element, List.cons_append, List.append_assoc, header?, if_neg ht, Option.bind_eq_bind,
    Option.bind_some]
  dsimp only
  rw [hlength]
  rfl

theorem skip?_element (ht : tag &&& 0x1f ≠ 0x1f) (hzero : tag ≠ 0) (hl : Fits (element tag data)) :
    skip? (element tag data ++ rest) = some rest := by
  have hfits : ¬ (data ++ rest).length < data.length := by
    rw [List.length_append]
    omega
  rw [skip?, skipFrom?, header?_element ht hl]
  dsimp only
  rw [if_neg hzero, if_neg hfits, if_pos rfl, List.drop_left]

end Outline

namespace X509

open Der

/-! ## Aliases -/

/-- Certificates that are stored under names of their own replace what had these names. -/
theorem entries_foldl_put {xs : List (String × Bytes)} (hnodup : (xs.map Prod.fst).Nodup)
    (s : KeyStore) :
    (xs.foldl (fun s x => s.put x.1 (.certificate x.2)) s).entries =
      s.entries.filter (fun e => !(xs.map Prod.fst).contains e.1) ++
        xs.map fun x => (x.1, .certificate x.2) := by
  induction xs generalizing s with
  | nil =>
    have hall : s.entries.filter (fun e => !([] : List String).contains e.1) = s.entries :=
      List.filter_eq_self.2 fun _ _ => rfl
    exact ((List.append_nil _).trans hall).symm
  | cons x xs ih =>
    rw [List.map_cons, List.nodup_cons] at hnodup
    have hlast : [(x.1, StoreEntry.certificate x.2)].filter
        (fun e => !(xs.map Prod.fst).contains e.1) = [(x.1, .certificate x.2)] :=
      List.filter_eq_self.2 (by simpa using hnodup.1)
    have hkept : (s.put x.1 (.certificate x.2)).entries.filter
        (fun e => !(xs.map Prod.fst).contains e.1) =
          s.entries.filter (fun e => !((x :: xs).map Prod.fst).contains e.1) ++
            [(x.1, .certificate x.2)] := by
      rw [KeyStore.put, List.filter_append, List.filter_filter, hlast]
      refine congrArg (· ++ _) (List.filter_congr fun e _ => ?_)
      rw [List.map_cons, List.contains_cons, Bool.not_or, Bool.and_comm]
      rfl
    rw [List.foldl_cons, ih hnodup.2, hkept, List.append_assoc]
    rfl

theorem chainLabel_injective {i j : Nat} (h : chainLabel i = chainLabel j) : i = j := by
  have hdigits : (Text.padded 3 i).toList = (Text.padded 3 j).toList := by
    have hlist := congrArg String.toList h
    simpa only [chainLabel, String.toList_append, List.append_cancel_left_eq] using hlist
  rw [← Text.digitsValue_padded 3 i, hdigits, Text.digitsValue_padded]

/-- The certificates of a chain under their aliases. -/
def chainItems (chain : List Bytes) : List (String × Bytes) :=
  chain.zipIdx.map fun (der, i) => (chainLabel i, der)

theorem map_fst_chainItems (chain : List Bytes) :
    (chainItems chain).map Prod.fst = (List.range chain.length).map chainLabel := by
  rw [chainItems, List.map_map, List.range_eq_range', ← List.zipIdx_map_snd, List.map_map]
  rfl

theorem map_snd_chainItems (chain : List Bytes) : (chainItems chain).map Prod.snd = chain := by
  rw [chainItems, List.map_map]
  exact List.zipIdx_map_fst 0 chain

theorem nodup_chainItems (chain : List Bytes) : ((chainItems chain).map Prod.fst).Nodup := by
  rw [map_fst_chainItems]
  refine List.pairwise_map.2 (List.nodup_range.imp fun hne heq => hne ?_)
  exact chainLabel_injective heq

theorem forall_chainItems {chain : List Bytes} {P : Bytes → Prop} (h : ∀ der ∈ chain, P der) :
    ∀ x ∈ chainItems chain, P x.2 := by
  intro x hx
  refine h x.2 ?_
  rw [← map_snd_chainItems chain]
  exact List.mem_map_of_mem hx

theorem mem_labels_iff {chain : List Bytes} {label : String} :
    label ∈ (chainItems chain).map Prod.fst ↔ ∃ i < chain.length, label = chainLabel i := by
  rw [map_fst_chainItems, List.mem_map]
  simp only [List.mem_range, eq_comm]

variable {container leaf : Bytes} {label : String} {chain : List Bytes}

def keyEntry (container leaf : Bytes) : StoreEntry := .key container (Sha1.digest leaf) [leaf]

theorem storeOf_eq (container leaf : Bytes) (label : String) (chain : List Bytes) :
    storeOf container leaf label chain =
      (chainItems chain).foldl (fun s x => s.put x.1 (.certificate x.2))
        ⟨[(label, keyEntry container leaf)]⟩ := by
  rw [chainItems, List.foldl_map]
  rfl

/-- The key is in the store, unless a certificate has taken its alias. -/
theorem entries_storeOf (hlabel : label ∉ (chainItems chain).map Prod.fst) :
    (storeOf container leaf label chain).entries =
      (label, keyEntry container leaf) :: (chainItems chain).map fun x => (x.1, .certificate x.2) := by
  rw [storeOf_eq, entries_foldl_put (nodup_chainItems chain)]
  simp [hlabel]

theorem entries_storeOf_taken (hlabel : label ∈ (chainItems chain).map Prod.fst) :
    (storeOf container leaf label chain).entries =
      (chainItems chain).map fun x => (x.1, .certificate x.2) := by
  rw [storeOf_eq, entries_foldl_put (nodup_chainItems chain)]
  simp [hlabel]

/-! ## Bags of a store -/

namespace KeyStore

/-- The bag of a certificate in the chain. -/
def chainBag (x : String × Bytes) : Bag := ⟨.certificate x.2, some x.1, none⟩

theorem flatMap_bags_items (items : List (String × Bytes)) :
    (items.map fun x => (x.1, StoreEntry.certificate x.2)).flatMap certificateBags =
        items.map chainBag ∧
      (items.map fun x => (x.1, StoreEntry.certificate x.2)).flatMap keyBags = [] := by
  induction items with
  | nil => exact ⟨rfl, rfl⟩
  | cons x items ih => exact ⟨congrArg (chainBag x :: ·) ih.1, ih.2⟩

theorem bagsOf_storeOf (hlabel : label ∉ (chainItems chain).map Prod.fst) :
    bagsOf (storeOf container leaf label chain) =
      ⟨.certificate leaf, some label, some (Sha1.digest leaf)⟩ ::
        ((chainItems chain).map chainBag ++
          [⟨.key container, some label, some (Sha1.digest leaf)⟩]) := by
  obtain ⟨hcertificates, hkeys⟩ := flatMap_bags_items (chainItems chain)
  rw [bagsOf, entries_storeOf hlabel, List.flatMap_cons, List.flatMap_cons, hcertificates, hkeys]
  rfl

theorem bagsOf_storeOf_taken (hlabel : label ∈ (chainItems chain).map Prod.fst) :
    bagsOf (storeOf container leaf label chain) = (chainItems chain).map chainBag := by
  obtain ⟨hcertificates, hkeys⟩ := flatMap_bags_items (chainItems chain)
  rw [bagsOf, entries_storeOf_taken hlabel, hcertificates, hkeys, List.append_nil]

/-! ## Entries from bags -/

/-- A certificate as it is found in a store. -/
def storedFrom (der : Bytes) (name : String) (keyId : Option Bytes) : Stored :=
  let f := (CertificateForm.parse? der).getD default
  ⟨der, f.subject.text, f.issuer.text, some name, keyId⟩

theorem stored?_certificate {der : Bytes} (hder : (CertificateForm.parse? der).isSome = true)
    (name : String) (keyId : Option Bytes) :
    stored? ⟨.certificate der, some name, keyId⟩ = some (some (storedFrom der name keyId)) := by
  obtain ⟨f, hf⟩ := Option.isSome_iff_exists.1 hder
  simp only [stored?, storedFrom, hf, Option.map_some, Option.getD_some]

theorem mapM_stored?_items {items : List (String × Bytes)}
    (hitems : ∀ x ∈ items, (CertificateForm.parse? x.2).isSome = true) :
    (items.map chainBag).mapM stored? =
      some (items.map fun x => some (storedFrom x.2 x.1 none)) := by
  induction items with
  | nil => rfl
  | cons x items ih =>
    obtain ⟨hx, hitems⟩ := List.forall_mem_cons.1 hitems
    rw [List.map_cons, List.mapM_cons, chainBag, stored?_certificate hx, ih hitems]
    rfl

/-- Issuers are only taken out of the others. -/
theorem issuers_perm (fuel : Nat) (c : Stored) (others : List Stored) :
    ((issuers fuel c others).1 ++ (issuers fuel c others).2).Perm others := by
  induction fuel generalizing c others with
  | zero => exact .refl _
  | succ fuel ih =>
    unfold issuers
    split
    · exact .refl _
    · split
      · exact .refl _
      · rename_i next rest hnext
        exact ((ih next rest).cons next).trans (perm_of_extractFirst? hnext).symm

theorem addKeys_items (s : KeyStore) (certs : List Stored) (items : List (String × Bytes))
    (more : List Bag) : addKeys s certs (items.map chainBag ++ more) = addKeys s certs more := by
  induction items with
  | nil => rfl
  | cons x items ih => exact ih

/-- The key takes its certificate and the issuers of that. -/
theorem addKeys_key (id : Bytes) (others : List Stored) :
    addKeys {} (storedFrom leaf label (some id) :: others)
        [⟨.key container, some label, some id⟩] =
      (⟨[(label, .key container id
          (leaf :: (issuers others.length (storedFrom leaf label (some id)) others).1.map (·.der)))]⟩,
        (issuers others.length (storedFrom leaf label (some id)) others).2) := by
  have htaken : extractFirst? (fun c : Stored => (some id).isSome && c.keyId == some id)
      (storedFrom leaf label (some id) :: others) =
        some (storedFrom leaf label (some id), others) := by
    rw [extractFirst?, if_pos (by simp [storedFrom])]
  simp only [addKeys, htaken]
  rfl

/-- A certificate with the alias that it is stored under. -/
def itemOf (c : Stored) : String × Bytes := (c.friendlyName.getD c.subject, c.der)

/-- What the keys leave is stored under its aliases. -/
theorem ofBags?_eq {bags : List Bag} {certs : List (Option Stored)} {first : KeyStore}
    {left : List Stored} (hcerts : bags.mapM stored? = some certs)
    (hadd : addKeys {} (certs.filterMap id) bags = (first, left))
    (hnodup : ((left.map itemOf).map Prod.fst).Nodup) :
    ofBags? bags = some ⟨first.entries.filter
        (fun e => !((left.map itemOf).map Prod.fst).contains e.1) ++
      (left.map itemOf).map fun x => (x.1, .certificate x.2)⟩ := by
  have hput : left.foldl
      (fun s c => s.put (c.friendlyName.getD c.subject) (.certificate c.der)) first =
        (left.map itemOf).foldl (fun s x => s.put x.1 (.certificate x.2)) first := by
    rw [List.foldl_map]
    rfl
  rw [ofBags?, hcerts, Option.bind_eq_bind, Option.bind_some, hadd]
  dsimp only
  rw [hput, ← entries_foldl_put hnodup first]
  rfl

theorem filterMap_stored (items : List (String × Bytes)) :
    (items.map fun x => some (storedFrom x.2 x.1 none)).filterMap id =
      items.map fun x => storedFrom x.2 x.1 none := by
  rw [List.filterMap_map]
  exact congrFun List.filterMap_eq_map items

theorem map_itemOf_stored (items : List (String × Bytes)) :
    (items.map fun x => storedFrom x.2 x.1 none).map itemOf = items := by
  rw [List.map_map]
  exact List.map_id items

/-- The entries that are found in a store: the key with some certificates of the chain, and the
others under their aliases. -/
theorem exists_ofBags?_storeOf (hlabel : label ∉ (chainItems chain).map Prod.fst)
    (hleaf : (CertificateForm.parse? leaf).isSome = true)
    (hchain : ∀ der ∈ chain, (CertificateForm.parse? der).isSome = true) :
    ∃ (path : List Bytes) (left : List (String × Bytes)),
      ofBags? (bagsOf (storeOf container leaf label chain)) =
        some ⟨(label, .key container (Sha1.digest leaf) (leaf :: path)) ::
          left.map fun x => (x.1, .certificate x.2)⟩ ∧
      (path ++ left.map Prod.snd).Perm chain := by
  let items := chainItems chain
  let others := items.map fun x => storedFrom x.2 x.1 none
  let own := storedFrom leaf label (some (Sha1.digest leaf))
  let found := issuers others.length own others
  have hperm : (found.1 ++ found.2).Perm others := issuers_perm _ _ _
  have hcerts : (bagsOf (storeOf container leaf label chain)).mapM stored? =
      some (some own :: ((items.map fun x => some (storedFrom x.2 x.1 none)) ++ [none])) := by
    rw [bagsOf_storeOf hlabel, List.mapM_cons, List.mapM_append, stored?_certificate hleaf,
      mapM_stored?_items (forall_chainItems hchain)]
    rfl
  let first : KeyStore :=
    ⟨[(label, .key container (Sha1.digest leaf) (leaf :: found.1.map (·.der)))]⟩
  have hadd : addKeys {} ((some own ::
      ((items.map fun x => some (storedFrom x.2 x.1 none)) ++ [none])).filterMap id)
        (bagsOf (storeOf container leaf label chain)) = (first, found.2) := by
    have hown : (some own ::
        ((items.map fun x => some (storedFrom x.2 x.1 none)) ++ [none])).filterMap id =
          own :: others := by
      rw [List.filterMap_cons, List.filterMap_append, filterMap_stored]
      exact congrArg (own :: ·) (List.append_nil _)
    rw [hown, bagsOf_storeOf hlabel, addKeys, addKeys_items]
    exact addKeys_key (Sha1.digest leaf) others
  -- what the path leaves keeps its aliases, which are still different
  have hleft : (found.1.map itemOf ++ found.2.map itemOf).Perm items := by
    rw [← List.map_append, ← map_itemOf_stored items]
    exact hperm.map itemOf
  have hnames := hleft.map Prod.fst
  rw [List.map_append] at hnames
  have hnodup : ((found.2.map itemOf).map Prod.fst).Nodup :=
    (List.nodup_append.1 (hnames.nodup_iff.2 (nodup_chainItems chain))).2.1
  have hnew : label ∉ (found.2.map itemOf).map Prod.fst := fun hmem =>
    hlabel (hnames.mem_iff.1 (List.mem_append_right _ hmem))
  have hkept : first.entries.filter
      (fun e => !((found.2.map itemOf).map Prod.fst).contains e.1) = first.entries :=
    List.filter_eq_self.2 (by simpa [first] using hnew)
  refine ⟨found.1.map (·.der), found.2.map itemOf, ?_, ?_⟩
  · rw [ofBags?_eq hcerts hadd hnodup, hkept]
    rfl
  · have hders := hleft.map Prod.snd
    rw [List.map_append, map_snd_chainItems, List.map_map] at hders
    exact hders

/-- If the alias of the key was taken, no key is found. -/
theorem ofBags?_storeOf_taken (hlabel : label ∈ (chainItems chain).map Prod.fst)
    (hchain : ∀ der ∈ chain, (CertificateForm.parse? der).isSome = true) :
    ofBags? (bagsOf (storeOf container leaf label chain)) =
      some ⟨(chainItems chain).map fun x => (x.1, .certificate x.2)⟩ := by
  have hcerts : (bagsOf (storeOf container leaf label chain)).mapM stored? =
      some ((chainItems chain).map fun x => some (storedFrom x.2 x.1 none)) := by
    rw [bagsOf_storeOf_taken hlabel, mapM_stored?_items (forall_chainItems hchain)]
  have hadd : addKeys {} (((chainItems chain).map
      fun x => some (storedFrom x.2 x.1 none)).filterMap id)
        (bagsOf (storeOf container leaf label chain)) =
          ({}, (chainItems chain).map fun x => storedFrom x.2 x.1 none) := by
    rw [bagsOf_storeOf_taken hlabel, filterMap_stored, ← List.append_nil (List.map chainBag _),
      addKeys_items]
    rfl
  rw [ofBags?_eq hcerts hadd (by rw [map_itemOf_stored]; exact nodup_chainItems chain),
    map_itemOf_stored]
  rfl

/-! ## What is read of the entries -/

theorem key?_found {id : Bytes} {path : List Bytes} {left : List (String × StoreEntry)} :
    key? ⟨(label, .key container id (leaf :: path)) :: left⟩ = some (label, leaf, path) := rfl

theorem key?_items (items : List (String × Bytes)) :
    key? ⟨items.map fun x => (x.1, .certificate x.2)⟩ = none := by
  rw [key?, List.findSome?_map]
  exact List.findSome?_eq_none_iff.2 fun _ _ => rfl

/-- The certificates that stand alone, in the order of their aliases. -/
theorem certificates_perm {id : Bytes} {path : List Bytes} (left : List (String × Bytes)) :
    (certificates ⟨(label, .key container id path) ::
      left.map fun x => (x.1, .certificate x.2)⟩).Perm (left.map Prod.snd) := by
  refine ((List.mergeSort_perm _ _).map _).trans (.of_eq (congrArg (List.map Prod.snd) ?_))
  dsimp only
  rw [List.filterMap_cons, List.filterMap_map]
  exact List.filterMap_some

/-- A store is known by its outline. -/
theorem isStore_encode {s : KeyStore} {m : Moment} {passphrase : String}
    (hl : (s.encode m passphrase).length < messageLimit) : isStore (s.encode m passphrase) = true := by
  have hfits : Fits (s.encode m passphrase) := Nat.lt_trans hl (by decide)
  let content := s.guarded (m.random 80) (Bytes.ofText passphrase)
  let guard := StoreGuard.encode passphrase ((m.random 80).drop 64) content
  have hversion : nat 3 = element tagInteger [3] := by
    simp [nat, natContent, Bytes.ofNat, Bytes.ofNatAux]
  have hparts : s.encode m passphrase =
      seqOf [element tagInteger [3], contentInfo oidData (octets content), guard] := by
    rw [encode_eq, hversion]
  rw [hparts] at hfits ⊢
  have hinfo : Fits (contentInfo oidData (octets content)) := hfits.part (by simp)
  have hguard : Fits guard := hfits.part (by simp)
  let fields := [element tagInteger [3], contentInfo oidData (octets content), guard].flatten
  have hheader : Outline.header? (seqOf [element tagInteger [3], contentInfo oidData (octets content),
      guard]) = some (⟨tagSequence, some fields.length⟩, fields) := by
    have hread := @Outline.header?_element tagSequence fields [] (by decide) hfits
    rwa [List.append_nil, List.append_nil] at hread
  have hnumber : Outline.header? fields =
      some (⟨tagInteger, some 1⟩, [3] ++ (contentInfo oidData (octets content) ++ (guard ++ []))) :=
    Outline.header?_element (by decide) (hfits.part List.mem_cons_self)
  have hskip : Outline.skip? (contentInfo oidData (octets content) ++ (guard ++ [])) =
      some (guard ++ []) := Outline.skip?_element (by decide) (by decide) hinfo
  have hlast : Outline.skip? (guard ++ []) = some [] :=
    Outline.skip?_element (by decide) (by decide) hguard
  simp only [isStore, hheader, hnumber, Option.bind_eq_bind, Option.bind_some, Option.all_some,
    beq_self_eq_true, if_true, List.cons_append, List.nil_append, Bytes.dropPrefix?, hskip, hlast,
    Option.getD_some, Outline.ended?, and_self]

end KeyStore

/-! ## Certificates -/

theorem exists_mapM_loadCertificate {cs : List Certificate} {ders : List Bytes}
    (hstored : ∀ c ∈ cs, IsStored c) (h : ders.Perm (cs.map Certificate.encoded)) :
    ∃ found, found.Perm cs ∧ ders.mapM loadCertificate = .ok found := by
  induction ders generalizing cs with
  | nil =>
    obtain rfl := List.map_eq_nil_iff.1 (List.nil_perm.1 h)
    exact ⟨[], .refl _, rfl⟩
  | cons der ders ih =>
    obtain ⟨c, hc, rfl⟩ := List.mem_map.1 (h.mem_iff.1 List.mem_cons_self)
    have hperm := List.perm_cons_erase hc
    have hrest : ders.Perm ((cs.erase c).map Certificate.encoded) :=
      (h.trans (hperm.map _)).cons_inv
    obtain ⟨found, hfound, hload⟩ := ih (fun o ho => hstored o (List.mem_of_mem_erase ho)) hrest
    refine ⟨c :: found, (hfound.cons c).trans hperm.symm, ?_⟩
    simp only [List.mapM_cons, Outcome.bind_eq_ok_iff]
    exact ⟨c, hstored c hc, found, hload, rfl⟩

/-! ## Stores -/

variable {m : Moment} {c : Certificate} {o : EncodeOptions} {data : Bytes} {subject : String}

/-- The store that a certificate is put into with its key and its chain. -/
def storeFor (c : Certificate) (o : EncodeOptions) (key : PrivateKey) (subject : String) : KeyStore :=
  storeOf key.encoded c.encoded (o.friendlyName.getD subject) (o.chain.map Certificate.encoded)

theorem mapM_cons_eq_some_iff {α β : Type} {f : α → Option β} {a : α} {as : List α} {b : β}
    {bs : List β} : (a :: as).mapM f = some (b :: bs) ↔ f a = some b ∧ as.mapM f = some bs := by
  simp [List.mapM_cons, Option.bind_eq_some_iff]

theorem encodeStore_eq_ok_iff :
    encodeStore m c o = .ok data ↔
      ∃ key subject, o.embedKey = some key ∧ subjectText? c.encoded = some subject ∧
        (∀ extra ∈ o.chain, (subjectText? extra.encoded).isSome = true) ∧
        isFirstPlane (o.passphrase.getD "") = true ∧
        (∀ e ∈ (storeFor c o key subject).entries, isFirstPlane e.1 = true) ∧
        ((storeFor c o key subject).encode m (o.passphrase.getD "")).length < messageLimit ∧
        data = (storeFor c o key subject).encode m (o.passphrase.getD "") := by
  constructor
  · intro h
    unfold encodeStore at h
    dsimp only at h
    split at h
    · cases h
    · rename_i key hkey
      split at h
      · rename_i subject rest hsubjects
        obtain ⟨hsubject, hchain⟩ := mapM_cons_eq_some_iff.1 hsubjects
        have hreadable := Text.isSome_mapM_iff.1 (Option.isSome_iff_exists.2 ⟨rest, hchain⟩)
        split at h
        · rename_i hplane
          split at h
          · rename_i hsmall
            exact ⟨key, subject, hkey, hsubject, hreadable, hplane.1, List.all_eq_true.1 hplane.2,
              hsmall, (Except.ok.inj h).symm⟩
          · cases h
        · cases h
      · cases h
  · rintro ⟨key, subject, hkey, hsubject, hreadable, hpassphrase, hlabels, hsmall, rfl⟩
    obtain ⟨rest, hchain⟩ := Option.isSome_iff_exists.1 (Text.isSome_mapM_iff.2 hreadable)
    have hsubjects : ((c :: o.chain).mapM fun x => subjectText? x.encoded) = some (subject :: rest) :=
      mapM_cons_eq_some_iff.2 ⟨hsubject, hchain⟩
    unfold encodeStore
    dsimp only
    rw [hkey]
    dsimp only
    rw [hsubjects]
    dsimp only
    rw [if_pos ⟨hpassphrase, List.all_eq_true.2 hlabels⟩]
    exact if_pos hsmall

theorem areNamed_bagsOf {s : KeyStore} (h : ∀ e ∈ s.entries, isFirstPlane e.1 = true) :
    KeyStore.AreNamed s.bagsOf := by
  intro b hb
  rcases List.mem_append.1 hb with hb | hb
  · obtain ⟨⟨label, e⟩, he, hb⟩ := List.mem_flatMap.1 hb
    cases e with
    | certificate der =>
      rw [List.mem_singleton.1 hb]
      exact ⟨label, rfl, h _ he⟩
    | key container id chain =>
      obtain ⟨der, -, rfl⟩ := List.mem_map.1 hb
      exact ⟨label, rfl, h _ he⟩
  · obtain ⟨⟨label, e⟩, he, hb⟩ := List.mem_flatMap.1 hb
    cases e with
    | certificate der => cases hb
    | key container id chain =>
      rw [List.mem_singleton.1 hb]
      exact ⟨label, rfl, h _ he⟩

/-- A passphrase was needed if it was not empty. -/
theorem openStore_eq {s : KeyStore} {b : Bytes} {passphrase : Option String}
    (h : KeyStore.open? b (passphrase.getD "") = some s) :
    openStore b passphrase = .ok (s, passphrase.getD "" != "") := by
  cases passphrase with
  | none =>
    rw [Option.getD_none] at h
    simp only [openStore, h]
    rfl
  | some p =>
    by_cases hp : p = ""
    · subst hp
      rw [Option.getD_some] at h
      simp only [openStore, h]
      rfl
    · rw [Option.getD_some] at h
      have hne : (p != "") = true := bne_iff_ne.2 hp
      simp only [openStore, h, Option.getD_some, hne]

theorem decodeStore_of_opens {s : KeyStore} {isProtected : Bool} {b : Bytes}
    {passphrase : Option String} (hstore : isStore b = true)
    (hopen : openStore b passphrase = .ok (s, isProtected)) :
    decodeStore b passphrase =
      match s.key? with
      | none => Outcome.fail (.unrecognized "pkcs12")
      | some (label, leaf, chain) => do
        let chain ← (chain ++ s.certificates).mapM loadCertificate
        let certificate ← loadCertificate leaf
        let friendlyName := if subjectText? leaf = some label then none else some label
        return { certificate, encoding := .pkcs12, chain, friendlyName, isProtected } := by
  rw [decodeStore, hstore, hopen]
  rfl

/-- An alias that is not the subject was given. -/
theorem friendlyName_eq {der : Bytes} {name : Option String} (hder : subjectText? der = some subject) :
    (if subjectText? der = some (name.getD subject) then none else some (name.getD subject)) =
      if name.getD subject = subject then none else name := by
  have hcond : some subject = some (name.getD subject) ↔ name.getD subject = subject :=
    Option.some_inj.trans eq_comm
  rw [hder, if_congr hcond rfl rfl]
  cases name with
  | none => rw [Option.getD_none, if_pos rfl, if_pos rfl]
  | some given => rfl

/-- What is read of an encoded store: all of it, unless a certificate has taken the key's alias. -/
theorem decodeStore_encodeStore (hstored : ∀ extra ∈ c :: o.chain, IsStored extra)
    (h : encodeStore m c o = .ok data) (hsubject : subjectText? c.encoded = some subject) :
    ((∃ i < o.chain.length, o.friendlyName.getD subject = chainLabel i) →
      decodeStore data o.passphrase = Outcome.fail (.unrecognized "pkcs12")) ∧
    ((∀ i < o.chain.length, o.friendlyName.getD subject ≠ chainLabel i) →
      ∃ chain, chain.Perm o.chain ∧ decodeStore data o.passphrase = .ok {
        certificate := c, encoding := .pkcs12, chain
        friendlyName := if o.friendlyName.getD subject = subject then none else o.friendlyName
        isProtected := o.passphrase.getD "" != "" }) := by
  obtain ⟨key, _, -, hread, hreadable, hpassphrase, hlabels, hsmall, rfl⟩ :=
    encodeStore_eq_ok_iff.1 h
  obtain rfl := Option.some.inj (hsubject.symm.trans hread)
  have hopen := KeyStore.open?_encode hpassphrase (areNamed_bagsOf hlabels) hsmall
  have hstore := KeyStore.isStore_encode hsmall
  have hchain : ∀ der ∈ o.chain.map Certificate.encoded,
      (CertificateForm.parse? der).isSome = true := by
    intro der hder
    obtain ⟨extra, hextra, rfl⟩ := List.mem_map.1 hder
    have hsome := hreadable extra hextra
    rwa [subjectText?, Option.isSome_map] at hsome
  constructor
  · intro htaken
    have hlabel : o.friendlyName.getD subject ∈
        (chainItems (o.chain.map Certificate.encoded)).map Prod.fst := by
      rw [mem_labels_iff, List.length_map]
      exact htaken
    have hfound := openStore_eq (hopen.trans (KeyStore.ofBags?_storeOf_taken hlabel hchain))
    rw [decodeStore_of_opens hstore hfound, KeyStore.key?_items]
  · intro hfree
    have hlabel : o.friendlyName.getD subject ∉
        (chainItems (o.chain.map Certificate.encoded)).map Prod.fst := by
      rw [mem_labels_iff, List.length_map]
      rintro ⟨i, hi, heq⟩
      exact hfree i hi heq
    have hleaf : (CertificateForm.parse? c.encoded).isSome = true := by
      have hsome := congrArg Option.isSome hsubject
      rwa [subjectText?, Option.isSome_map] at hsome
    obtain ⟨path, left, hentries, hperm⟩ :=
      @KeyStore.exists_ofBags?_storeOf key.encoded _ _ _ hlabel hleaf hchain
    have hfound := openStore_eq (hopen.trans hentries)
    obtain ⟨chain, hsame, hload⟩ := exists_mapM_loadCertificate
      (fun extra hextra => hstored extra (List.mem_cons_of_mem c hextra))
      (((KeyStore.certificates_perm left).append_left path).trans hperm)
    refine ⟨chain, hsame, ?_⟩
    rw [decodeStore_of_opens hstore hfound, KeyStore.key?_found, Outcome.bind_eq_ok_iff]
    refine ⟨chain, hload, ?_⟩
    rw [Outcome.bind_eq_ok_iff]
    refine ⟨c, hstored c List.mem_cons_self, ?_⟩
    rw [friendlyName_eq hsubject]
    rfl

/-! ## Detection -/

/-- Certificates that need no order are the same in any order. -/
theorem sameChain_of_perm {old new : List Certificate} (h : old.Perm new) :
    sameChain false old new = true := by
  have hperm := (List.mergeSort_perm (old.map Certificate.encoded) Bytes.le).trans
    ((h.map Certificate.encoded).trans (List.mergeSort_perm _ Bytes.le).symm)
  exact beq_iff_eq.2 (hperm.eq_of_pairwise (fun _ _ _ _ => List.le_antisymm)
    (Bytes.pairwise_mergeSort _) (Bytes.pairwise_mergeSort _))

theorem mem_intercalate_of_head {ch : Char} {separator s : String} {rest : List String}
    (h : ch ∈ s.toList) : ch ∈ (separator.intercalate (s :: rest)).toList := by
  cases rest with
  | nil => rwa [String.intercalate_singleton]
  | cons t rest =>
    rw [String.intercalate_cons_cons, String.toList_append, String.toList_append]
    exact List.mem_append_left _ (List.mem_append_left _ h)

/-- The text of a name is no alias of the chain: it has an equals sign, or no letters. -/
theorem Name.text_ne_chainLabel (n : Name) (i : Nat) : n.text ≠ chainLabel i := by
  intro heq
  have hequals : '=' ∉ (chainLabel i).toList := by
    rw [chainLabel, String.toList_append, List.mem_append, not_or]
    refine ⟨by decide, fun hmem => ?_⟩
    exact absurd (Text.isDigit_of_mem_padded hmem) (by decide)
  have hhead : (chainLabel i).toList.head? = some 'c' := by
    rw [chainLabel, String.toList_append]
    rfl
  rw [← heq] at hequals hhead
  obtain ⟨_ | ⟨set, rest⟩⟩ := n
  · cases hhead
  · cases set with
    | nil =>
      cases rest with
      | nil => cases hhead
      | cons next rest =>
        have htext : Name.text ⟨[] :: next :: rest⟩ = ", " ++ Name.text ⟨next :: rest⟩ := by
          rw [text, List.map_cons, List.map_nil, String.intercalate_nil, List.map_cons,
            String.intercalate_cons_cons, String.empty_append]
          rfl
        rw [htext, String.toList_append] at hhead
        exact absurd (Option.some.inj hhead) (by decide)
    | cons e set =>
      refine hequals (mem_intercalate_of_head (mem_intercalate_of_head ?_))
      rw [Name.entryText, String.toList_append, String.toList_append]
      exact List.mem_append_left _ (List.mem_append_right _ (by decide))

/-- What a certificate is put into a store with. -/
def storeOptions (d : Desired) (key : Option PrivateKey) : EncodeOptions :=
  { chain := d.chain, embedKey := key, passphrase := d.passphrase, friendlyName := d.friendlyName }

/-- A store holds what was put into it, and nothing about the store itself is reported. -/
structure Settles (b : Backend) (c : Certificate) (d : Desired) (a : LoadedArtifact) : Prop where
  certificate : a.certificate = c
  chain : a.chain.Perm d.chain
  friendlyName (expiration : Bool) : (d.differences b a expiration).pkcs12FriendlyName = false
  passphrase (expiration : Bool) : (d.differences b a expiration).pkcs12Passphrase = false
  additionalCerts (expiration : Bool) : (d.differences b a expiration).additionalCerts = false

variable {b : Backend} {d : Desired} {key : Option PrivateKey}

theorem settles_iff {a : LoadedArtifact} (hencoding : d.encoding = .pkcs12)
    (hstore : a.encoding = .pkcs12) :
    Settles b c d a ↔ a.certificate = c ∧ a.chain.Perm d.chain ∧ a.friendlyName = d.friendlyName ∧
      a.isProtected = d.passphrase.isSome := by
  constructor
  · rintro ⟨hcertificate, hchain, hname, hpassphrase, -⟩
    have hname := hname false
    have hpassphrase := hpassphrase false
    simp only [Desired.differences, hencoding, hstore, beq_self_eq_true, Bool.and_self,
      Bool.true_and, bne_eq_false_iff_eq] at hname hpassphrase
    exact ⟨hcertificate, hchain, hname, hpassphrase⟩
  · rintro ⟨hcertificate, hchain, hname, hpassphrase⟩
    have hsame : sameChain Encoding.pkcs12.keepsOrder a.chain d.chain = true :=
      sameChain_of_perm hchain
    refine ⟨hcertificate, hchain, fun _ => ?_, fun _ => ?_, fun _ => ?_⟩
    · simp [Desired.differences, hname]
    · simp [Desired.differences, hpassphrase]
    · simp only [Desired.differences, hstore, hsame, Bool.not_true]

/-- The friendly name is found unless it is the subject. -/
theorem friendlyName_found_iff (name : Option String) :
    (if name.getD subject = subject then none else name) = name ↔ name ≠ some subject := by
  cases name with
  | none => simp
  | some given => by_cases hgiven : given = subject <;> simp [hgiven]

/-- The passphrase is missed if it is empty. -/
theorem passphrase_found_iff (passphrase : Option String) :
    (passphrase.getD "" != "") = passphrase.isSome ↔ passphrase ≠ some "" := by
  cases passphrase with
  | none => simp
  | some given => by_cases hgiven : given = "" <;> simp [hgiven]

/-- **A store settles, unless its friendly name is the subject or an alias of the chain, or its
passphrase is the empty text.** -/
theorem store_settles_iff (hencoding : d.encoding = .pkcs12)
    (hstored : ∀ extra ∈ c :: d.chain, IsStored extra)
    (h : encodeStore m c (storeOptions d key) = .ok data) :
    (∃ a, decodeStore data d.passphrase = .ok a ∧ Settles b c d a) ↔
      d.friendlyName ≠ subjectText? c.encoded ∧ d.passphrase ≠ some "" ∧
        ∀ i < d.chain.length, d.friendlyName ≠ some (chainLabel i) := by
  obtain ⟨_, subject, -, hsubject, -⟩ := encodeStore_eq_ok_iff.1 h
  obtain ⟨htaken, hfree⟩ := decodeStore_encodeStore hstored h hsubject
  have hlabel : ∀ i, d.friendlyName.getD subject = chainLabel i ↔
      d.friendlyName = some (chainLabel i) := by
    intro i
    cases hname : d.friendlyName with
    | none =>
      obtain ⟨f, -, hf⟩ := Option.map_eq_some_iff.1 hsubject
      refine iff_of_false (fun heq => ?_) nofun
      rw [Option.getD_none, ← hf] at heq
      exact f.subject.text_ne_chainLabel i heq
    | some given => rw [Option.getD_some, Option.some_inj]
  rw [hsubject]
  constructor
  · rintro ⟨a, hread, hsettles⟩
    have hnone : ∀ i < d.chain.length, d.friendlyName ≠ some (chainLabel i) := by
      intro i hi hname
      have hfail := htaken ⟨i, hi, (hlabel i).2 hname⟩
      cases hread.symm.trans hfail
    obtain ⟨chain, -, hfound⟩ := hfree fun i hi heq => hnone i hi ((hlabel i).1 heq)
    obtain rfl := Except.ok.inj (hfound.symm.trans hread)
    obtain ⟨-, -, hname, hpassphrase⟩ := (settles_iff hencoding rfl).1 hsettles
    exact ⟨(friendlyName_found_iff _).1 hname, (passphrase_found_iff _).1 hpassphrase, hnone⟩
  · rintro ⟨hname, hpassphrase, hnone⟩
    obtain ⟨chain, hperm, hfound⟩ := hfree fun i hi heq => hnone i hi ((hlabel i).1 heq)
    refine ⟨_, hfound, (settles_iff hencoding rfl).2 ⟨rfl, hperm, ?_, ?_⟩⟩
    · exact (friendlyName_found_iff _).2 hname
    · exact (passphrase_found_iff _).2 hpassphrase

/-! ## The store of a site -/

theorem Sha1.length_digest (b : Bytes) : (Sha1.digest b).length = 20 := by
  simp [Sha1.digest, Bytes.ofWord32, Bytes.length_ofNatWidth]

/-- A store of a few small bags is written. -/
theorem exists_encodeStore {key : PrivateKey} (m : Moment) (hkey : o.embedKey = some key)
    (hsubject : subjectText? c.encoded = some subject)
    (hreadable : ∀ extra ∈ o.chain, (subjectText? extra.encoded).isSome = true)
    (hpassphrase : isFirstPlane (o.passphrase.getD "") = true)
    (hlabels : ∀ e ∈ (storeFor c o key subject).entries, isFirstPlane e.1 = true)
    (hsmall : ∀ b ∈ (storeFor c o key subject).bagsOf, b.IsSmall)
    (hcount : (storeFor c o key subject).bagsOf.length ≤ 10) :
    ∃ data, encodeStore m c o = .ok data :=
  ⟨_, encodeStore_eq_ok_iff.2 ⟨key, subject, hkey, hsubject, hreadable, hpassphrase, hlabels,
    KeyStore.length_encode_lt m _ hsmall hcount, rfl⟩⟩

def siteKey : PrivateKey where
  kind := .x509
  algorithm := .ed25519
  encoded := seqOf [nat 0, keyIdentifierOf .ed25519, octets (octets (List.replicate 32 7))]

/-- The certificate of a site with its issuer, under a friendly name. -/
def siteDesired (name : String) : Desired where
  draft := default
  encoding := .pkcs12
  chain := [siteIssuer]
  friendlyName := some name
  passphrase := some "secret"

theorem storeFor_siteDesired (c : Certificate) (name subject : String) :
    storeFor c (storeOptions (siteDesired name) (some siteKey)) siteKey subject =
      storeOf siteKey.encoded c.encoded name [siteIssuer.encoded] := rfl

theorem isStored_siteDesired (name : String) :
    ∀ extra ∈ siteCertificate :: (siteDesired name).chain, IsStored extra := by
  intro extra hextra
  refine isStored_site extra ?_
  rcases List.mem_cons.1 hextra with rfl | hextra
  · exact List.mem_cons_self
  · rw [List.mem_singleton.1 hextra]
    exact List.mem_cons_of_mem _ List.mem_cons_self

theorem subjectText?_site : subjectText? siteCertificate.encoded = some "CN=www" ∧
    subjectText? siteIssuer.encoded = some "CN=ca" := by
  decide +kernel

theorem isReadable_siteIssuer :
    ∀ extra ∈ [siteIssuer], (subjectText? extra.encoded).isSome = true := by
  rw [List.forall_mem_singleton, subjectText?_site.2]
  rfl

theorem chainLabel_zero : chainLabel 0 = "chain-000" := by
  decide

theorem chainItems_siteIssuer :
    chainItems [siteIssuer.encoded] = [("chain-000", siteIssuer.encoded)] := by
  rw [← chainLabel_zero]
  rfl

theorem size_site : siteCertificate.encoded.length ≤ 1000 ∧ siteIssuer.encoded.length ≤ 1000 ∧
    siteKey.encoded.length ≤ 1000 := by
  decide +kernel

theorem isSmall_siteIssuer : (KeyStore.chainBag ("chain-000", siteIssuer.encoded)).IsSmall where
  content := size_site.2.1
  label := by decide
  keyId := nofun

/-- It is written under any short name, also under one that the chain takes. -/
theorem exists_encodeStore_site {name : String} (m : Moment) (hplane : isFirstPlane name = true)
    (hshort : (Pkcs12Derivation.utf16 name).length ≤ 100) :
    ∃ data, encodeStore m siteCertificate (storeOptions (siteDesired name) (some siteKey)) =
      .ok data := by
  have hlabels : ∀ x ∈ chainItems [siteIssuer.encoded], isFirstPlane x.1 = true := by
    rw [chainItems_siteIssuer]
    decide
  have hchain : ∀ x ∈ chainItems [siteIssuer.encoded], (KeyStore.chainBag x).IsSmall := by
    rw [chainItems_siteIssuer]
    exact List.forall_mem_singleton.2 isSmall_siteIssuer
  have hcount : (chainItems [siteIssuer.encoded]).length = 1 := rfl
  have hown : ∀ content : BagContent, BagContent.size content ≤ 1000 →
      Bag.IsSmall ⟨content, some name, some (Sha1.digest siteCertificate.encoded)⟩ := by
    intro content hcontent
    refine ⟨hcontent, hshort, fun id hid => ?_⟩
    rw [← Option.some.inj hid, Sha1.length_digest]
  have hpassphrase : isFirstPlane "secret" = true := by decide
  refine exists_encodeStore m rfl subjectText?_site.1 isReadable_siteIssuer hpassphrase ?_ ?_ ?_ <;>
    rw [storeFor_siteDesired] <;>
    by_cases hname : name ∈ (chainItems [siteIssuer.encoded]).map Prod.fst
  · rw [entries_storeOf_taken hname]
    exact List.forall_mem_map.2 hlabels
  · rw [entries_storeOf hname]
    exact List.forall_mem_cons.2 ⟨hplane, List.forall_mem_map.2 hlabels⟩
  · rw [KeyStore.bagsOf_storeOf_taken hname]
    exact List.forall_mem_map.2 hchain
  · rw [KeyStore.bagsOf_storeOf hname, List.forall_mem_cons, List.forall_mem_append,
      List.forall_mem_singleton]
    exact ⟨hown _ size_site.1, List.forall_mem_map.2 hchain, hown _ size_site.2.2⟩
  · rw [KeyStore.bagsOf_storeOf_taken hname, List.length_map, hcount]
    decide
  · rw [KeyStore.bagsOf_storeOf hname, List.length_cons, List.length_append, List.length_map,
      hcount, List.length_singleton]
    decide

theorem store_settles_under_www :
    ∃ data, (siteDesired "www").encoding = .pkcs12 ∧
      (∀ extra ∈ siteCertificate :: (siteDesired "www").chain, IsStored extra) ∧
      encodeStore ⟨.ofSeconds 0, []⟩ siteCertificate
        (storeOptions (siteDesired "www") (some siteKey)) = .ok data ∧
      ∃ a, decodeStore data (siteDesired "www").passphrase = .ok a ∧
        Settles .x509 siteCertificate (siteDesired "www") a := by
  obtain ⟨data, hdata⟩ := @exists_encodeStore_site "www" ⟨.ofSeconds 0, []⟩ (by decide) (by decide)
  refine ⟨data, rfl, isStored_siteDesired _, hdata,
    (store_settles_iff rfl (isStored_siteDesired _) hdata).2 ⟨?_, by decide, ?_⟩⟩
  · rw [subjectText?_site.1]
    decide
  · intro i hi heq
    obtain rfl : i = 0 := by
      have hone : (siteDesired "www").chain.length = 1 := rfl
      omega
    rw [chainLabel_zero] at heq
    exact absurd heq (by decide)

/-- A friendly name that is an alias of the chain loses the key. -/
theorem store_unsettled :
    ¬ ∀ (b : Backend) (m : Moment) (c : Certificate) (d : Desired) (key : Option PrivateKey)
      (data : Bytes), d.encoding = .pkcs12 → (∀ extra ∈ c :: d.chain, IsStored extra) →
        encodeStore m c (storeOptions d key) = .ok data →
          ∃ a, decodeStore data d.passphrase = .ok a ∧ Settles b c d a := by
  intro hall
  obtain ⟨data, hdata⟩ :=
    @exists_encodeStore_site "chain-000" ⟨.ofSeconds 0, []⟩ (by decide) (by decide)
  obtain ⟨a, hread, -⟩ := hall .x509 _ _ _ _ _ rfl (isStored_siteDesired _) hdata
  have htaken : ∃ i < (siteDesired "chain-000").chain.length, "chain-000" = chainLabel i :=
    ⟨0, by decide, chainLabel_zero.symm⟩
  have hfail := (decodeStore_encodeStore (isStored_siteDesired "chain-000") hdata
    subjectText?_site.1).1 htaken
  cases hread.symm.trans hfail

end X509
end CertAuthority
