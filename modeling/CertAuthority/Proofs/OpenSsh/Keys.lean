import Mathlib.Data.List.TakeWhile
import CertAuthority.OpenSsh.Backend
import CertAuthority.Proofs.Bytes.Base64
import CertAuthority.Proofs.OpenSsh.Wire
import CertAuthority.Proofs.Text.Basic

/-!
# Keys that were written are read back

* `KeyLine.parse?_print` : a line is split into the words it was printed from, which a file keeps up
  to blanks at its end (`KeyLine.fileText_print`);
* `SshKey.IsValid` : the byte strings fit the family, and their lengths fit the format. It holds of
  every key that was read, be it from a line (`SshKey.isValid_of_load`) or from the public half of
  a container (`isValid_of_sectionOf`);
* `SshKey.load_line` : a valid key is read from its own line, so a handle stands for one key
  (`SshKey.exists_of_loadPublicKey`).
-/

namespace CertAuthority

/-! ## Trimming -/

namespace Text

variable {cs tail : List Char}

/-- Blanks at the end are cut off, and nothing else. -/
theorem trimEndChars_append (hne : cs ≠ []) (h : ∀ c ∈ cs, isBlank c = false)
    (htail : ∀ c ∈ tail, isBlank c = true) (front : List Char) :
    trimEndChars (front ++ cs ++ tail) = front ++ cs := by
  obtain rfl | ⟨init, c, rfl⟩ := List.eq_nil_or_concat cs
  · exact absurd rfl hne
  · have hc : ¬ isBlank c = true := by simp [h c (by simp)]
    have hreverse : (front ++ init.concat c ++ tail).reverse =
        tail.reverse ++ c :: (front ++ init).reverse := by simp
    rw [trimEndChars, hreverse, List.dropWhile_append_of_pos (by simpa using htail),
      List.dropWhile_cons_of_neg hc]
    simp

end Text

namespace OpenSsh

open Wire

/-! ## Lines -/

namespace KeyLine

variable {name tail : String} {content b : Bytes} {cs rest : List Char}
theorem toNat_of_isWordChar {c : Char} (h : isWordChar c = true) :
    43 ≤ c.toNat ∧ c.toNat ≤ 122 := by
  have hle (a b : Char) : a ≤ b ↔ a.toNat ≤ b.toNat := Iff.rfl
  simp only [isWordChar, Bool.or_eq_true, Bool.and_eq_true, decide_eq_true_eq, hle,
    List.contains_iff_mem, List.mem_cons, List.not_mem_nil, or_false] at h
  obtain ((h | h) | h) | h | h | h | h | h | h := h
  · exact ⟨Nat.le_trans (by decide) h.1, h.2⟩
  · exact ⟨Nat.le_trans (by decide) h.1, Nat.le_trans h.2 (by decide)⟩
  · exact ⟨Nat.le_trans (by decide) h.1, Nat.le_trans h.2 (by decide)⟩
  all_goals subst h; decide

theorem not_isBlank_of_isWordChar {c : Char} (h : isWordChar c = true) :
    Text.isBlank c = false := by
  obtain ⟨hlow, hhigh⟩ := toNat_of_isWordChar h
  simp [Text.isBlank]
  omega

theorem isWordChar_of_mem_encode (b : Bytes) :
    ∀ c ∈ (Base64.encode b).toList, isWordChar c = true :=
  Base64.forall_mem_encode (by decide) (by decide) b

theorem word?_append_space (h : ∀ c ∈ cs, isWordChar c = true) :
    word? (cs ++ ' ' :: rest) = some (cs, rest) := by
  have hspace : ¬ isWordChar ' ' = true := by decide
  rw [word?, List.dropWhile_append_of_pos h, List.takeWhile_append_of_pos h,
    List.dropWhile_cons_of_neg hspace, List.takeWhile_cons_of_neg hspace, List.append_nil]
  rfl

theorem word?_of_forall (h : ∀ c ∈ cs, isWordChar c = true) : word? cs = some (cs, []) := by
  rw [word?, List.dropWhile_eq_nil_iff.2 h]

theorem toList_print (name : String) (content : Bytes) :
    (print name content).toList = name.toList ++ ' ' :: (Base64.encode content).toList := by
  simp [print]

theorem toList_encode_ne_nil (h : content ≠ []) : (Base64.encode content).toList ≠ [] := by
  have hpos := List.length_pos_iff.2 h
  rw [← List.length_pos_iff, Base64.encode, String.toList_ofList, List.length_map,
    Base64.length_encodeBytes]
  omega

/-- A name is a word, short enough to be written. -/
structure IsName (s : String) : Prop where
  ne_nil : s.toList ≠ []
  isWordChar : s.toList.all KeyLine.isWordChar = true
  short : (Bytes.ofText s).length < bitLimit 32

-- the quantifier over characters is a list's, since deciding it otherwise goes over all of them
instance (s : String) : Decidable (IsName s) :=
  decidable_of_iff (s.toList ≠ [] ∧ s.toList.all KeyLine.isWordChar = true ∧
      (Bytes.ofText s).length < bitLimit 32)
    ⟨fun h => ⟨h.1, h.2.1, h.2.2⟩, fun h => ⟨h.1, h.2, h.3⟩⟩

theorem IsName.isWordChar_of_mem {s : String} (h : IsName s) :
    ∀ c ∈ s.toList, KeyLine.isWordChar c = true :=
  List.all_eq_true.1 h.isWordChar

theorem trimEndChars_print (hcontent : content ≠ []) {tail : List Char}
    (htail : ∀ c ∈ tail, Text.isBlank c = true) :
    Text.trimEndChars ((print name content).toList ++ tail) = (print name content).toList := by
  have hsplit : (print name content).toList =
      (name.toList ++ [' ']) ++ (Base64.encode content).toList := by
    simp [toList_print]
  rw [hsplit]
  exact Text.trimEndChars_append (toList_encode_ne_nil hcontent)
    (fun c hc => not_isBlank_of_isWordChar (isWordChar_of_mem_encode content c hc)) htail _

variable (hname : IsName name) (hcontent : content ≠ [])
include hname hcontent

theorem trim_print (htail : ∀ c ∈ tail.toList, Text.isBlank c = true) :
    Text.trim (print name content ++ tail) = print name content := by
  obtain ⟨c, rest, hcons⟩ := List.exists_cons_of_ne_nil hname.ne_nil
  have hc : Text.isBlank c = false :=
    not_isBlank_of_isWordChar (hname.isWordChar_of_mem c (by simp [hcons]))
  have hstart : Text.trimStartChars ((print name content).toList ++ tail.toList) =
      (print name content).toList ++ tail.toList := by
    rw [toList_print, hcons]
    exact Text.trimStartChars_cons hc
  rw [Text.trim, Text.trimChars, String.toList_append, hstart,
    trimEndChars_print hcontent htail, String.ofList_toList]

/-- A line is split into the words that were printed. -/
theorem parse?_print : parse? (print name content) = some ⟨name, content, ""⟩ := by
  have hblank : Text.trimEndChars (print name content).toList = (print name content).toList := by
    simpa using @trimEndChars_print name content hcontent [] (by simp)
  rw [parse?, hblank, toList_print, word?_append_space hname.isWordChar_of_mem]
  simp only [Option.bind_eq_bind, Option.bind_some,
    word?_of_forall (isWordChar_of_mem_encode content)]
  rw [if_neg (by simp [hname.ne_nil, toList_encode_ne_nil hcontent])]
  simp [Base64.decodeText?_encode]

/-- The line in a file, with or without blanks after it. -/
theorem fileText_print (what : String) (htail : ∀ c ∈ tail.toList, Text.isBlank c = true) :
    fileText what (Bytes.ofText (print name content ++ tail)) = .ok (print name content) := by
  rw [fileText, Bytes.text?_ofText]
  simp only [trim_print hname hcontent htail]

end KeyLine

/-! ## Families -/

namespace KeyFamily

variable {f : KeyFamily} {fields : List Bytes}

theorem mem_all (f : KeyFamily) : f ∈ all := by
  cases f with
  | ecdsa c => cases c <;> decide
  | _ => decide

theorem ofName?_name (f : KeyFamily) : ofName? f.name = some f := by
  have hall : ∀ f ∈ all, ofName? f.name = some f := by decide
  exact hall f (mem_all f)

theorem ofCertificateName?_certificateName (f : KeyFamily) :
    ofCertificateName? f.certificateName = some f := by
  have hall : ∀ f ∈ all, ofCertificateName? f.certificateName = some f := by decide
  exact hall f (mem_all f)

theorem isName_name (f : KeyFamily) : KeyLine.IsName f.name := by
  have hall : ∀ f ∈ all, KeyLine.IsName f.name := by with_unfolding_all decide
  exact hall f (mem_all f)

theorem isName_certificateName (f : KeyFamily) : KeyLine.IsName f.certificateName := by
  have hall : ∀ f ∈ all, KeyLine.IsName f.certificateName := by with_unfolding_all decide
  exact hall f (mem_all f)

theorem length_of_accepts (h : f.accepts fields = true) : fields.length = f.arity := by
  unfold accepts at h
  split at h
  all_goals first
    | rfl
    | exact beq_iff_eq.1 (Bool.and_eq_true_iff.1 h).1
    | cases h

end KeyFamily

/-! ## Keys -/

namespace SshKey

variable {k : SshKey} {f : KeyFamily} {b b' : Bytes} {p : PublicKey}

/-- The byte strings fit the family, and their lengths fit the format. -/
structure IsValid (k : SshKey) : Prop where
  accepts : k.family.accepts k.fields = true
  short : ∀ b ∈ k.fields, b.length < bitLimit 32

theorem isValid_of_fieldsParser (h : fieldsParser f b = some (k, b')) : k.IsValid := by
  obtain ⟨fields, mid, hfields, h⟩ := bind_eq_some_iff.1 h
  split at h
  · rename_i haccepts
    obtain ⟨rfl, -⟩ := Prod.mk.inj (Option.some.inj h)
    exact ⟨haccepts, (of_takeStrings hfields).2⟩
  · cases h

theorem isValid_of_read (h : parser b = some (k, b')) : k.IsValid := by
  obtain ⟨_, _, -, h⟩ := bind_eq_some_iff.1 h
  obtain ⟨_, _, -, h⟩ := bind_eq_some_iff.1 h
  exact isValid_of_fieldsParser h

theorem isValid_of_load (h : load b = .ok k) : k.IsValid := by
  simp only [load, Outcome.bind_eq_ok_iff, Outcome.ofOption_eq_ok_iff] at h
  obtain ⟨s, -, h⟩ := h
  obtain ⟨l, -, h⟩ := Option.bind_eq_some_iff.1 h
  obtain ⟨k', hparse, h⟩ := Option.bind_eq_some_iff.1 h
  split at h
  · obtain rfl := Option.some.inj h
    exact isValid_of_read (parseAll?_eq_some_iff.1 hparse)
  · cases h

theorem reads_fieldsParser (h : k.IsValid) : Reads (fieldsParser k.family) k.encodeFields k := by
  rw [fieldsParser, ← KeyFamily.length_of_accepts h.accepts]
  exact (Reads.strings h.short).bind_pure (if_pos h.accepts)

theorem reads_encode (h : k.IsValid) : Reads parser k.encode k :=
  (Reads.text (KeyFamily.isName_name _).short).bind
    (.ofOption_bind (KeyFamily.ofName?_name _) (reads_fieldsParser h))

theorem encode_ne_nil (k : SshKey) : k.encode ≠ [] :=
  List.append_ne_nil_of_left_ne_nil (text_ne_nil _) _

theorem ofLine?_line (h : k.IsValid) : ofLine? k.line = some k := by
  rw [ofLine?, line, KeyLine.parse?_print (KeyFamily.isName_name _) k.encode_ne_nil]
  simp [(reads_encode h).parseAll?]

/-- A key is read from its own line, whatever blanks come after it. -/
theorem load_line_append (h : k.IsValid) {tail : String}
    (htail : ∀ c ∈ tail.toList, Text.isBlank c = true) :
    load (Bytes.ofText (k.line ++ tail)) = .ok k := by
  have htext : KeyLine.fileText "public key" (Bytes.ofText (k.line ++ tail)) = .ok k.line :=
    KeyLine.fileText_print (KeyFamily.isName_name _) k.encode_ne_nil "public key" htail
  simp only [load, Outcome.bind_eq_ok_iff, Outcome.ofOption_eq_ok_iff]
  exact ⟨_, htext, ofLine?_line h⟩

theorem load_line (h : k.IsValid) : load (Bytes.ofText k.line) = .ok k := by
  have hload := @load_line_append _ h "" (by simp)
  rwa [String.append_empty] at hload

theorem handle_eq_ok_iff :
    k.handle = .ok p ↔ ∃ a, k.family.algorithm? = some a ∧ p = ⟨.ssh, a, Bytes.ofText k.line⟩ := by
  simp only [handle, algorithm, Outcome.bind_eq_ok_iff, Outcome.ofOption_eq_ok_iff]
  exact exists_congr fun a => and_congr_right fun _ =>
    ⟨fun h => (Except.ok.inj h).symm, fun h => h ▸ rfl⟩

/-- A handle that was loaded stands for a key, and the key is read from it. -/
theorem exists_of_loadPublicKey (h : Backend.ssh.loadPublicKey b = .ok p) :
    ∃ k : SshKey, k.IsValid ∧ k.handle = .ok p ∧ load p.encoded = .ok k := by
  obtain ⟨k, hload, hhandle⟩ := Outcome.bind_eq_ok_iff.1 h
  have hvalid := isValid_of_load hload
  obtain ⟨a, -, rfl⟩ := handle_eq_ok_iff.1 hhandle
  exact ⟨k, hvalid, hhandle, load_line hvalid⟩

end SshKey

/-- The handle of a key is the line of a valid one. -/
def IsHandle (p : PublicKey) : Prop := ∃ k : SshKey, k.IsValid ∧ k.handle = .ok p

theorem isHandle_of_loadPublicKey {b : Bytes} {p : PublicKey}
    (h : Backend.ssh.loadPublicKey b = .ok p) : IsHandle p := by
  obtain ⟨k, hvalid, hhandle, -⟩ := SshKey.exists_of_loadPublicKey h
  exact ⟨k, hvalid, hhandle⟩

theorem IsHandle.load_encoded {p : PublicKey} (h : IsHandle p) :
    ∃ k : SshKey, k.handle = .ok p ∧ SshKey.load p.encoded = .ok k := by
  obtain ⟨k, hvalid, hhandle⟩ := h
  obtain ⟨_, -, hp⟩ := SshKey.handle_eq_ok_iff.1 hhandle
  exact ⟨k, hhandle, by rw [hp]; exact SshKey.load_line hvalid⟩

/-- The key of a handle is loaded again from the line it is written in. -/
theorem loadPublicKey_encodePublicKey {p : PublicKey} (h : IsHandle p) :
    Backend.ssh.loadPublicKey (p.encoded ++ [10]) = .ok p := by
  obtain ⟨k, hvalid, hhandle⟩ := h
  obtain ⟨_, -, hp⟩ := SshKey.handle_eq_ok_iff.1 hhandle
  have hbreak : p.encoded ++ [10] = Bytes.ofText (k.line ++ "\n") := by
    have hlf : Bytes.ofText "\n" = [10] := by decide +kernel
    rw [Bytes.ofText_append, hlf, hp]
  refine Outcome.bind_eq_ok_iff.2 ⟨k, ?_, hhandle⟩
  rw [hbreak]
  exact SshKey.load_line_append hvalid (List.all_eq_true.1 (by decide))

/-! ## Private keys -/

variable {b b' : Bytes} {s : PrivateSection} {key : PrivateKey}

/-- The public half of a container, which is in the clear. -/
def PrivateKeyFile.publicKey : PrivateKeyFile → SshKey
  | .clear s => s.key.publicKey
  | .encrypted publicKey _ _ _ => publicKey

theorem publicKey_of_parseSection {publicKey : SshKey} {size : Nat}
    (h : PrivateSection.parse? publicKey size b = some s) : s.key.publicKey = publicKey := by
  obtain ⟨s', -, hsame⟩ := Option.bind_eq_some_iff.1 h
  split at hsame
  · obtain rfl := Option.some.inj hsame
    assumption
  · cases hsame

/-- The public half of a container is the one read before; its private half, if it is in the clear,
is a section that was read. -/
theorem of_bodyParser {cipher : Option FileCipher} {d : Option FileKeyDerivation}
    {publicKey : SshKey} {file : PrivateKeyFile}
    (h : PrivateKeyFile.bodyParser cipher d publicKey b = some (file, b')) :
    file.publicKey = publicKey ∧ ∀ s, file = .clear s →
      ∃ data, PrivateSection.parse? publicKey PrivateKeyFile.clearBlock data = some s := by
  obtain ⟨data, _, -, h⟩ := bind_eq_some_iff.1 h
  cases cipher with
  | some c =>
    obtain ⟨_, _, -, h⟩ := bind_eq_some_iff.1 h
    split at h
    · obtain ⟨rfl, -⟩ := Prod.mk.inj (Option.some.inj h)
      exact ⟨rfl, nofun⟩
    · exact nomatch h
  | none =>
    simp only at h
    split at h
    · exact nomatch h
    · obtain ⟨s, _, hsection, h⟩ := bind_eq_some_iff.1 h
      obtain ⟨rfl, -⟩ := Prod.mk.inj (Option.some.inj h)
      have hs := (ofOption_eq_some_iff.1 hsection).1
      refine ⟨publicKey_of_parseSection hs, fun s' hs' => ⟨data, ?_⟩⟩
      rwa [← PrivateKeyFile.clear.inj hs']

/-- The public half of a container is a key that was read. -/
theorem of_parse? {file : PrivateKeyFile} (h : PrivateKeyFile.parse? b = some file) :
    file.publicKey.IsValid ∧ ∀ s, file = .clear s →
      ∃ data, PrivateSection.parse? s.key.publicKey PrivateKeyFile.clearBlock data = some s := by
  obtain ⟨content, -, h⟩ := Option.bind_eq_some_iff.1 h
  rw [parseAll?_eq_some_iff] at h
  obtain ⟨_, _, -, h⟩ := bind_eq_some_iff.1 h
  obtain ⟨_, _, -, h⟩ := bind_eq_some_iff.1 h
  obtain ⟨_, _, -, h⟩ := bind_eq_some_iff.1 h
  obtain ⟨_, _, -, h⟩ := bind_eq_some_iff.1 h
  obtain ⟨publicKey, _, hkey, h⟩ := bind_eq_some_iff.1 h
  obtain ⟨_, hkey⟩ := of_inside hkey
  have hvalid := SshKey.isValid_of_read (parseAll?_eq_some_iff.1 hkey)
  have hbody {cipher : Option FileCipher} {d : Option FileKeyDerivation} {b b' : Bytes}
      (h : PrivateKeyFile.bodyParser cipher d publicKey b = some (file, b')) :
      file.publicKey.IsValid ∧ ∀ s, file = .clear s →
        ∃ data, PrivateSection.parse? s.key.publicKey PrivateKeyFile.clearBlock data = some s := by
    obtain ⟨rfl, hclear⟩ := of_bodyParser h
    refine ⟨hvalid, fun s hs => ?_⟩
    obtain ⟨data, hdata⟩ := hclear s hs
    exact ⟨data, by rwa [hs] at hdata⟩
  split at h
  · split at h
    · exact hbody h
    · obtain ⟨_, _, -, h⟩ := bind_eq_some_iff.1 h
      exact hbody h
  · cases h

theorem isValid_of_sectionOf (h : sectionOf key = .ok s) : s.key.publicKey.IsValid := by
  unfold sectionOf at h
  split at h
  · rename_i hfile
    obtain rfl := Except.ok.inj h
    exact (of_parse? hfile).1
  · cases h

theorem isHandle_of_derivePublicKey {p : PublicKey} (h : derivePublicKey key = .ok p) :
    IsHandle p := by
  obtain ⟨s, hs, hhandle⟩ := Outcome.bind_eq_ok_iff.1 h
  exact ⟨_, isValid_of_sectionOf hs, hhandle⟩

end OpenSsh
end CertAuthority
