import CertAuthority.Proofs.Asn1.Containers
import CertAuthority.Proofs.Bytes.Hex
import CertAuthority.Proofs.Net.Addresses
import CertAuthority.X509.Extension

/-!
# General names and their texts

The names that can be requested are read back as they were written, and no other name has the text
of one of them.

* `GeneralName.IsRequestable` : hosts, mailboxes, resources and addresses;
* `GeneralName.parser_encode` : they are read back;
* `GeneralName.eq_of_text` : their texts tell them from all names;
* `alternativeNames?` : the names in the value of an extension, and
  `alternativeNames?_eq_of_canonicalValue` : its canonical value tells requested names from others.
-/

namespace CertAuthority.X509

open Der

namespace GeneralName

/-- A host, a mailbox, a resource or an address of four or sixteen bytes. -/
def IsRequestable : GeneralName → Prop
  | .dns _ | .email _ | .uri _ => True
  | .address b => b.length = 4 ∨ b.length = 16
  | _ => False

/-! ## Reading back -/

/-- What a name is read as where an element with its number was written. -/
theorem parser_implicit {number : Nat} {content rest : Bytes} {r : Rules} {n : GeneralName}
    (ht : tagImplicit number &&& 0x1f ≠ 0x1f) (hl : (implicit number content).length < bitLimit 64)
    (hn : ofElement? ⟨tagImplicit number, content, element (tagImplicit number) content⟩ = some n) :
    parser r (implicit number content ++ rest) = some (n, rest) := by
  rw [parser, bind_eq_some_iff]
  refine ⟨_, _, anyElement_element ht (Nat.lt_of_le_of_lt length_le_element hl), ?_⟩
  rw [hn]
  rfl

theorem parser_encode {n : GeneralName} (hn : n.IsRequestable)
    (hl : n.encode.length < bitLimit 64) (r : Rules) (rest : Bytes) :
    parser r (n.encode ++ rest) = some (n, rest) := by
  have hclass : ∀ number ∈ [1, 2, 6, 7], ¬(tagImplicit number &&& 0xc0 ≠ 0x80) ∧
      (tagImplicit number &&& 0x1f).toNat = number := by decide
  cases n with
  | email s =>
    obtain ⟨hcontext, hnumber⟩ := hclass 1 (by decide)
    refine parser_implicit (by decide) hl ?_
    simp only [ofElement?, if_neg hcontext, hnumber, Bytes.text?_ofText, Option.map_some]
  | dns s =>
    obtain ⟨hcontext, hnumber⟩ := hclass 2 (by decide)
    refine parser_implicit (by decide) hl ?_
    simp only [ofElement?, if_neg hcontext, hnumber, Bytes.text?_ofText, Option.map_some]
  | uri s =>
    obtain ⟨hcontext, hnumber⟩ := hclass 6 (by decide)
    refine parser_implicit (by decide) hl ?_
    simp only [ofElement?, if_neg hcontext, hnumber, Bytes.text?_ofText, Option.map_some]
  | address b =>
    obtain ⟨hcontext, hnumber⟩ := hclass 7 (by decide)
    refine parser_implicit (by decide) hl ?_
    simp only [ofElement?, if_neg hcontext, hnumber]
  | _ => exact hn.elim

/-! ## Texts -/

/-- The text of an address of any length. -/
def addressText (b : Bytes) : String :=
  match Address.ofBytes? b with
  | some a => a.print
  | none => Hex.encode b

theorem text_address (b : Bytes) : (GeneralName.address b).text = "IP:" ++ addressText b := by
  cases h : Address.ofBytes? b <;> simp only [text, addressText, h]

/-- No hex digit stands between the parts of an address. -/
theorem print_ne_encode {a : Address} (ha : a.IsValid) (b : Bytes) : a.print ≠ Hex.encode b := by
  intro h
  obtain ⟨c, hmem, hc⟩ := Address.exists_mem_print ha
  rw [h] at hmem
  obtain ⟨n, hn, rfl⟩ := Hex.exists_digit_of_mem_encode hmem
  have hdigit : ∀ n < 16, ¬(Hex.digit n = '.' ∨ Hex.digit n = ':') := by decide
  exact hdigit n hn hc

/-- An address that is shown as one is shown like no other bytes. -/
theorem eq_of_addressText {b b' : Bytes} (hb : b.length = 4 ∨ b.length = 16)
    (h : addressText b = addressText b') : b = b' := by
  obtain ⟨a, ha⟩ := Option.isSome_iff_exists.1 (Address.isSome_ofBytes?_iff.2 hb)
  have hvalid := Address.isValid_of_ofBytes? ha
  cases ha' : Address.ofBytes? b' with
  | none =>
    simp only [addressText, ha, ha'] at h
    exact absurd h (print_ne_encode hvalid b')
  | some a' =>
    simp only [addressText, ha, ha'] at h
    have hread := Address.parse?_print hvalid
    rw [h, Address.parse?_print (Address.isValid_of_ofBytes? ha')] at hread
    rw [← Address.toBytes_of_ofBytes? ha, ← Address.toBytes_of_ofBytes? ha',
      Option.some.inj hread]

/-- The first character of a text tells the form of the name. -/
def mark : GeneralName → Char
  | .dns _ => 'D'
  | .email _ => 'e'
  | .uri _ => 'U'
  | .address _ => 'I'
  | _ => 'o'

theorem head?_text (n : GeneralName) : n.text.toList.head? = some n.mark := by
  cases n with
  | address b =>
    rw [text_address, String.toList_append]
    rfl
  | _ =>
    simp only [text, String.toList_append]
    rfl

/-- A name that can be requested has its text to itself. -/
theorem eq_of_text {n n' : GeneralName} (hn : n.IsRequestable) (h : n.text = n'.text) : n = n' := by
  have hmark : n.mark = n'.mark := by
    have hhead := head?_text n
    rw [h, head?_text] at hhead
    exact (Option.some.inj hhead).symm
  cases n with
  | dns s =>
    cases n' with
    | dns s' => exact congrArg _ ((String.append_right_inj _).1 h)
    | _ => simp [mark] at hmark
  | email s =>
    cases n' with
    | email s' => exact congrArg _ ((String.append_right_inj _).1 h)
    | _ => simp [mark] at hmark
  | uri s =>
    cases n' with
    | uri s' => exact congrArg _ ((String.append_right_inj _).1 h)
    | _ => simp [mark] at hmark
  | address b =>
    cases n' with
    | address b' =>
      rw [text_address, text_address] at h
      exact congrArg _ (eq_of_addressText hn ((String.append_right_inj _).1 h))
    | _ => simp [mark] at hmark
  | _ => exact hn.elim

theorem eq_of_map_text {names names' : List GeneralName} (hnames : ∀ n ∈ names, n.IsRequestable)
    (h : names.map text = names'.map text) : names = names' := by
  induction names generalizing names' with
  | nil => exact (List.map_eq_nil_iff.1 h.symm).symm
  | cons n names ih =>
    cases names' with
    | nil => cases h
    | cons n' names' =>
      obtain ⟨hhead, htail⟩ := List.cons.inj h
      rw [List.forall_mem_cons] at hnames
      rw [eq_of_text hnames.1 hhead, ih hnames.2 htail]

end GeneralName

/-! ## The names of an extension -/

/-- The names in the value of an alternative name extension, if it can be read. -/
def alternativeNames? (value : Bytes) : Option (List GeneralName) :=
  Parser.parse? (do within generalNames (← tagged tagSequence)) .tolerant value

theorem readValue?_subjectAltName (value : Bytes) :
    readValue? .subjectAltName value =
      (alternativeNames? value).map fun names => .ofTokens (names.map (·.text)) := by
  have hparser : subjectAltName = (fun names => .ofTokens (names.map (·.text))) <$>
      (do within generalNames (← tagged tagSequence)) := by
    rw [subjectAltName, map_eq_pure_bind, bind_assoc]
  change subjectAltName.parse? .tolerant value = _
  rw [hparser, parse?_map]
  rfl

/-- The names of a request are read back. -/
theorem alternativeNames?_seqOf {names : List GeneralName}
    (hnames : ∀ n ∈ names, n.IsRequestable)
    (hl : (seqOf (names.map GeneralName.encode)).length < bitLimit 64) :
    alternativeNames? (seqOf (names.map GeneralName.encode)) = some names := by
  have hcontent := Nat.lt_of_le_of_lt length_le_element hl
  have hread := manyToEnd_seqOf (p := GeneralName.parser) (r := .tolerant) (v := id) rfl
    (fun n hn rest => GeneralName.parser_encode (hnames n hn) (Nat.lt_of_le_of_lt
      (List.sublist_flatten_of_mem (List.mem_map_of_mem hn)).length_le hcontent) .tolerant rest)
    hcontent []
  rw [List.append_nil, List.map_id] at hread
  exact congrArg (Option.map Prod.fst) hread

theorem ofTokens_ne_bytes (ts : List String) (b : Bytes) :
    AttributeValue.ofTokens ts ≠ .bytes b := by
  match ts with
  | [] => exact nofun
  | [_] => exact nofun
  | _ :: _ :: _ => exact nofun

/-- One token and a list of tokens are told apart. -/
theorem ofTokens_inj {ts ts' : List String} (h : AttributeValue.ofTokens ts = .ofTokens ts') :
    ts = ts' := by
  match ts, ts' with
  | [], [] => rfl
  | [], [_] => cases h
  | [], _ :: _ :: _ => cases h
  | [_], [] => cases h
  | [_], [_] => rw [AttributeValue.text.inj h]
  | [_], _ :: _ :: _ => cases h
  | _ :: _ :: _, [] => cases h
  | _ :: _ :: _, [_] => cases h
  | _ :: _ :: _, _ :: _ :: _ =>
    exact (List.map_inj_right fun _ _ => AttributeValue.text.inj).1 (AttributeValue.list.inj h)

/-- A value that shows the names of a request was read from just these names. -/
theorem alternativeNames?_eq_of_canonicalValue {value : Bytes} {names : List GeneralName}
    (hnames : ∀ n ∈ names, n.IsRequestable)
    (h : canonicalValue .subjectAltName value = .ofTokens (names.map (·.text))) :
    alternativeNames? value = some names := by
  have hvalue : canonicalValue .subjectAltName value =
      ((alternativeNames? value).map fun names => .ofTokens (names.map (·.text))).getD
        (.bytes value) := by
    rw [← readValue?_subjectAltName]
    rfl
  cases hread : alternativeNames? value with
  | none =>
    rw [hvalue, hread] at h
    exact absurd h.symm (ofTokens_ne_bytes _ _)
  | some names' =>
    rw [hvalue, hread] at h
    rw [GeneralName.eq_of_map_text hnames (ofTokens_inj h.symm)]

end CertAuthority.X509
