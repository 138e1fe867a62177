import CertAuthority.Proofs.OpenSsh.Keys

/-!
# Certificates that were written are read back

* `SshKey.isWellFormed_of_verifies` : a signature that verifies has the shape of its algorithm;
* `SshCertificate.IsWritable` : what of a certificate the format can hold;
* `SshCertificate.reads_encode`, `SshCertificate.ofLine?_line` : such a certificate is read back
  from its bytes and from its line.
-/

namespace CertAuthority.OpenSsh

open Wire

/-! ## Signatures -/

theorem SshSignatureAlgorithm.find?_name (a : SshSignatureAlgorithm) :
    all.find? (·.name == a.name) = some a := by
  cases a with
  | ecdsa c => cases c <;> decide
  | _ => decide

theorem SshSignature.reads_encode {s : SshSignature} (hformed : s.isWellFormed = true)
    (hshort : s.encode.length < bitLimit 32) : Reads parser s.encode s :=
  .bind_short hshort (fun hpart => .text (lt_of_string hpart)) fun hpart =>
    .ofOption_bind s.algorithm.find?_name
      ((Reads.string (lt_of_string hpart)).bind_pure (if_pos hformed))

namespace SshKey

variable {k : SshKey} {message data : Bytes} {s : SshSignature}

theorem isWellFormed_of_verifiesPair {c : NistCurve} {curve : Curve} {h : HashAlgorithm}
    {point : Bytes} (hn : curve.n ≤ bitLimit (8 * c.size))
    (hv : verifiesPair curve h point message data = true) :
    SshSignature.isWellFormed ⟨.ecdsa c, data⟩ = true := by
  unfold verifiesPair at hv
  simp only [SshSignature.isWellFormed]
  cases hpair : SshSignature.pair? data with
  | none => simp [hpair] at hv
  | some p =>
    obtain ⟨r, t⟩ := p
    simp only [hpair, Option.any_some, Ecdsa.verify] at hv
    split at hv
    · cases hv
    · split at hv
      · rename_i hrange
        simp
        omega
      · cases hv

/-- A signature that verifies has the shape of its algorithm. -/
theorem isWellFormed_of_verifies (h : k.verifies message s = true) : s.isWellFormed = true := by
  unfold verifies at h
  obtain ⟨a, data⟩ := s
  split at h
  · rename_i halgorithm
    obtain rfl : a = .ed25519 := halgorithm
    unfold Ed25519.verify at h
    split at h
    · rename_i hlength
      exact beq_iff_eq.2 hlength.2
    · cases h
  · rename_i halgorithm
    obtain rfl : a = .ecdsa .p256 := halgorithm
    exact isWellFormed_of_verifiesPair (by decide +kernel) h
  · rename_i halgorithm
    obtain rfl : a = .ecdsa .p384 := halgorithm
    exact isWellFormed_of_verifiesPair (by decide +kernel) h
  · rename_i halgorithm
    obtain rfl : a = .rsaSha256 := halgorithm
    rfl
  · rename_i halgorithm
    obtain rfl : a = .rsaSha512 := halgorithm
    rfl
  · cases h

end SshKey

/-! ## Options -/

section

variable {o : String × String} {os : List (String × String)}

theorem optionBytes_ne_nil (o : String × String) : SshCertificate.optionBytes o ≠ [] :=
  List.append_ne_nil_of_left_ne_nil (text_ne_nil _) _

theorem parseAll?_optionValue {s : String} (h : (Bytes.ofText s).length < bitLimit 32) :
    parseAll? optionValue (if s = "" then [] else text s) = some s := by
  split
  · rename_i hs
    rw [hs]
    rfl
  · have hmore : (text s).isEmpty = false := by simp [text_ne_nil]
    rw [parseAll?_eq_some_iff, optionValue, bind_apply]
    simp only [atEnd, Option.bind_some, hmore, Bool.false_eq_true, if_false]
    exact parseAll?_eq_some_iff.1 (Reads.text h).parseAll?

theorem reads_optionParser (h : (SshCertificate.optionBytes o).length < bitLimit 32) :
    Reads optionParser (SshCertificate.optionBytes o) o := by
  refine .bind_short h (fun hpart => .text (lt_of_string hpart)) fun hpart =>
    (Reads.inside (lt_of_string hpart) (parseAll?_optionValue ?_)).bind_pure rfl
  by_cases hempty : o.2 = ""
  · rw [hempty]
    with_unfolding_all decide
  · rw [if_neg hempty] at hpart
    exact lt_of_string (lt_of_string hpart)

theorem reads_optionsParser (hascending : isAscending os = true)
    (hshort : (os.flatMap SshCertificate.optionBytes).length < bitLimit 32) :
    Reads optionsParser (string (os.flatMap SshCertificate.optionBytes)) os := by
  have hread (o : String × String) (ho : o ∈ os) :
      Reads optionParser (SshCertificate.optionBytes o) o :=
    reads_optionParser (Nat.lt_of_le_of_lt (length_le_flatMap ho) hshort)
  refine (Reads.inside hshort (many_flatMap ?_)).bind_pure (if_pos hascending)
  exact fun o ho => ⟨hread o ho, optionBytes_ne_nil o⟩

end

/-! ## Certificates -/

theorem reads_certTypeParser (t : CertType) :
    Reads certTypeParser (word32 (SshCertificate.certTypeCode t)) t := by
  cases t with
  | user => exact (Reads.word32 (by decide)).bind_pure rfl
  | host => exact (Reads.word32 (by decide)).bind_pure rfl

theorem reads_timeParser {t : Nat} (h : t < bitLimit 63) : Reads timeParser (word64 t) t :=
  (Reads.word64 (Nat.lt_trans h (by decide))).bind_pure (if_pos h)

namespace SshCertificate

variable {c : SshCertificate}

/-- What of a certificate the format can hold. -/
structure IsWritable (c : SshCertificate) : Prop where
  key : c.key.IsValid
  serial : c.serial < bitLimit 64
  validAfter : c.validAfter < bitLimit 63
  validBefore : c.validBefore < bitLimit 63
  options : isAscending c.options = true
  extensions : isAscending c.extensions = true
  authority : c.authority.IsValid
  signature : c.signature.isWellFormed = true
  short : c.encode.length < bitLimit 32

theorem reads_principals {names : List String}
    (hshort : (names.flatMap text).length < bitLimit 32) :
    Reads (inside (many takeText)) (string (names.flatMap text)) names := by
  refine Reads.inside hshort (many_flatMap fun name hname => ⟨Reads.text ?_, text_ne_nil name⟩)
  have hlength : (text name).length ≤ (names.flatMap text).length := length_le_flatMap hname
  exact lt_of_string (Nat.lt_of_le_of_lt hlength hshort)

/-- Each part is read in its turn; none is longer than the whole. -/
theorem reads_encode (h : c.IsWritable) : Reads parser c.encode c := by
  have hshort := h.short
  simp only [encode, signedPart, List.append_assoc] at hshort ⊢
  refine .bind_short hshort (fun hpart => .text (lt_of_string hpart)) fun hshort =>
    .ofOption_bind (KeyFamily.ofCertificateName?_certificateName _) ?_
  refine .bind_short hshort (fun hpart => .string (lt_of_string hpart)) fun hshort => ?_
  refine .bind_short hshort (fun _ => SshKey.reads_fieldsParser h.key) fun hshort => ?_
  refine .bind_short hshort (fun _ => .word64 h.serial) fun hshort => ?_
  refine .bind_short hshort (fun _ => reads_certTypeParser _) fun hshort => ?_
  refine .bind_short hshort (fun hpart => .text (lt_of_string hpart)) fun hshort => ?_
  refine .bind_short hshort (fun hpart => reads_principals (lt_of_string hpart)) fun hshort => ?_
  refine .bind_short hshort (fun _ => reads_timeParser h.validAfter) fun hshort => ?_
  refine .bind_short hshort (fun _ => reads_timeParser h.validBefore) fun hshort => ?_
  refine .bind_short hshort (fun hpart => reads_optionsParser h.options (lt_of_string hpart))
    fun hshort => ?_
  refine .bind_short hshort (fun hpart => reads_optionsParser h.extensions (lt_of_string hpart))
    fun hshort => ?_
  refine .bind_short hshort (fun hpart => .string (lt_of_string hpart)) fun hshort => ?_
  refine .bind_short hshort (fun hpart => .inside (lt_of_string hpart)
    (SshKey.reads_encode h.authority).parseAll?) fun hpart => ?_
  have hsignature := lt_of_string hpart
  exact (Reads.inside hsignature
    (SshSignature.reads_encode h.signature hsignature).parseAll?).bind_pure rfl

theorem encode_ne_nil (c : SshCertificate) : c.encode ≠ [] :=
  List.append_ne_nil_of_right_ne_nil _ (string_ne_nil _)

theorem ofLine?_line (h : c.IsWritable) : ofLine? c.line = some c := by
  rw [ofLine?, line, KeyLine.parse?_print (KeyFamily.isName_certificateName _) c.encode_ne_nil]
  simp [(reads_encode h).parseAll?]

/-- A file holds the line, with or without a line break after it. -/
theorem fileText_line (c : SshCertificate) (what tail : String)
    (htail : ∀ x ∈ tail.toList, Text.isBlank x = true) :
    KeyLine.fileText what (Bytes.ofText (c.line ++ tail)) = .ok c.line :=
  KeyLine.fileText_print (KeyFamily.isName_certificateName _) c.encode_ne_nil what htail

/-- The line has the name, a blank, and four bytes for every three that it stands for. -/
theorem length_line (c : SshCertificate) : (Bytes.ofText c.line).length =
    (Bytes.ofText (c.key.family.certificateName ++ " ")).length +
      4 * ((c.encode.length + 2) / 3) := by
  rw [line, KeyLine.print, Bytes.ofText_append, Base64.ofText_encode, List.length_append,
    Base64.length_encodeBytes]

theorem length_encode_le (c : SshCertificate) :
    c.encode.length ≤ (Bytes.ofText c.line).length := by
  rw [length_line]
  omega

end SshCertificate
end CertAuthority.OpenSsh
