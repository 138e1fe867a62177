import CertAuthority.Proofs.Text.Basic
import CertAuthority.X509.ExtensionPlan
import Mathlib.Data.Set.List

/-!
# The compact form of an X.509 value

A value is written as pieces between commas, which are cut apart when the value is made. A value of
one piece is a text, and that is cut again when the tokens are taken; nothing more comes off, since a
piece has no comma in it and no blank at its ends.

* `CompactForm.HasPieces` : a text is made up of these pieces, and `CompactForm.hasPieces_iff` :
  every text is, in one way only;
* `AttributeValue.tokens?_ofTokens` : the tokens that a value was made of are taken from it, whatever
  their number;
* `ExtensionKind.exists_tokens_of_parseX509Value` : what becomes of the pieces of a text, and
  `ExtensionKind.parseX509Value_eq_iff` : nothing else becomes of a text;
* `ExtensionKind.compact_value_kept` : all of it together.
-/

namespace CertAuthority

/-! ## Parts of a text -/

namespace CompactForm

/-- What stands between two commas: a piece with blanks around it. It may have no characters at
all. -/
structure Part where
  before : List Char
  piece : List Char
  after : List Char
  isBlank_of_mem : ∀ c ∈ before ++ after, Text.isBlank c = true
  not_isBlank_head : ∀ c ∈ piece.head?, Text.isBlank c = false
  not_isBlank_last : ∀ c ∈ piece.getLast?, Text.isBlank c = false
  comma_notMem : ',' ∉ piece

namespace Part

def chars (p : Part) : List Char := p.before ++ (p.piece ++ p.after)

/-- The piece on its own. -/
def bare (p : Part) : Part := { p with before := [], after := [], isBlank_of_mem := nofun }

theorem chars_bare (p : Part) : p.bare.chars = p.piece := List.append_nil _

theorem trimChars_chars (p : Part) : Text.trimChars p.chars = p.piece :=
  Text.trimChars_append (fun c hc => p.isBlank_of_mem c (List.mem_append_left _ hc))
    (fun c hc => p.isBlank_of_mem c (List.mem_append_right _ hc)) p.not_isBlank_head
    p.not_isBlank_last

theorem comma_notMem_chars (p : Part) : ',' ∉ p.chars := by
  have hblank : ',' ∉ p.before ++ p.after :=
    fun h => absurd (p.isBlank_of_mem ',' h) (by decide)
  rw [List.mem_append, not_or] at hblank
  rw [chars, List.mem_append, List.mem_append, not_or, not_or]
  exact ⟨hblank.1, p.comma_notMem, hblank.2⟩

theorem exists_chars {cs : List Char} (h : ',' ∉ cs) : ∃ p : Part, p.chars = cs := by
  obtain ⟨before, after, hcs, hblank, hhead, hlast⟩ := Text.exists_trimChars cs
  have hpiece : ',' ∉ Text.trimChars cs := fun hmem => h ((Text.trimChars_sublist cs).mem hmem)
  exact ⟨⟨before, Text.trimChars cs, after, hblank, hhead, hlast, hpiece⟩, hcs⟩

end Part

/-- The text that parts make up. -/
def textOf (parts : List Part) : String :=
  ",".intercalate (parts.map fun p => String.ofList p.chars)

/-- The pieces of the parts, in order and without the empty ones. -/
def piecesOf (parts : List Part) : List String :=
  ((parts.map Part.piece).filter (!·.isEmpty)).map String.ofList

/-- The text is made up of parts with these pieces. -/
def HasPieces (s : String) (pieces : List String) : Prop :=
  ∃ parts, textOf parts = s ∧ piecesOf parts = pieces

theorem toList_textOf (parts : List Part) :
    (textOf parts).toList = [','].intercalate (parts.map Part.chars) := by
  rw [textOf, String.toList_intercalate, List.map_map]
  exact congrArg _ (List.map_congr_left fun _ _ => String.toList_ofList)

theorem commaPieces_textOf (parts : List Part) :
    Text.commaPieces (textOf parts) = piecesOf parts := by
  obtain rfl | hne := eq_or_ne parts []
  · rfl
  · have hsplit : Text.splitChars ',' (textOf parts).toList = parts.map Part.chars := by
      rw [toList_textOf]
      refine Text.splitChars_intercalate (by simpa using hne) fun cs hcs => ?_
      obtain ⟨p, -, rfl⟩ := List.mem_map.1 hcs
      exact p.comma_notMem_chars
    have htrim : (parts.map Part.chars).map Text.trimChars = parts.map Part.piece := by
      rw [List.map_map]
      exact List.map_congr_left fun p _ => p.trimChars_chars
    rw [Text.commaPieces, hsplit, htrim, piecesOf]

/-- Every text is made up of parts. -/
theorem exists_textOf (s : String) : ∃ parts, textOf parts = s := by
  have hparts : Text.splitChars ',' s.toList ∈ Set.range (List.map Part.chars) := by
    rw [Set.range_list_map]
    exact fun cs hcs => Part.exists_chars (Text.notMem_of_mem_splitChars hcs)
  obtain ⟨parts, hparts⟩ := hparts
  refine ⟨parts, String.toList_inj.1 ?_⟩
  rw [toList_textOf, hparts, Text.intercalate_splitChars]

theorem hasPieces_iff {s : String} {pieces : List String} :
    HasPieces s pieces ↔ Text.commaPieces s = pieces := by
  constructor
  · rintro ⟨parts, rfl, rfl⟩
    exact commaPieces_textOf parts
  · rintro rfl
    obtain ⟨parts, rfl⟩ := exists_textOf s
    exact ⟨parts, rfl, (commaPieces_textOf parts).symm⟩

/-! ## Pieces as texts -/

/-- A piece that is not empty, taken for a text of its own. -/
def IsToken (t : String) : Prop := ∃ p : Part, p.piece ≠ [] ∧ String.ofList p.piece = t

theorem isToken_of_mem_commaPieces {s t : String} (h : t ∈ Text.commaPieces s) : IsToken t := by
  obtain ⟨parts, rfl⟩ := exists_textOf s
  rw [commaPieces_textOf, piecesOf] at h
  obtain ⟨cs, hcs, rfl⟩ := List.mem_map.1 h
  obtain ⟨hmem, hne⟩ := List.mem_filter.1 hcs
  obtain ⟨p, -, rfl⟩ := List.mem_map.1 hmem
  exact ⟨p, by simpa using hne, rfl⟩

/-- A piece is cut no further. -/
theorem IsToken.commaPieces_eq {t : String} (h : IsToken t) : Text.commaPieces t = [t] := by
  obtain ⟨p, hne, rfl⟩ := h
  have htext : textOf [p.bare] = String.ofList p.piece := by
    rw [textOf, List.map_singleton, String.intercalate_singleton, p.chars_bare]
  have hpieces : piecesOf [p.bare] = [String.ofList p.piece] := by
    simp [piecesOf, Part.bare, hne]
  rw [← htext, commaPieces_textOf, htext, hpieces]

theorem IsToken.trim_eq {t : String} (h : IsToken t) : Text.trim t = t := by
  obtain ⟨p, -, rfl⟩ := h
  have htrim := p.bare.trimChars_chars
  rw [p.chars_bare] at htrim
  rw [Text.trim, String.toList_ofList, htrim]
  rfl

end CompactForm

/-! ## Values made of tokens -/

namespace AttributeValue

open CompactForm

theorem mapM_itemToken? {ts : List String} (h : ∀ t ∈ ts, IsToken t) :
    (ts.map text).mapM itemToken? = some ts := by
  induction ts with
  | nil => rfl
  | cons t ts ih =>
    rw [List.forall_mem_cons] at h
    rw [List.map_cons, List.mapM_cons, ih h.2, itemToken?, h.1.trim_eq]
    rfl

theorem tokens?_ofTokens {ts : List String} (h : ∀ t ∈ ts, IsToken t) :
    (ofTokens ts).tokens? = some ts := by
  match ts with
  | [] => rfl
  -- A text is the one form that is cut at commas again.
  | [t] => exact congrArg some (h t List.mem_cons_self).commaPieces_eq
  | _ :: _ :: _ => exact mapM_itemToken? h

end AttributeValue

/-! ## Compact values -/

namespace ExtensionKind

open CompactForm

theorem section?_eq_none_iff {k : ExtensionKind} :
    k.section? = none ↔ k.certificateKind = .x509 := by
  rw [certificateKind]
  cases k.section? <;> simp

theorem parseValue_eq {k : ExtensionKind} (hk : k.certificateKind = .x509) (raw : String) :
    k.parseValue raw = parseX509Value raw := by
  rw [parseValue, section?_eq_none_iff.2 hk]

/-- The piece that stands for the flag. -/
def flagPieces (critical : Bool) : List String := if critical then ["critical"] else []

/-- One piece in front at most sets the flag, and the value is made of the others. -/
theorem exists_tokens_of_parseX509Value (raw : String) : ∃ tokens,
    Text.commaPieces raw = flagPieces (parseX509Value raw).critical ++ tokens ∧
      ((parseX509Value raw).critical = true ↔
        (Text.commaPieces raw).head? = some "critical") ∧
      (parseX509Value raw).value = .ofTokens tokens := by
  rw [parseX509Value]
  split
  · rename_i tokens hpieces
    exact ⟨tokens, hpieces, iff_of_true rfl (by rw [hpieces]; rfl), rfl⟩
  -- No piece, or another one in front: all of them are tokens.
  · rename_i hother
    refine ⟨Text.commaPieces raw, rfl, iff_of_false Bool.false_ne_true fun hhead => ?_, rfl⟩
    obtain ⟨tokens, hpieces⟩ := List.head?_eq_some_iff.1 hhead
    exact hother tokens hpieces

/-- The pieces that the value was made of are taken from it again. -/
theorem tokens?_parseX509Value {raw : String} {tokens : List String}
    (hpieces : Text.commaPieces raw = flagPieces (parseX509Value raw).critical ++ tokens)
    (hvalue : (parseX509Value raw).value = .ofTokens tokens) :
    (parseX509Value raw).value.tokens? = some tokens := by
  rw [hvalue]
  refine AttributeValue.tokens?_ofTokens fun t ht => isToken_of_mem_commaPieces (s := raw) ?_
  rw [hpieces]
  exact List.mem_append_right _ ht

theorem parseX509Value_eq_iff {raw raw' : String} :
    parseX509Value raw = parseX509Value raw' ↔
      Text.commaPieces raw = Text.commaPieces raw' := by
  constructor
  · intro h
    obtain ⟨tokens, hpieces, -, hvalue⟩ := exists_tokens_of_parseX509Value raw
    obtain ⟨tokens', hpieces', -, hvalue'⟩ := exists_tokens_of_parseX509Value raw'
    have htokens := tokens?_parseX509Value hpieces hvalue
    rw [h, tokens?_parseX509Value hpieces' hvalue'] at htokens
    rw [hpieces, hpieces', h, Option.some.inj htokens]
  · intro h
    rw [parseX509Value, parseX509Value, h]

/-- **A compact value is kept piece by piece.** A text has one list of pieces. The piece `critical`
in front sets the flag and nothing else does; the other pieces, a second `critical` too, are the
tokens of the value, and those that are read when a certificate is made. Texts give the same value
if and only if they have the same pieces. -/
theorem compact_value_kept {k : ExtensionKind} (hk : k.certificateKind = .x509) (raw : String) :
    ∃ pieces tokens, (∀ ps, HasPieces raw ps ↔ ps = pieces) ∧
      pieces = flagPieces (k.parseValue raw).critical ++ tokens ∧
      ((k.parseValue raw).critical = true ↔ pieces.head? = some "critical") ∧
      (k.parseValue raw).value = .ofTokens tokens ∧
      (k.parseValue raw).value.tokens? = some tokens ∧
      X509.valueTokens k (k.parseValue raw) = .ok tokens ∧
      ∀ other, k.parseValue other = k.parseValue raw ↔ HasPieces other pieces := by
  simp only [parseValue_eq hk]
  obtain ⟨tokens, hpieces, hflag, hvalue⟩ := exists_tokens_of_parseX509Value raw
  have htokens := tokens?_parseX509Value hpieces hvalue
  refine ⟨Text.commaPieces raw, tokens, fun ps => ?_, hpieces, hflag, hvalue, htokens,
    X509.valueTokens_eq_ok (section?_eq_none_iff.2 hk) htokens, fun other => ?_⟩
  · rw [hasPieces_iff, eq_comm]
  · rw [parseX509Value_eq_iff, hasPieces_iff]

/-- With `critical` twice in front, the second is a token. -/
theorem compact_value_kept_critical_twice :
    keyUsage.certificateKind = .x509 ∧
      ∃ v, keyUsage.parseValue " critical ,, critical,digitalSignature ,\t" = v ∧
        v.critical = true ∧ v.value.tokens? = some ["critical", "digitalSignature"] ∧
        X509.valueTokens .keyUsage v = .ok ["critical", "digitalSignature"] ∧
        keyUsage.parseValue "critical,critical,digitalSignature" = v := by
  obtain ⟨pieces, tokens, hhas, hpieces, hflag, -, htokens, hread, hsame⟩ :=
    compact_value_kept (k := .keyUsage) rfl " critical ,, critical,digitalSignature ,\t"
  obtain rfl : ["critical", "critical", "digitalSignature"] = pieces :=
    (hhas _).1 (hasPieces_iff.2 (by decide))
  rw [hflag.2 rfl] at hpieces
  obtain rfl : ["critical", "digitalSignature"] = tokens := (List.cons.inj hpieces).2
  exact ⟨rfl, _, rfl, hflag.2 rfl, htokens, hread, (hsame _).2 (hasPieces_iff.2 (by decide))⟩

end ExtensionKind
end CertAuthority
