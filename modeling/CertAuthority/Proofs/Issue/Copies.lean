import CertAuthority.Proofs.Files.Directories
import CertAuthority.Proofs.Issue.Steps
import CertAuthority.Proofs.Serial.Spellings
import Mathlib.Logic.Relation

/-!
# Copies stay in their directory and apart

A copy is named by the serial number of its certificate. What the requester chose stands in front of
a dash, and a serial number has no dash, so the number is told by what stands behind the last one.

* `SerialNumber.shortText_injective` : the digits in the name tell the number;
* `Certificate.isPlain_copyName` : the name of a copy does not leave the directory;
* `Certificate.copyName_inj` : copies of one name are of one kind and of one number;
* `Site.CopyTried` : what writing a copy does to the files and to the journal, and
  `Site.copyTried_writeCopy` : it does nothing else;
* `Site.OtherCopy` : the copy of another certificate is written in a tree;
* `Site.copies_kept_apart` : all of it together, in a directory tree.
-/

namespace CertAuthority

/-! ## Numbers in names -/

/-- The zeros in front of digits do not change the number. -/
theorem Hex.numberOf?_dropWhile (cs : List Char) :
    numberOf? (cs.dropWhile (· == '0')) = numberOf? cs := by
  induction cs with
  | nil => rfl
  | cons c cs ih =>
    by_cases hc : c = '0'
    · have hzero : pushChar? 0 '0' = some 0 := rfl
      rw [List.dropWhile_cons_of_pos (by simp [hc]), ih, hc, numberOf?, numberOf?,
        List.foldlM_cons, hzero]
      rfl
    · rw [List.dropWhile_cons_of_neg (by simp [hc])]

namespace SerialNumber

variable {s s' : SerialNumber} {c : Char}

theorem numberOf?_text (s : SerialNumber) : Hex.numberOf? s.text.toList = some s.value := by
  have hcleaned : cleaned s.text = s.text.toList := Hex.filter_encode s.toBytes
  rw [← hcleaned]
  exact parse_eq_ok_iff.1 (parse_text s)

theorem exists_digit_of_mem_shortText (h : c ∈ s.shortText.toList) : ∃ n < 16, c = Hex.digit n := by
  rw [shortText] at h
  split at h
  · exact ⟨0, by decide, List.mem_singleton.1 h⟩
  · rw [String.toList_ofList] at h
    exact Hex.exists_digit_of_mem_encode ((List.dropWhile_sublist _).subset h)

theorem numberOf?_shortText (s : SerialNumber) :
    Hex.numberOf? s.shortText.toList = some s.value := by
  have hnumber := numberOf?_text s
  rw [← Hex.numberOf?_dropWhile] at hnumber
  rw [shortText]
  split
  · rename_i hnone
    rw [hnone] at hnumber
    exact hnumber
  · rw [String.toList_ofList]
    exact hnumber

theorem shortText_injective : Function.Injective shortText := by
  intro s s' h
  have hnumber := numberOf?_shortText s
  rw [h, numberOf?_shortText] at hnumber
  cases s
  cases s'
  exact congrArg mk (Option.some.inj hnumber).symm

end SerialNumber

/-! ## Names -/

/-- The character is neither a separator nor a control character. -/
def StandsInName (c : Char) : Prop := c ≠ '/' ∧ c ≠ '\\' ∧ Text.isControl c = false

instance (c : Char) : Decidable (StandsInName c) := inferInstanceAs (Decidable (_ ∧ _ ∧ _))

theorem standsInName_fileSafeChar (c : Char) : StandsInName (fileSafeChar c) := by
  rw [fileSafeChar]
  split_ifs with hc
  · decide
  · simpa [StandsInName] using hc

theorem standsInName_of_mem_fileSafe {s : String} {c : Char} (h : c ∈ (fileSafe s).toList) :
    StandsInName c := by
  rw [fileSafe] at h
  split_ifs at h
  · cases h
  · rw [String.toList_ofList] at h
    obtain ⟨d, -, rfl⟩ := List.mem_map.1 h
    exact standsInName_fileSafeChar d

namespace Certificate

variable {c d : Certificate} {p q : Bool}

/-- The number that a copy is named by. Without a number it has the name of number zero. -/
def copyNumber (c : Certificate) : SerialNumber := c.info.serialNumber.getD ⟨0⟩

/-- What stands in front of the number ends with a dash, if it is anything. -/
theorem copyLead_eq (c : Certificate) (p : Bool) :
    c.copyLead p = "" ∨ ∃ s, c.copyLead p = fileSafe s ++ "-" := by
  rw [copyLead]
  cases c.info.commonName? with
  | none => exact .inl rfl
  | some cn =>
    dsimp only [Option.map_some]
    split_ifs
    · exact .inr ⟨cn, rfl⟩
    · exact .inl rfl

theorem toList_copyName (c : Certificate) (p : Bool) :
    (c.copyName p).toList =
      (c.copyLead p).toList ++ c.copyNumber.shortText.toList ++ c.info.kind.copySuffix.toList := by
  rw [copyName, String.toList_append, String.toList_append]
  rfl

theorem standsInName_of_mem_copyLead {ch : Char} (h : ch ∈ (c.copyLead p).toList) :
    StandsInName ch := by
  obtain hlead | ⟨s, hlead⟩ := c.copyLead_eq p
  · simp [hlead] at h
  · rw [hlead, String.toList_append, List.mem_append] at h
    obtain h | h := h
    · exact standsInName_of_mem_fileSafe h
    · rw [List.mem_singleton.1 h]
      decide

theorem standsInName_of_mem_copyName {ch : Char} (h : ch ∈ (c.copyName p).toList) :
    StandsInName ch := by
  have hdigits : ∀ n < 16, StandsInName (Hex.digit n) := by decide
  have hsuffix (kind : CertificateKind) :
      kind.copySuffix.toList.all (fun ch => decide (StandsInName ch)) = true := by
    cases kind <;> rfl
  rw [toList_copyName, List.mem_append, List.mem_append] at h
  obtain (h | h) | h := h
  · exact standsInName_of_mem_copyLead h
  · obtain ⟨n, hn, rfl⟩ := SerialNumber.exists_digit_of_mem_shortText h
    exact hdigits n hn
  · exact of_decide_eq_true (List.all_eq_true.1 (hsuffix _) ch h)

/-- The name is one plain part of a path. -/
theorem isPlain_copyName (c : Certificate) (p : Bool) : Path.isPlain (c.copyName p) = true := by
  have hlast : (c.copyName p).toList.getLast? = some 't' := by
    rw [toList_copyName]
    cases c.info.kind <;> simp [CertificateKind.copySuffix]
  refine Path.isPlain_iff.2 ⟨?_, ?_, ?_, fun h => (standsInName_of_mem_copyName h).1 rfl⟩
  all_goals
    intro hname
    rw [hname] at hlast
    cases hlast

/-- The digits stand behind the last dash. -/
theorem takeWhile_copyName (c : Certificate) (p : Bool) :
    ((c.copyLead p).toList ++ c.copyNumber.shortText.toList).reverse.takeWhile (· != '-') =
      c.copyNumber.shortText.toList.reverse := by
  have hdigits : ∀ n < 16, Hex.digit n ≠ '-' := by decide
  have hdash : ∀ ch ∈ c.copyNumber.shortText.toList.reverse, (ch != '-') = true := by
    intro ch hch
    obtain ⟨n, hn, rfl⟩ := SerialNumber.exists_digit_of_mem_shortText (List.mem_reverse.1 hch)
    exact bne_iff_ne.2 (hdigits n hn)
  rw [List.reverse_append, List.takeWhile_append_of_pos hdash]
  obtain hlead | ⟨s, hlead⟩ := c.copyLead_eq p
  · simp [hlead]
  · simp [hlead]

/-- Copies of one name are of one kind and of one number, whatever stands in front. -/
theorem copyName_inj (h : c.copyName p = d.copyName q) :
    c.info.kind = d.info.kind ∧ c.copyNumber = d.copyNumber := by
  have hlist := congrArg String.toList h
  rw [toList_copyName, toList_copyName] at hlist
  have hkind : c.info.kind = d.info.kind := by
    have hthird := congrArg (fun cs => cs.reverse[2]?) hlist
    revert hthird
    cases c.info.kind <;> cases d.info.kind <;> simp [CertificateKind.copySuffix]
  rw [hkind] at hlist
  have hdigits := congrArg (fun cs => cs.reverse.takeWhile (· != '-'))
    (List.append_cancel_right hlist)
  rw [takeWhile_copyName, takeWhile_copyName] at hdigits
  refine ⟨hkind, SerialNumber.shortText_injective (String.toList_inj.1 ?_)⟩
  exact List.reverse_injective hdigits

end Certificate

/-! ## Runs -/

namespace Site

open Run (Keeps)

variable {σ : Type} {s : Site σ} {u : RunState σ}

/-- What came of writing a copy from the state `u`: it could not be encoded, and nothing was done,
or one path was replaced. -/
inductive CopyTried (s : Site σ) (path : String) (u : RunState σ) :
    Outcome Error String × RunState σ → Prop
  | unencoded {t : RunState σ} (fault : Fault Error) (hfiles : t.world.files = u.world.files)
      (hjournal : t.journal = u.journal) : CopyTried s path u (.error fault, t)
  | replaced {t : RunState σ} {out : Outcome Error String} (data : Bytes)
      (hfiles : t.world.files = (s.files.replace u.world.files path data copyMode).2)
      (hjournal : t.journal = u.journal ++ [.replace path data copyMode])
      (hout : out = .ok path ↔ (s.files.replace u.world.files path data copyMode).1 = .ok ()) :
      CopyTried s path u (out, t)

theorem copyTried_writeCopy (s : Site σ) (kind : CertificateKind) (dir : String) (c : Certificate)
    (p : Bool) (u : RunState σ) :
    s.CopyTried (Path.join dir (c.copyName p)) u ((s.writeCopy kind dir c p).run.run u) := by
  have hencode : Keeps (fun _ => False) (fun files _ => files)
      (s.encodePlain .writingCopy kind c) := keeps_encode ..
  have hfiles := hencode.seen u
  obtain ⟨added, hjournal, hadded⟩ := hencode.journal u
  obtain rfl : added = [] := List.eq_nil_iff_forall_not_mem.2 hadded
  rw [List.append_nil] at hjournal
  rw [writeCopy, if_pos (c.isPlain_copyName p), Run.run_bind]
  generalize (s.encodePlain .writingCopy kind c).run.run u = encoded at hfiles hjournal
  obtain ⟨fault | data, t⟩ := encoded
  · exact .unencoded fault hfiles hjournal
  · replace hfiles : t.world.files = u.world.files := hfiles
    replace hjournal : t.journal = u.journal := hjournal
    dsimp only
    rw [Run.run_bind, run_atStage_replace, hfiles, hjournal]
    generalize Path.join dir (c.copyName p) = path
    cases hdone : (s.files.replace u.world.files path data copyMode).1 with
    | ok _ => exact .replaced data rfl rfl (iff_of_true rfl hdone)
    | error fault =>
      have hfailed : (s.files.replace u.world.files path data copyMode).1 ≠ .ok () := by
        simp [hdone]
      cases fault <;> exact .replaced data rfl rfl (iff_of_false (by nofun) hfailed)

/-! ## Directory trees -/

/-- A node with its files in a directory tree. -/
def inDirectory (backend : CertificateKind → Backend) : Site Directory :=
  ⟨Directory.fileSystem, backend⟩

/-- A copy is put into its directory, and nowhere else is anything changed. -/
theorem writeCopy_inDirectory (backend : CertificateKind → Backend) (kind : CertificateKind)
    (dir : String) (c : Certificate) (p : Bool) {u t : RunState Directory}
    {out : Outcome Error String}
    (hrun : ((inDirectory backend).writeCopy kind dir c p).run.run u = (out, t)) :
    t.world.files = u.world.files ∨ ∃ data done,
      Directory.PutIn dir (c.copyName p) (.file data copyMode) u.world.files
        (done, t.world.files) ∧ (out = .ok (Path.join dir (c.copyName p)) ↔ done = .ok ()) := by
  have htried := copyTried_writeCopy (inDirectory backend) kind dir c p u
  rw [hrun] at htried
  cases htried with
  | unencoded fault hfiles hjournal => exact .inl hfiles
  | replaced data hfiles hjournal hout =>
    have hreplace : (inDirectory backend).files.replace = Directory.replace := rfl
    have hput := Directory.putIn_replace u.world.files dir data copyMode (c.isPlain_copyName p)
    rw [hreplace] at hfiles hout
    generalize Directory.replace u.world.files (Path.join dir (c.copyName p)) data copyMode = result
      at hfiles hout hput
    obtain ⟨done, files⟩ := result
    obtain rfl : files = t.world.files := hfiles.symm
    exact .inr ⟨data, done, hput, hout⟩

/-- A copy of another certificate than `d` was written, or it was tried. -/
def OtherCopy (d : Certificate) (before after : Directory) : Prop :=
  ∃ (backend : CertificateKind → Backend) (kind : CertificateKind) (dir : String)
    (c : Certificate) (p : Bool) (u : RunState Directory),
    (c.info.kind ≠ d.info.kind ∨ c.copyNumber ≠ d.copyNumber) ∧ u.world.files = before ∧
      (((inDirectory backend).writeCopy kind dir c p).run.run u).2.world.files = after

variable {d : Certificate} {q : Bool} {before after : Directory} {home : List String}
  {e : TreeEntry}

theorem OtherCopy.entry?_eq (h : OtherCopy d before after)
    (hold : before.entry? (home ++ [d.copyName q]) = some e) :
    after.entry? (home ++ [d.copyName q]) = some e := by
  obtain ⟨backend, kind, dir, c, p, u, hother, rfl, rfl⟩ := h
  have hname : c.copyName p ≠ d.copyName q := by
    intro hname
    obtain ⟨hkind, hnumber⟩ := Certificate.copyName_inj hname
    exact hother.elim (absurd hkind) (absurd hnumber)
  generalize hrun : ((inDirectory backend).writeCopy kind dir c p).run.run u = result
  obtain ⟨out, t⟩ := result
  obtain hsame | ⟨data, done, hput, -⟩ := writeCopy_inDirectory backend kind dir c p hrun
  · dsimp only
    rw [hsame, hold]
  · refine hput.entry?_eq ?_ hold
    rw [List.getLast?_concat]
    exact fun hlast => hname (Option.some.inj hlast).symm

/-- However many other copies are written, in whatever directories. -/
theorem entry?_eq_of_otherCopies (h : Relation.ReflTransGen (OtherCopy d) before after)
    (hold : before.entry? (home ++ [d.copyName q]) = some e) :
    after.entry? (home ++ [d.copyName q]) = some e := by
  induction h with
  | refl => exact hold
  | tail _ hstep ih => exact hstep.entry?_eq ih

/-- **Copies stay in their directory and apart.** The name of a copy is one plain part of a path,
without separators and control characters, so its path is one step below the directory. Copies of
one name are of one kind and of one number, whatever the common names are and whether they stand in
front. Writing a copy replaces its path or does nothing. In a directory tree the copy is put where
the directory leads. Other than that there can only be new directories on the way there, and the
copies of all other certificates stay as they are. -/
theorem copies_kept_apart :
    (∀ (c : Certificate) (p : Bool), Path.isPlain (c.copyName p) = true ∧
      (∀ ch ∈ (c.copyName p).toList, StandsInName ch) ∧
      ∀ dir, Path.steps (Path.join dir (c.copyName p)) = Path.steps dir ++ [c.copyName p]) ∧
    (∀ (c d : Certificate) (p q : Bool), c.copyName p = d.copyName q →
      c.info.kind = d.info.kind ∧ c.copyNumber = d.copyNumber) ∧
    (∀ (σ : Type) (s : Site σ) (kind : CertificateKind) (dir : String) (c : Certificate) (p : Bool)
      (u : RunState σ),
      s.CopyTried (Path.join dir (c.copyName p)) u ((s.writeCopy kind dir c p).run.run u)) ∧
    (∀ (backend : CertificateKind → Backend) (kind : CertificateKind) (dir : String)
      (c : Certificate) (p : Bool) (u t : RunState Directory) (out : Outcome Error String),
      ((inDirectory backend).writeCopy kind dir c p).run.run u = (out, t) →
      t.world.files = u.world.files ∨ ∃ data done,
        Directory.PutIn dir (c.copyName p) (.file data copyMode) u.world.files
          (done, t.world.files) ∧ (out = .ok (Path.join dir (c.copyName p)) ↔ done = .ok ())) ∧
    ∀ (d : Certificate) (q : Bool) (before after : Directory),
      Relation.ReflTransGen (OtherCopy d) before after → ∀ home e,
      before.entry? (home ++ [d.copyName q]) = some e →
      after.entry? (home ++ [d.copyName q]) = some e :=
  ⟨fun c p => ⟨c.isPlain_copyName p, fun _ => Certificate.standsInName_of_mem_copyName,
      fun dir => Path.steps_join dir (c.isPlain_copyName p)⟩,
    fun _ _ _ _ => Certificate.copyName_inj,
    fun _ s kind dir c p u => copyTried_writeCopy s kind dir c p u,
    fun backend kind dir c p _ _ _ => writeCopy_inDirectory backend kind dir c p,
    fun _ _ _ _ hcopies _ _ => entry?_eq_of_otherCopies hcopies⟩

end Site
end CertAuthority
