import CertAuthority.Files.Directory
import CertAuthority.Proofs.Text.Basic

/-!
# Where a new file ends up

A file is put into a directory under a plain name. Links on the way to the directory are followed,
and a link of the name itself is replaced. Whatever the tree looks like, the file stands where the
path of the directory leads.

* `Path.steps_join` : the path of a plain name has one step more than the path of the directory;
* `Directory.Reaches` : how a lookup comes to its end, and `Directory.walk_eq_ok_iff` : no lookup
  ends otherwise;
* `Directory.Makes` : directories that are new on the way, and nothing else is changed;
* `Directory.PutIn` : what writing a file into a directory does to a tree, done or not, and
  `Directory.putIn_replace` : it does nothing else;
* `Directory.PutIn.entry?_eq` : entries of other names stay as they are.
-/

namespace CertAuthority

/-! ## Names in a path -/

namespace Path

variable {dir name : String}

theorem names_append_slash (s t : String) : names (s ++ "/" ++ t) = names s ++ names t := by
  rw [names, Text.splitOnChar, String.toList_append, String.toList_append, List.append_assoc]
  show ((Text.splitChars '/' (s.toList ++ '/' :: t.toList)).map String.ofList) = _
  rw [Text.splitChars_append, List.map_append]
  rfl

theorem names_of_not_mem (h : '/' ∉ name.toList) : names name = [name] := by
  rw [names, Text.splitOnChar, Text.splitChars_of_not_mem h, List.map_singleton,
    String.ofList_toList]

/-- A path that ends in a slash, or in nothing, ends in an empty name. -/
theorem names_join (dir : String) (h : '/' ∉ name.toList) : ∃ front tail,
    names (join dir name) = front ++ [name] ∧ names dir = front ++ tail ∧ ∀ s ∈ tail, s = "" := by
  rw [join]
  split_ifs with hdir
  · obtain rfl | hslash := hdir
    · refine ⟨[], [""], ?_, rfl, by simp⟩
      rw [String.empty_append, names_of_not_mem h]
      rfl
    · rw [String.endsWith_eq_endsWith_toSlice, String.Slice.endsWith_string_iff,
        String.copy_toSlice] at hslash
      obtain ⟨front, hfront⟩ := hslash
      obtain rfl : dir = String.ofList front ++ "/" ++ "" := by
        simpa [← String.toList_inj] using hfront.symm
      refine ⟨names (String.ofList front), [""], ?_, names_append_slash _ _, by simp⟩
      rw [String.append_empty, names_append_slash, names_of_not_mem h]
  · refine ⟨names dir, [], ?_, (List.append_nil _).symm, by simp⟩
    rw [names_append_slash, names_of_not_mem h]

theorem isPlain_iff : isPlain name = true ↔
    name ≠ "" ∧ name ≠ "." ∧ name ≠ ".." ∧ '/' ∉ name.toList := by
  simp [isPlain, and_assoc]

/-- A plain name is one step below the directory. -/
theorem steps_join (dir : String) (h : isPlain name = true) :
    steps (join dir name) = steps dir ++ [name] := by
  obtain ⟨hempty, hdot, -, hslash⟩ := isPlain_iff.1 h
  obtain ⟨front, tail, hjoin, hdir, htail⟩ := names_join dir hslash
  have hnone : tail.filter (fun s => s != "" && s != ".") = [] :=
    List.filter_eq_nil_iff.2 fun s hs => by simp [htail s hs]
  rw [steps, hjoin, steps, hdir, List.filter_append, List.filter_append, hnone, List.append_nil]
  simp [hempty, hdot]

end Path

namespace Directory

variable {t made : Directory} {follow : Bool} {links : Nat} {here place other : List String}
  {name : String} {rest names : List String} {e : TreeEntry}

/-! ## Entries -/

theorem lookup_filter_ne {entries : List (List String × TreeEntry)} (h : other ≠ place) :
    (entries.filter (·.1 != place)).lookup other = entries.lookup other := by
  induction entries with
  | nil => rfl
  | cons e entries ih =>
    obtain ⟨p, v⟩ := e
    by_cases hp : p = place
    · have hother : (other == p) = false := by simpa [hp] using h
      rw [List.filter_cons_of_neg (by simp [hp]), ih, List.lookup_cons, hother]
    · rw [List.filter_cons_of_pos (by simp [hp]), List.lookup_cons, List.lookup_cons, ih]

theorem entry?_put_self (h : place ≠ []) : entry? (t.put place e) place = some e := by
  simp [ entry?, put, h]

theorem entry?_put_of_ne (h : other ≠ place) :
    entry? (t.put place e) other = t.entry? other := by
  have hlookup : (other == place) = false := by simpa using h
  rw [ entry?, entry?, put, List.lookup_cons, hlookup, lookup_filter_ne h]

/-! ## Lookup -/

/-- A name that stands for an entry. -/
def IsName (name : String) : Prop :=
  name ≠ "" ∧ name ≠ "." ∧ name ≠ ".." ∧ Path.isTooLong name = false

theorem isName_of (hstay : ¬(name = "" ∨ name = ".")) (hup : name ≠ "..")
    (hlong : ¬ Path.isTooLong name = true) : IsName name :=
  ⟨fun h => hstay (.inl h), fun h => hstay (.inr h), hup, Bool.eq_false_iff.2 hlong⟩

/-- A lookup at a name goes by what stands there. -/
theorem IsName.walk_cons (h : IsName name) :
    t.walk follow links here (name :: rest) =
      match t.entry? (here ++ [name]) with
      | some .dir => walk t follow links (here ++ [name]) rest
      | some (.file data mode) =>
        if rest.isEmpty then .ok (here ++ [name], some (.file data mode)) else .error .notDirectory
      | some (.link target) =>
        if rest.isEmpty && !follow then .ok (here ++ [name], some (.link target))
        else
          match links with
          | 0 => .error .tooManyLinks
          | links + 1 =>
            if target.startsWith "/" then .error .missing
            else walk t follow links here (Path.names target ++ rest)
      | none =>
        if rest.all (· == "") then .ok (here ++ [name], none) else .error .missing := by
  obtain ⟨hempty, hdot, hup, hlong⟩ := h
  have hstay : ¬(name = "" ∨ name = ".") := not_or.2 ⟨hempty, hdot⟩
  rw [walk]
  exact (if_neg hstay).trans ((if_neg hup).trans (if_neg (by simp [hlong])))

/-- The names lead from the directory `here` to `place`, through so many links at most. -/
inductive Reaches (t : Directory) (follow : Bool) :
    Nat → List String → List String → List String → Prop
  | done (links : Nat) (here : List String) : Reaches t follow links here [] here
  | stay {links : Nat} {here place rest : List String} {name : String} (h : name = "" ∨ name = ".")
      (hrest : Reaches t follow links here rest place) :
      Reaches t follow links here (name :: rest) place
  | up {links : Nat} {here place rest : List String} (h : here ≠ [])
      (hrest : Reaches t follow links here.dropLast rest place) :
      Reaches t follow links here (".." :: rest) place
  | down {links : Nat} {here place rest : List String} {name : String} (hname : IsName name)
      (h : t.entry? (here ++ [name]) = some .dir)
      (hrest : Reaches t follow links (here ++ [name]) rest place) :
      Reaches t follow links here (name :: rest) place
  | through {links : Nat} {here place rest : List String} {name target : String}
      (hname : IsName name) (h : t.entry? (here ++ [name]) = some (.link target))
      (hfollow : rest = [] → follow = true) (htarget : target.startsWith "/" = false)
      (hrest : Reaches t follow links here (Path.names target ++ rest) place) :
      Reaches t follow (links + 1) here (name :: rest) place
  | file {links : Nat} {here : List String} {name : String} {data : Bytes} {mode : Nat}
      (hname : IsName name) (h : t.entry? (here ++ [name]) = some (.file data mode)) :
      Reaches t follow links here [name] (here ++ [name])
  | link {links : Nat} {here : List String} {name target : String} (hname : IsName name)
      (h : t.entry? (here ++ [name]) = some (.link target)) (hfollow : follow = false) :
      Reaches t follow links here [name] (here ++ [name])
  | free {links : Nat} {here rest : List String} {name : String} (hname : IsName name)
      (h : t.entry? (here ++ [name]) = none) (hrest : ∀ s ∈ rest, s = "") :
      Reaches t follow links here (name :: rest) (here ++ [name])

theorem walk_eq_ok_iff {found : Option TreeEntry} :
    t.walk follow links here names = .ok (place, found) ↔
      t.Reaches follow links here names place ∧ found = t.entry? place := by
  constructor
  · intro h
    fun_induction walk t follow links here names with
    | case1 links here =>
      cases h
      exact ⟨.done _ _, rfl⟩
    | case2 links here name rest hstay ih =>
      obtain ⟨hrest, hfound⟩ := ih h
      exact ⟨.stay hstay hrest, hfound⟩
    | case4 links here rest hhere _ ih =>
      obtain ⟨hrest, hfound⟩ := ih h
      exact ⟨.up (by simpa using hhere) hrest, hfound⟩
    | case6 links here name rest hstay hup hlong hentry ih =>
      obtain ⟨hrest, hfound⟩ := ih h
      exact ⟨.down (isName_of hstay hup hlong) hentry hrest, hfound⟩
    | case7 links here name rest hstay hup hlong data mode hentry hlast =>
      cases h
      obtain rfl := List.isEmpty_iff.1 hlast
      exact ⟨.file (isName_of hstay hup hlong) hentry, hentry.symm⟩
    | case9 links here name rest hstay hup hlong target hentry hlast =>
      cases h
      obtain ⟨hrest, hfollow⟩ := Bool.and_eq_true_iff.1 hlast
      obtain rfl := List.isEmpty_iff.1 hrest
      exact ⟨.link (isName_of hstay hup hlong) hentry (by simpa using hfollow), hentry.symm⟩
    | case12 here name rest hstay hup hlong target hentry hlast links htarget ih =>
      obtain ⟨hrest, hfound⟩ := ih h
      exact ⟨.through (isName_of hstay hup hlong) hentry (by simpa using hlast)
        (Bool.eq_false_iff.2 htarget) hrest, hfound⟩
    | case13 links here name rest hstay hup hlong hentry hblank =>
      cases h
      exact ⟨.free (isName_of hstay hup hlong) hentry (by simpa using hblank), hentry.symm⟩
    | _ => cases h
  · rintro ⟨h, rfl⟩
    induction h with
    | done links here => rw [walk]
    | stay h hrest ih => rw [walk, if_pos h, ih]
    | up h hrest ih =>
      rw [walk, if_neg (by decide), if_pos rfl, if_neg (by simpa using h), ih]
    | down hname h hrest ih => rw [hname.walk_cons, h, ih]
    | through hname h hfollow htarget hrest ih =>
      rw [hname.walk_cons, h]
      dsimp only
      rw [if_neg (by simpa using hfollow), if_neg (by simp [htarget]), ih]
    | file hname h =>
      rw [hname.walk_cons, h]
      rfl
    | link hname h hfollow =>
      rw [hname.walk_cons, h, hfollow]
      rfl
    | free hname h hrest =>
      rw [hname.walk_cons, h]
      exact if_pos (by simpa using hrest)

theorem reaches_of_blank (h : ∀ s ∈ names, s = "") : t.Reaches follow links here names here := by
  induction names with
  | nil => exact .done links here
  | cons name names ih =>
    rw [List.forall_mem_cons] at h
    exact .stay (.inl h.1) (ih h.2)

/-- Links on the way are followed in any case. -/
theorem Reaches.followed (h : t.Reaches false links here names place)
    (hend : ∀ target, t.entry? place ≠ some (.link target)) :
    t.Reaches true links here names place := by
  induction h with
  | done links here => exact .done links here
  | stay h _ ih => exact .stay h (ih hend)
  | up h _ ih => exact .up h (ih hend)
  | down hname h _ ih => exact .down hname h (ih hend)
  | through hname h _ htarget _ ih => exact .through hname h (fun _ => rfl) htarget (ih hend)
  | file hname h => exact .file hname h
  | link hname h => exact absurd h (hend _)
  | free hname h hrest => exact .free hname h hrest

/-- Names that end in a plain one lead to that name in the directory to which the others lead. -/
theorem Reaches.exists_home {front tail : List String}
    (h : t.Reaches false links here (front ++ [name]) place) (hname : Path.isPlain name = true)
    (htail : ∀ s ∈ tail, s = "") :
    ∃ home, place = home ++ [name] ∧ t.Reaches true links here (front ++ tail) home := by
  obtain ⟨hempty, hdot, hup, -⟩ := Path.isPlain_iff.1 hname
  have hhere {links : Nat} {here : List String} :
      ∃ home, here ++ [name] = home ++ [name] ∧ t.Reaches true links here ([] ++ tail) home :=
    ⟨here, rfl, reaches_of_blank htail⟩
  generalize hnames : front ++ [name] = names at h
  induction h generalizing front with
  | done => simp at hnames
  | stay hstay hrest ih =>
    obtain ⟨rfl, hlast⟩ | ⟨front, rfl, rfl⟩ := List.cons_eq_append_iff.1 hnames.symm
    · obtain ⟨rfl, -⟩ := List.cons.inj hlast
      exact absurd hstay (by simp [hempty, hdot])
    · obtain ⟨home, hplace, hhome⟩ := ih rfl
      exact ⟨home, hplace, .stay hstay hhome⟩
  | up h hrest ih =>
    obtain ⟨rfl, hlast⟩ | ⟨front, rfl, rfl⟩ := List.cons_eq_append_iff.1 hnames.symm
    · exact absurd (List.cons.inj hlast).1 hup
    · obtain ⟨home, hplace, hhome⟩ := ih rfl
      exact ⟨home, hplace, .up h hhome⟩
  | down hname h hrest ih =>
    obtain ⟨rfl, hlast⟩ | ⟨front, rfl, rfl⟩ := List.cons_eq_append_iff.1 hnames.symm
    · obtain ⟨rfl, rfl⟩ := List.cons.inj hlast
      cases hrest
      exact hhere
    · obtain ⟨home, hplace, hhome⟩ := ih rfl
      exact ⟨home, hplace, .down hname h hhome⟩
  | through hname h hfollow htarget hrest ih =>
    obtain ⟨rfl, hlast⟩ | ⟨front, rfl, rfl⟩ := List.cons_eq_append_iff.1 hnames.symm
    · obtain ⟨-, rfl⟩ := List.cons.inj hlast
      cases hfollow rfl
    · obtain ⟨home, hplace, hhome⟩ := ih (List.append_assoc ..)
      rw [List.append_assoc] at hhome
      exact ⟨home, hplace, .through hname h (fun _ => rfl) htarget hhome⟩
  | file | link =>
    obtain ⟨rfl, hlast⟩ | ⟨front, -, hrest⟩ := List.cons_eq_append_iff.1 hnames.symm
    · obtain ⟨rfl, -⟩ := List.cons.inj hlast
      exact hhere
    · simp at hrest
  | free hname h hrest =>
    obtain ⟨rfl, hlast⟩ | ⟨front, -, rfl⟩ := List.cons_eq_append_iff.1 hnames.symm
    · obtain ⟨rfl, -⟩ := List.cons.inj hlast
      exact hhere
    · exact absurd (hrest name (by simp)) hempty

/-- The path leads to the place. -/
def Leads (t : Directory) (follow : Bool) (path : String) (place : List String) : Prop :=
  t.Reaches follow mostLinks [] (Path.names path) place

theorem resolve_eq_ok_iff {path : String} {found : Option TreeEntry} :
    t.resolve follow path = .ok (place, found) ↔
      t.Leads follow path place ∧ found = t.entry? place := walk_eq_ok_iff

/-- The path of a plain name leads into the directory. -/
theorem Leads.exists_home {dir : String} (h : t.Leads false (Path.join dir name) place)
    (hname : Path.isPlain name = true) :
    ∃ home, place = home ++ [name] ∧ t.Leads true dir home := by
  obtain ⟨front, tail, hjoin, hdir, htail⟩ := Path.names_join dir (Path.isPlain_iff.1 hname).2.2.2
  rw [Leads, hjoin] at h
  obtain ⟨home, hplace, hhome⟩ := h.exists_home hname htail
  exact ⟨home, hplace, by rwa [Leads, hdir]⟩

/-! ## New directories -/

/-- Nothing is changed, but directories may be where nothing was. -/
def Grows (t made : Directory) : Prop :=
  ∀ place, made.entry? place = t.entry? place ∨
    t.entry? place = none ∧ made.entry? place = some .dir

theorem Grows.entry?_eq (h : t.Grows made) (he : t.entry? place = some e) :
    made.entry? place = some e := by
  obtain hsame | ⟨hnone, -⟩ := h place
  · rw [hsame, he]
  · rw [he] at hnone
    cases hnone

theorem Reaches.grows (h : t.Reaches follow links here names place) (hgrows : t.Grows made) :
    made.Reaches follow links here names place := by
  induction h with
  | done links here => exact .done links here
  | stay h _ ih => exact .stay h ih
  | up h _ ih => exact .up h ih
  | down hname h _ ih => exact .down hname (hgrows.entry?_eq h) ih
  | through hname h hfollow htarget _ ih =>
    exact .through hname (hgrows.entry?_eq h) hfollow htarget ih
  | file hname h => exact .file hname (hgrows.entry?_eq h)
  | link hname h hfollow => exact .link hname (hgrows.entry?_eq h) hfollow
  | free hname h hrest =>
    obtain hsame | ⟨-, hdir⟩ := hgrows _
    · exact .free hname (hsame.trans h) hrest
    · exact .down hname hdir (reaches_of_blank hrest)

theorem ne_nil_of_entry? (h : t.entry? place ≠ some .dir) : place ≠ [] := by
  rintro rfl
  exact h rfl

theorem grows_put (h : t.entry? place = none) : t.Grows (t.put place .dir) := by
  intro other
  by_cases hother : other = place
  · subst hother
    have hplace : other ≠ [] := ne_nil_of_entry? (t := t) (by simp [h])
    exact .inr ⟨h, entry?_put_self hplace⟩
  · exact .inl (entry?_put_of_ne hother)

/-- What is new are directories, and some beginning of the steps leads to each. -/
def Makes (steps : List String) (t made : Directory) : Prop :=
  ∀ place, made.entry? place = t.entry? place ∨
    t.entry? place = none ∧ made.entry? place = some .dir ∧
      ∃ part, part <+: steps ∧ made.Leads true ("/".intercalate part) place

namespace Makes

variable {steps more : List String} {u v : Directory}

theorem grows (h : Makes steps t made) : t.Grows made :=
  fun place => (h place).imp_right fun hnew => ⟨hnew.1, hnew.2.1⟩

theorem refl (steps : List String) (t : Directory) : Makes steps t t := fun _ => .inl rfl

theorem mono (h : Makes steps t made) (hsteps : steps <+: more) : Makes more t made :=
  fun place => (h place).imp_right fun ⟨hnone, hdir, part, hpart, hleads⟩ =>
    ⟨hnone, hdir, part, hpart.trans hsteps, hleads⟩

theorem trans (h : Makes steps t u) (h' : Makes steps u v) : Makes steps t v := by
  intro place
  obtain hsame' | ⟨hnone', hdir', hleads'⟩ := h' place
  · rw [hsame']
    exact (h place).imp_right fun ⟨hnone, hdir, part, hpart, hleads⟩ =>
      ⟨hnone, hdir, part, hpart, hleads.grows h'.grows⟩
  · obtain hsame | ⟨-, hdir, -⟩ := h place
    · exact .inr ⟨hsame.symm.trans hnone', hdir', hleads'⟩
    · rw [hnone'] at hdir
      cases hdir

end Makes

variable {steps : List String}

theorem make_eq_ok {path : String} (h : t.make path = .ok made) :
    ∃ place, t.Leads false path place ∧ t.entry? place = none ∧ made = t.put place .dir := by
  rw [make, Outcome.bind_eq_ok_iff] at h
  obtain ⟨⟨place, found⟩, hpath, h⟩ := h
  obtain ⟨hleads, rfl⟩ := resolve_eq_ok_iff.1 hpath
  cases hnone : t.entry? place with
  | none =>
    rw [hnone] at h
    cases h
    exact ⟨place, hleads, hnone, rfl⟩
  | some e =>
    rw [hnone] at h
    cases h

theorem makes_of_make (h : t.make ("/".intercalate steps) = .ok made) : Makes steps t made := by
  obtain ⟨place, hleads, hnone, rfl⟩ := make_eq_ok h
  have hgrows := grows_put hnone
  have hreaches := (hleads.followed fun target => by simp [hnone]).grows hgrows
  intro other
  by_cases hother : other = place
  · subst hother
    exact (hgrows other).imp_right fun ⟨hnone, hdir⟩ =>
      ⟨hnone, hdir, steps, List.prefix_rfl, hreaches⟩
  · exact .inl (entry?_put_of_ne hother)

theorem makes_of_ensureDir (h : t.ensureDir ("/".intercalate steps) = .ok made) :
    Makes steps t made := by
  rw [ensureDir] at h
  split at h
  · rename_i hmade
    cases h
    exact makes_of_make hmade
  · split at h
    · cases h
      exact .refl steps t
    · cases h

/-- Whether a directory is made or not, what was there before stays. -/
theorem makes_settle
    {settle : Except OsError Directory → Directory → Except OsError Unit × Directory}
    (hok : ∀ made before, (settle (.ok made) before).2 = made)
    (herror : ∀ e before, (settle (.error e) before).2 = before) (steps : List String)
    (t : Directory) : Makes steps t (settle (t.ensureDir ("/".intercalate steps)) t).2 := by
  cases hmade : t.ensureDir ("/".intercalate steps) with
  | ok made =>
    rw [hok]
    exact makes_of_ensureDir hmade
  | error e =>
    rw [herror]
    exact .refl steps t

/-- Directories made before a failure stay. -/
theorem makes_makeAll (names : List String) (t : Directory) :
    Makes names.reverse t (makeAll names t).2 := by
  fun_induction makeAll names t with
  | case1 t => exact .refl _ t
  | case2 name above t path settle _ _ made hrun ih =>
    rw [hrun] at ih
    have habove : Makes (name :: above).reverse t made := ih.mono (by simp)
    exact habove.trans (makes_settle (fun _ _ => rfl) (fun _ _ => rfl) _ made)
  | case3 name above t path _ _ ih => exact ih.mono (by simp)
  | case4 name above t path settle _ => exact makes_settle (fun _ _ => rfl) (fun _ _ => rfl) _ t

/-! ## New files -/

/-- Directories on the way to `dir` may be made. Then the entry is put under its name into the
directory there, or nothing more is done. -/
inductive PutIn (dir name : String) (e : TreeEntry) (t : Directory) :
    Outcome FileError Unit × Directory → Prop
  | failed {made : Directory} (fault : Fault FileError) (h : Makes (Path.steps dir) t made) :
      PutIn dir name e t (.error fault, made)
  | done {made : Directory} {home : List String} (h : Makes (Path.steps dir) t made)
      (hhome : made.Leads true dir home) :
      PutIn dir name e t (.ok (), made.put (home ++ [name]) e)

theorem install_eq_ok {path : String} {data : Bytes} {mode : Nat}
    (h : t.install path data mode = .ok made) : ∃ place, t.Leads false path place ∧
      t.entry? place ≠ some .dir ∧ made = t.put place (.file data mode) := by
  rw [install] at h
  split at h
  · cases h
  · dsimp only at h
    split at h
    · cases h
    · obtain ⟨⟨place, found⟩, hpath, h⟩ := Outcome.bind_eq_ok_iff.1 h
      obtain ⟨hleads, rfl⟩ := resolve_eq_ok_iff.1 hpath
      split at h
      · cases h
      · rename_i hdir hfound
        cases hfound
        cases h
        exact ⟨place, hleads, hdir, rfl⟩

/-- A file written under a plain name is put into the directory, and nowhere else. -/
theorem putIn_replace (t : Directory) (dir : String) (data : Bytes) (mode : Nat)
    (hname : Path.isPlain name = true) :
    PutIn dir name (.file data mode) t (t.replace (Path.join dir name) data mode) := by
  have hsteps : (Path.steps (Path.join dir name)).dropLast.reverse = (Path.steps dir).reverse := by
    rw [Path.steps_join dir hname, List.dropLast_concat]
  have hmakes := makes_makeAll (Path.steps dir).reverse t
  rw [List.reverse_reverse] at hmakes
  rw [replace, hsteps]
  generalize makeAll (Path.steps dir).reverse t = ways at hmakes
  obtain ⟨_ | _, made⟩ := ways
  · exact .failed _ hmakes
  · dsimp only
    cases hdone : made.install (Path.join dir name) data mode with
    | error why => exact .failed _ hmakes
    | ok done =>
      obtain ⟨place, hleads, -, rfl⟩ := install_eq_ok hdone
      obtain ⟨home, rfl, hhome⟩ := hleads.exists_home hname
      exact .done hmakes hhome

/-- What has another name stays as it is, in this directory and in every other one. -/
theorem PutIn.entry?_eq {dir : String} {old : TreeEntry} {out : Outcome FileError Unit × Directory}
    (h : PutIn dir name e t out) (hplace : place.getLast? ≠ some name)
    (hold : t.entry? place = some old) : entry? out.2 place = some old := by
  cases h with
  | failed fault h => exact h.grows.entry?_eq hold
  | done h hhome =>
    rw [entry?_put_of_ne, h.grows.entry?_eq hold]
    rintro rfl
    exact hplace (List.getLast?_concat)

end Directory
end CertAuthority
