import RepoSurvey.Proofs.Path.Normal

/-!
# Entries of a directory

The path of an entry is that of its directory with a name behind it. Where the directory has an
absolute path in normal form, both are found again: the directory as what stands in front of the
last slash (`directory_append`), and the name as what stands behind it (`extension_append`).

A name has no extension exactly if no point stands behind the points at its front
(`extension_append_eq_empty_iff`).

A path may be given by its names (`ofNames`). A way that goes up from there and then down to names
leads to the names that are left, with the new ones behind them (`normal_append_climb`).
-/

namespace RepoSurvey.Path

open RepoSurvey.Text

variable {cs name : List Char}

/-! ### A directory and a name -/

theorem isAbsolute_eq_false_of_not_mem (h : '/' ∉ name) : isAbsolute name = false := by
  rw [isAbsolute, beq_eq_false_iff_ne]
  exact fun hhead ↦ h (List.mem_of_head? hhead)

/-- Only the root stops with a slash. -/
theorem InNormalForm.eq_root_of_getLast? (h : InNormalForm cs) (hlast : cs.getLast? = some '/') :
    cs = ['/'] ∨ cs = ['/', '/'] := by
  obtain ⟨mark, ps, hmark, hps, rfl⟩ := h
  rcases List.eq_nil_or_concat' ps with rfl | ⟨front, last, rfl⟩
  · simpa [join] using hmark
  · have hdown : LeadsDown last := hps last (by simp)
    obtain ⟨text, htext⟩ := exists_join_concat ['/'] front
    rw [htext, ← List.append_assoc, List.getLast?_append_of_ne_nil _ hdown.ne_nil] at hlast
    exact absurd (List.mem_of_getLast? hlast) hdown.1

/-- The path of an entry, by whether the directory is the root. -/
theorem joinChars_of_inNormalForm (h : InNormalForm cs) (hname : '/' ∉ name) :
    ((cs = ['/'] ∨ cs = ['/', '/']) ∧ joinChars cs name = cs ++ name) ∨
      (cs.getLast? ≠ some '/' ∧ joinChars cs name = cs ++ '/' :: name) := by
  have hne : cs ≠ [] := by
    rintro rfl
    exact absurd h.isAbsolute (by decide)
  rw [joinChars, isAbsolute_eq_false_of_not_mem hname, if_neg Bool.false_ne_true]
  by_cases hlast : cs.getLast? = some '/'
  · exact Or.inl ⟨h.eq_root_of_getLast? hlast, by simp [hlast]⟩
  · exact Or.inr ⟨hlast, by simp [hne, hlast]⟩

/-- The path of an entry stops with a slash and the name. -/
theorem exists_joinChars_eq (h : InNormalForm cs) (hname : '/' ∉ name) :
    ∃ front, joinChars cs name = front ++ '/' :: name := by
  rcases joinChars_of_inNormalForm h hname with ⟨rfl | rfl, hjoin⟩ | ⟨-, hjoin⟩
  · exact ⟨[], hjoin⟩
  · exact ⟨['/'], hjoin⟩
  · exact ⟨cs, hjoin⟩

/-- What stands behind the last slash of the path of an entry is its name. -/
theorem baseChars_joinChars (h : InNormalForm cs) (hname : '/' ∉ name) :
    baseChars (joinChars cs name) = name := by
  obtain ⟨front, hfront⟩ := exists_joinChars_eq h hname
  obtain ⟨htake, -⟩ := takeWhile_dropWhile_reverse hname front
  rw [baseChars, hfront, htake, List.reverse_reverse]

/-- What stands in front of the last slash of the path of an entry is the directory. -/
theorem dirChars_joinChars (h : InNormalForm cs) (hname : '/' ∉ name) :
    dirChars (joinChars cs name) = cs := by
  have hhead (front : List Char) :
      ((front ++ '/' :: name).reverse.dropWhile (· != '/')).reverse = front ++ ['/'] := by
    obtain ⟨-, hdrop⟩ := takeWhile_dropWhile_reverse hname front
    rw [hdrop, List.reverse_cons, List.reverse_reverse]
  rcases joinChars_of_inNormalForm h hname with ⟨rfl | rfl, hjoin⟩ | ⟨hlast, hjoin⟩
  · rw [hjoin, dirChars, show ['/'] ++ name = [] ++ '/' :: name from rfl, hhead]
    rfl
  · rw [hjoin, dirChars, show ['/', '/'] ++ name = ['/'] ++ '/' :: name from rfl, hhead]
    rfl
  · -- the slash that was put behind the directory is the only one that goes
    have hne : cs ≠ [] := by
      rintro rfl
      exact absurd h.isAbsolute (by decide)
    obtain ⟨front, last, rfl⟩ := (List.eq_nil_or_concat' cs).resolve_left hne
    have hslash : last ≠ '/' := by simpa using hlast
    rw [hjoin, dirChars, hhead]
    simp [hslash]

/-- What is put behind the name of an entry is put behind its path. -/
theorem joinChars_append (hne : name ≠ []) (cs tail : List Char) :
    joinChars cs (name ++ tail) = joinChars cs name ++ tail := by
  have habsolute : isAbsolute (name ++ tail) = isAbsolute name := by
    rw [isAbsolute, isAbsolute, List.head?_append_of_ne_nil _ hne]
  unfold joinChars
  rw [habsolute]
  split_ifs <;> simp

/-! ### Extensions -/

/-- A name without an extension: no point stands behind the points at its front. -/
def IsBare (name : List Char) : Prop := '.' ∉ name.dropWhile (· == '.')

instance : DecidablePred IsBare := fun name ↦
  inferInstanceAs (Decidable ('.' ∉ name.dropWhile (· == '.')))

/-- A name without a point has no extension. -/
theorem splitName_of_not_mem (h : '.' ∉ name) : splitName name = (name, []) := by
  have hnone : name.reverse.dropWhile (· != '.') = [] := by
    rw [List.dropWhile_eq_nil_iff]
    exact forall_bne_of_not_mem fun hmem ↦ h (List.mem_reverse.1 hmem)
  rw [splitName, hnone]

/-- The last point of a name begins its extension, unless only points stand in front of it. -/
theorem splitName_append {ext : List Char} (hext : '.' ∉ ext) (front : List Char) :
    splitName (front ++ '.' :: ext) =
      if front.all (· == '.') then (front ++ '.' :: ext, []) else (front, '.' :: ext) := by
  obtain ⟨htake, hdrop⟩ := takeWhile_dropWhile_reverse hext front
  rw [splitName, htake, hdrop]
  simp only [List.all_reverse, List.reverse_reverse]

/-- A name with a last point is bare exactly if only points stand in front of it. -/
theorem isBare_append_iff {ext : List Char} (hext : '.' ∉ ext) (front : List Char) :
    IsBare (front ++ '.' :: ext) ↔ front.all (· == '.') = true := by
  rw [IsBare, List.dropWhile_append]
  split
  · rename_i hpoints
    have hnone : front.dropWhile (· == '.') = [] := List.isEmpty_iff.1 hpoints
    have hrest : '.' ∉ ext.dropWhile (· == '.') := fun h ↦
      hext ((List.dropWhile_sublist _).mem h)
    rw [List.dropWhile_eq_nil_iff] at hnone
    simpa [hrest] using hnone
  · rename_i hpoints
    rw [List.isEmpty_iff, List.dropWhile_eq_nil_iff, ← List.all_eq_true] at hpoints
    simp [hpoints]

/-- A name has no extension exactly if no point stands behind those at its front. -/
theorem splitName_snd_eq_nil_iff (name : List Char) : (splitName name).2 = [] ↔ IsBare name := by
  by_cases hpoint : '.' ∈ name
  · -- the extension begins at the last point
    obtain ⟨ext, front, hname, hext⟩ := List.eq_append_cons_of_mem (List.mem_reverse.2 hpoint)
    obtain rfl : name = front.reverse ++ '.' :: ext.reverse := by
      rw [← List.reverse_reverse name, hname]
      simp
    have hext : '.' ∉ ext.reverse := by simpa using hext
    rw [splitName_append hext, isBare_append_iff hext]
    split <;> simp [*]
  · have hbare : IsBare name := fun h ↦ hpoint ((List.dropWhile_sublist _).mem h)
    simp [splitName_of_not_mem hpoint, hbare]

/-! ### Paths as strings -/

variable {dir entry : String}

/-- The directory of an entry is the one that it has been seen from. -/
theorem directory_append (h : InNormalForm dir.toList) (hentry : '/' ∉ entry.toList) :
    directory (append dir entry) = dir := by
  rw [directory, append, String.toList_ofList, dirChars_joinChars h hentry, String.ofList_toList]

/-- What is put behind the name of an entry is put behind its path. -/
theorem append_append (hne : entry ≠ "") (dir tail : String) :
    append dir (entry ++ tail) = append dir entry ++ tail := by
  have hchars : entry.toList ≠ [] := by simpa using hne
  rw [append, String.toList_append, joinChars_append hchars, String.ofList_append,
    String.ofList_toList, append]

/-- An entry has no extension exactly if its name is bare. -/
theorem extension_append_eq_empty_iff (h : InNormalForm dir.toList)
    (hentry : '/' ∉ entry.toList) :
    extension (append dir entry) = "" ↔ IsBare entry.toList := by
  rw [extension, append, String.toList_ofList, extensionChars, baseChars_joinChars h hentry,
    ← splitName_snd_eq_nil_iff]
  exact String.ofList_eq_empty_iff

/-! ### Paths of names -/

/-- The path that has names as its components. -/
def ofNames (names : List String) : String := "/" ++ "/".intercalate names

/-- The characters of the path of names: slashes stand between them, and one at the front. -/
theorem toList_ofNames (names : List String) :
    (ofNames names).toList = ['/'] ++ join ['/'] (names.map String.toList) := by
  rw [ofNames, String.toList_append, String.toList_intercalate, join_eq_intercalate]
  rfl

/-- A path stops as its last name does. -/
theorem endsWith_ofNames (directories : List String) (stem back : String) :
    endsWith (ofNames (directories ++ [stem ++ back])) back = true := by
  obtain ⟨front, hfront⟩ := exists_join_concat ['/'] (directories.map String.toList)
  rw [endsWith, List.isPrefixOf_iff_prefix, List.reverse_prefix, toList_ofNames, List.map_append,
    List.map_singleton, hfront, String.toList_append]
  exact ⟨['/'] ++ front ++ stem.toList, by simp⟩

section Directories

variable {directories : List String} (h : ∀ d ∈ directories, LeadsDown d.toList)

include h

/-- All of the names lead down. -/
theorem leadsDown_of_mem_map : ∀ p ∈ directories.map String.toList, LeadsDown p := by
  intro p hp
  obtain ⟨d, hd, rfl⟩ := List.mem_map.1 hp
  exact h d hd

/-- The path of names that lead down is in normal form. -/
theorem inNormalForm_ofNames : InNormalForm (ofNames directories).toList :=
  ⟨['/'], directories.map String.toList, Or.inl rfl, leadsDown_of_mem_map h,
    toList_ofNames directories⟩

/-- Its components are the names. -/
theorem parts_ofNames :
    parts (ofNames directories).toList = directories.map String.toList := by
  rw [toList_ofNames]
  exact parts_mark_append (Or.inl rfl) (leadsDown_of_mem_map h)

/-- It keeps one slash at its front. -/
theorem rootMark_ofNames : rootMark (ofNames directories).toList = ['/'] := by
  have hsolid : ∀ p ∈ directories.map String.toList, '/' ∉ p ∧ isIdle p = false := fun p hp ↦
    ⟨(leadsDown_of_mem_map h p hp).1, (leadsDown_of_mem_map h p hp).2.1⟩
  rw [toList_ofNames]
  exact rootMark_append ['/'] (head?_join_ne hsolid)

/-- A file in a directory that is given by its components. -/
theorem append_ofNames {file : String} (hfile : '/' ∉ file.toList) :
    append (ofNames directories) file = ofNames (directories ++ [file]) := by
  have hform := inNormalForm_ofNames h
  rw [← String.toList_inj, append, String.toList_ofList,
    toList_ofNames (directories ++ [file]), List.map_append]
  rcases joinChars_of_inNormalForm hform hfile with ⟨hroot, hjoin⟩ | ⟨hlast, hjoin⟩
  · have hnil : directories.map String.toList = [] := by
      rw [← parts_ofNames h]
      rcases hroot with hroot | hroot <;> rw [hroot] <;> rfl
    rw [hjoin, toList_ofNames, hnil]
    rfl
  · have hne : directories.map String.toList ≠ [] := by
      intro hnil
      rw [toList_ofNames, hnil] at hlast
      exact hlast rfl
    rw [hjoin, toList_ofNames, List.map_singleton, join_concat _ _ hne]
    simp

/-- Without the last name it is the path of the directory. -/
theorem directory_ofNames {file : String} (hfile : '/' ∉ file.toList) :
    directory (ofNames (directories ++ [file])) = ofNames directories := by
  rw [← append_ofNames h hfile]
  exact directory_append (inNormalForm_ofNames h) hfile

/-- A way that goes up and then down to names, as seen from a directory. -/
theorem normal_append_climb {names : List String}
    (hnames : ∀ x ∈ names, LeadsDown x.toList) {k : Nat} {way : List Char}
    (hway : isAbsolute way = false)
    (hparts : parts way = List.replicate k dotDot ++ names.map String.toList) :
    normal (append (ofNames directories) (String.ofList way)) =
      ofNames (directories.take (directories.length - k) ++ names) := by
  have hrooted := (inNormalForm_ofNames h).isAbsolute
  have hclimb := normalParts_climb (directories.map String.toList) k
    fun p hp ↦ (leadsDown_of_mem_map hnames p hp).2.2
  rw [normalParts_of_ne fun p hp ↦ (leadsDown_of_mem_map h p hp).2.2] at hclimb
  rw [← String.toList_inj, normal, append, String.toList_ofList, String.toList_ofList,
    String.toList_ofList, normalChars_of_isAbsolute (isAbsolute_joinChars hrooted way),
    rootMark_joinChars hrooted hway, parts_joinChars _ hway, rootMark_ofNames h,
    parts_ofNames h, hparts, hclimb, toList_ofNames, List.map_append, List.map_take,
    List.length_map]

end Directories

end RepoSurvey.Path
