import Mathlib.Data.List.Induction
import RepoSurvey.Proofs.Path.Normal

/-!
# Where a path leads

A path leads where one comes who begins at the root and follows its components (`placeOf`): an empty
one and a point lead nowhere, two points lead back, and at the root they lead nowhere either. These
are the components of the normal form of the path as seen from the root (`placeOf_eq`), so a path
and its normal form lead to the same place (`placeOf_absolute`).

Whoever follows components loses some of the last names of the place where they begin, and comes by
names that are among the components, in their order (`exists_prefix_follow`).
-/

namespace RepoSurvey.Path

open RepoSurvey.Text RepoSurvey.FileTree RepoSurvey.Scan

/-- Where a component leads from a place. -/
def enter (place : List String) (component : String) : List String :=
  if component = "" ∨ component = "." then place
  else if component = ".." then place.dropLast
  else place ++ [component]

/-- Where components lead from a place, one after the other. -/
def follow (place cs : List String) : List String := cs.foldl enter place

/-- The names on the way from the root to where a path leads. -/
def placeOf (path : String) : List String := follow [] (components path)

theorem follow_append (place cs ds : List String) :
    follow place (cs ++ ds) = follow (follow place cs) ds :=
  List.foldl_append

/-! ### Places and normal forms -/

theorem ofList_eq_iff (cs ds : List Char) : String.ofList cs = String.ofList ds ↔ cs = ds := by
  rw [← String.toList_inj, String.toList_ofList, String.toList_ofList]

/-- A component leads to where it leads in a normal form. -/
theorem enter_map {kept : List (List Char)} (hkept : ∀ p ∈ kept, p ≠ dotDot) (part : List Char) :
    enter (kept.reverse.map String.ofList) (String.ofList part) =
      (if isIdle part then kept else pushPart true kept part).reverse.map String.ofList := by
  have hidle : (String.ofList part = "" ∨ String.ofList part = ".") ↔ isIdle part = true := by
    rw [isIdle, Bool.or_eq_true, List.isEmpty_iff, beq_iff_eq]
    exact or_congr (ofList_eq_iff part []) (ofList_eq_iff part ['.'])
  have hup : String.ofList part = ".." ↔ part = dotDot := ofList_eq_iff part dotDot
  rw [enter, if_congr hidle rfl rfl, if_congr hup rfl rfl]
  by_cases hi : isIdle part = true
  · rw [if_pos hi, if_pos hi]
  rw [if_neg hi, if_neg hi]
  by_cases hp : part = dotDot
  · rw [if_pos hp, hp]
    cases kept with
    | nil => rfl
    | cons last others =>
      rw [pushPart_dotDot (hkept last List.mem_cons_self)]
      simp
  · rw [if_neg hp, pushPart_of_ne hp]
    simp

/-- Following components is what a normal form does with its parts, from the root on. -/
theorem follow_map {kept : List (List Char)} (hkept : ∀ p ∈ kept, p ≠ dotDot)
    (ps : List (List Char)) :
    follow (kept.reverse.map String.ofList) (ps.map String.ofList) =
      ((ps.filter fun p ↦ !isIdle p).foldl (pushPart true) kept).reverse.map String.ofList := by
  -- what is kept never holds two points, so what comes next has a name to take away
  induction ps generalizing kept with
  | nil => rfl
  | cons part ps ih =>
    have hnext : ∀ p ∈ [part].foldl (pushPart true) kept, p ≠ dotDot := fun p hp ↦
      (mem_of_mem_foldl_pushPart hkept hp).2
    rw [follow, List.map_cons, List.foldl_cons, enter_map hkept]
    by_cases hi : isIdle part = true
    · rw [if_pos hi, List.filter_cons_of_neg (by simp [hi])]
      exact ih hkept
    · rw [if_neg hi, List.filter_cons_of_pos (by simp [hi]), List.foldl_cons]
      exact ih hnext

/-- Seen from the root, the parts of a path are those of its normal form. -/
theorem absoluteParts_eq (cs : List Char) :
    absoluteParts ['/'] cs = normalParts true (parts cs) := by
  by_cases h : isAbsolute cs = true
  · exact absoluteParts_of_isAbsolute ['/'] h
  · have hroot : parts ['/'] = [] := rfl
    rw [absoluteParts, parts_joinChars ['/'] (by simpa using h), hroot, List.nil_append]

/-- A path leads to the parts that it has as seen from the root. -/
theorem placeOf_eq (path : String) :
    placeOf path = (absoluteParts ['/'] path.toList).map String.ofList := by
  rw [absoluteParts_eq]
  have hnone : ∀ p ∈ ([] : List (List Char)), p ≠ dotDot := by simp
  exact follow_map hnone (split '/' path.toList)

/-- Where a path that begins at the root leads is told by its components as seen from any
directory. -/
theorem placeOf_of_isRooted (here : List Char) {path : String} (h : isRooted path = true) :
    placeOf path = (absoluteParts here path.toList).map String.ofList := by
  rw [placeOf_eq, absoluteParts_eq, absoluteParts_of_isAbsolute here h]

theorem map_ofList_injective : Function.Injective (List.map String.ofList) :=
  List.map_injective_iff.2 fun cs ds h ↦ (ofList_eq_iff cs ds).1 h

/-- Two paths lead to the same place if they have the same components as seen from the root. -/
theorem placeOf_eq_iff {a b : String} :
    placeOf a = placeOf b ↔ absoluteParts ['/'] a.toList = absoluteParts ['/'] b.toList := by
  rw [placeOf_eq, placeOf_eq]
  exact map_ofList_injective.eq_iff

/-- A path and its absolute form lead to the same place. -/
theorem placeOf_absolute (path : String) : placeOf (absolute path) = placeOf path := by
  have hroot : isAbsolute (joinChars ['/'] path.toList) = true := isAbsolute_joinChars rfl _
  have hslash : "/".toList = ['/'] := rfl
  have hdown : ∀ p ∈ absoluteParts ['/'] path.toList, p ≠ dotDot := fun p hp ↦
    (of_mem_absoluteParts hp).2.2
  rw [placeOf_eq_iff, absolute, normal, String.toList_ofList, append, String.toList_ofList, hslash,
    absoluteParts_eq, parts_normalChars hroot]
  exact normalParts_of_ne hdown

/-- What is seen from a place leads to where its components lead from there. -/
theorem placeOf_slash (directory path : String) :
    placeOf (directory ++ "/" ++ path) = follow (placeOf directory) (components path) := by
  have hslash : "/".toList = ['/'] := rfl
  have hcomponents : components (directory ++ "/" ++ path) =
      components directory ++ components path := by
    rw [components, splitString, String.toList_append, String.toList_append, hslash,
      List.append_assoc, List.singleton_append, split_append_sep, List.map_append]
    rfl
  rw [placeOf, hcomponents, follow_append, placeOf]

/-- A relative path leads on from the directory from which it is seen. -/
theorem placeOf_append (directory : String) {path : String} (h : isRooted path = false) :
    placeOf (append directory path) = placeOf (directory ++ "/" ++ path) := by
  have hslash : "/".toList = ['/'] := rfl
  rw [placeOf_eq_iff, append, String.toList_ofList, absoluteParts_eq, parts_joinChars _ h,
    absoluteParts_eq, String.toList_append, String.toList_append, hslash, List.append_assoc,
    List.singleton_append, parts_append_sep]

/-- A path that begins at the root is where it is. -/
theorem append_of_isRooted (directory : String) {path : String} (h : isRooted path = true) :
    append directory path = path := by
  have hchars : isAbsolute path.toList = true := h
  rw [append, joinChars_of_isAbsolute _ hchars, String.ofList_toList]

/-! ### What is lost and gained on a way -/

/-- Following components keeps a front of the place, and all that is new are names among the
components. -/
theorem exists_prefix_follow (place cs : List String) : ∃ kept gained,
    follow place cs = kept ++ gained ∧ kept <+: place ∧ gained.Sublist cs := by
  induction cs using List.reverseRecOn with
  | nil => exact ⟨place, [], by simp [follow], List.prefix_rfl, List.Sublist.refl []⟩
  | append_singleton cs component ih =>
    obtain ⟨kept, gained, hfollow, hkept, hgained⟩ := ih
    have hlonger : gained.Sublist (cs ++ [component]) :=
      hgained.trans (List.sublist_append_left _ _)
    rw [follow_append, hfollow]
    show ∃ kept' gained', enter (kept ++ gained) component = kept' ++ gained' ∧ kept' <+: place ∧
      gained'.Sublist (cs ++ [component])
    unfold enter
    split_ifs
    · exact ⟨kept, gained, rfl, hkept, hlonger⟩
    · -- the last name goes, which may be one of those that stood there before
      rcases List.eq_nil_or_concat' gained with rfl | ⟨front, last, rfl⟩
      · refine ⟨kept.dropLast, [], by simp, ?_, List.nil_sublist _⟩
        exact (List.dropLast_prefix kept).trans hkept
      · refine ⟨kept, front, ?_, hkept, ?_⟩
        · rw [← List.append_assoc, List.dropLast_concat]
        · exact (List.sublist_append_left front [last]).trans hlonger
    · refine ⟨kept, gained ++ [component], List.append_assoc _ _ _, hkept, ?_⟩
      exact hgained.append (List.Sublist.refl [component])

/-- Behind the place where one begins stand only names that are among the components. -/
theorem sublist_of_follow {start place cs way : List String} (hstart : start <+: place)
    (h : follow start cs = place ++ way) : way.Sublist cs := by
  obtain ⟨kept, gained, hfollow, hkept, hgained⟩ := exists_prefix_follow start cs
  obtain ⟨more, rfl⟩ := hkept.trans hstart
  rw [hfollow, List.append_assoc, List.append_cancel_left_eq] at h
  rw [h] at hgained
  exact (List.sublist_append_right more way).trans hgained

/-! ### The text of names -/

/-- All that stands on the way to a place is a name. -/
theorem isName_of_mem_placeOf {path name : String} (h : name ∈ placeOf path) :
    isName name = true := by
  rw [placeOf_eq] at h
  obtain ⟨p, hp, rfl⟩ := List.mem_map.1 h
  obtain ⟨hslash, hidle, hup⟩ := of_mem_absoluteParts hp
  rw [← isIdle_ofList, FileTree.isIdle, Bool.or_eq_false_iff, beq_eq_false_iff_ne,
    beq_eq_false_iff_ne] at hidle
  have hdots : String.ofList p ≠ ".." := fun h ↦ hup ((ofList_eq_iff p dotDot).1 h)
  simp [isName, hidle, hdots, hslash]

theorem isName_iff {name : String} :
    isName name = true ↔ name ≠ "" ∧ name ≠ "." ∧ name ≠ ".." ∧ '/' ∉ name.toList := by
  simp [isName, and_assoc]

theorem map_toList_map_ofList (ps : List (List Char)) :
    (ps.map String.ofList).map String.toList = ps := by
  rw [List.map_map]
  exact (List.map_congr_left fun p _ ↦ String.toList_ofList).trans (List.map_id ps)

/-- The text of names is the path that has them as components. -/
theorem ofList_ofParts {ps : List (List Char)} (hne : ps ≠ []) (hps : ∀ p ∈ ps, LeadsDown p) :
    String.ofList (ofParts [] ps) = pathText (ps.map String.ofList) := by
  have hjoin := join_ne_nil hne fun p hp ↦ (hps p hp).2.1
  rw [ofParts_eq (by simpa using hjoin), List.nil_append, join_eq_intercalate, pathText,
    ← String.toList_inj, String.toList_ofList, String.toList_intercalate, map_toList_map_ofList]
  rfl

/-- The text of names that are among the components of a path. -/
theorem sublist_pathText {names : List String} {path : String}
    (h : names.Sublist (components path)) : (pathText names).toList.Sublist path.toList := by
  have hchars : (names.map String.toList).Sublist (split '/' path.toList) := by
    have hmap := h.map String.toList
    rwa [components, splitString, map_toList_map_ofList] at hmap
  have hjoin := join_sublist ['/'] hchars
  rw [join_split, join_eq_intercalate] at hjoin
  rwa [pathText, String.toList_intercalate]

end RepoSurvey.Path
