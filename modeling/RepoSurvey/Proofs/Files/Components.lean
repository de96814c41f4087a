import RepoSurvey.Files.Scan
import RepoSurvey.Proofs.Files.Lookup
import RepoSurvey.Proofs.Text.Pieces

/-!
# Components of written paths

A path is written with slashes, and read as the components between them. Reading back what has been
written gives the components again, apart from those that lead nowhere (`components_clean`,
`wayOf_components_pathBelow`). So the path of a file below a directory leads where its components
lead, unless it is too long (`resolve_pathBelow_iff`), and no two files below a directory share a
path (`pathBelow_injective`). A path is no longer when it is clean (`isLongPath_clean`), so that a
directory that can be looked up can be looked up as the place that a scan begins at
(`resolve_pathBelow_nil`).
-/

namespace RepoSurvey

open RepoSurvey.Text RepoSurvey.FileTree

/-! ### Components of a text -/

namespace FileTree

/-- The components of a path that lead somewhere. -/
def wayOf (components : List String) : List String := components.filter fun n ↦ !isIdle n

theorem wayOf_append (p q : List String) : wayOf (p ++ q) = wayOf p ++ wayOf q :=
  List.filter_append ..

theorem wayOf_of_forall_isIdle {p : List String} (h : ∀ n ∈ p, isIdle n = true) : wayOf p = [] :=
  List.filter_eq_nil_iff.2 fun n hn ↦ by simp [h n hn]

theorem wayOf_of_forall_isName {p : List String} (h : ∀ n ∈ p, isName n = true) : wayOf p = p :=
  List.filter_eq_self.2 fun n hn ↦ by simp [isIdle_eq_false_of_isName (h n hn)]

theorem wayOf_wayOf (p : List String) : wayOf (wayOf p) = wayOf p := by
  simp [wayOf, List.filter_filter]

theorem components_ne_nil (s : String) : components s ≠ [] := by
  simpa [components, splitString] using split_ne_nil '/' s.toList

theorem isIdle_ofList (cs : List Char) : isIdle (String.ofList cs) = Path.isIdle cs := by
  have hempty : (String.ofList cs == "") = cs.isEmpty := by
    rw [Bool.eq_iff_iff, beq_iff_eq, List.isEmpty_iff, ← String.toList_inj, String.toList_ofList]
    rfl
  have hpoint : (String.ofList cs == ".") = (cs == ['.']) := by
    rw [Bool.eq_iff_iff, beq_iff_eq, beq_iff_eq, ← String.toList_inj, String.toList_ofList]
    rfl
  rw [isIdle, Path.isIdle, hempty, hpoint]

/-- The components that lead somewhere are the parts of the path. -/
theorem wayOf_components (s : String) :
    wayOf (components s) = (Path.parts s.toList).map String.ofList := by
  rw [wayOf, components, splitString, List.filter_map, Path.parts]
  congr 1
  refine List.filter_congr fun cs _ ↦ ?_
  rw [Function.comp_apply, isIdle_ofList]

/-- A path has no null character if none of its components has one. -/
theorem isSound_iff {s : String} : isSound s = true ↔ ∀ n ∈ components s, isSound n = true := by
  simp only [isSound, Bool.not_eq_true', List.contains_eq_mem, decide_eq_false_iff_not, components,
    splitString, List.mem_map, forall_exists_index, and_imp, forall_apply_eq_imp_iff₂,
    String.toList_ofList]
  constructor
  · exact fun h p hp hnull ↦ h (mem_of_mem_split hp hnull)
  · intro h hnull
    rcases eq_or_exists_mem_split '/' hnull with hslash | ⟨p, hp, hnull⟩
    · exact absurd hslash (by decide)
    · exact h p hp hnull

end FileTree

/-! ### Clean paths -/

namespace Path

/-- Each slash at the front cuts off an empty piece. -/
theorem split_replicate_append (n : Nat) (cs : List Char) :
    split '/' (List.replicate n '/' ++ cs) = List.replicate n [] ++ split '/' cs := by
  induction n with
  | zero => rfl
  | succ n ih =>
    rw [List.replicate_succ, List.cons_append, split, if_pos rfl, ih]
    rfl

/-- The mark of a path consists of slashes. -/
theorem exists_rootMark_eq (cs : List Char) : ∃ n, rootMark cs = List.replicate n '/' := by
  unfold rootMark
  split
  · exact ⟨1, rfl⟩
  · exact ⟨2, rfl⟩
  · exact ⟨1, rfl⟩
  · exact ⟨0, rfl⟩

/-- The mark of a path stands at its front. -/
theorem rootMark_prefix (cs : List Char) : ∃ rest, rootMark cs ++ rest = cs := by
  unfold rootMark
  split
  · exact ⟨_, rfl⟩
  · exact ⟨_, rfl⟩
  · exact ⟨_, rfl⟩
  · exact ⟨cs, rfl⟩

/-- A slash at the end of a path that is no root does not count for its mark. -/
theorem rootMark_append_slash {cs : List Char} (hne : cs ≠ []) (hlast : cs.getLast? ≠ some '/') :
    rootMark (cs ++ ['/']) = rootMark cs := by
  rcases cs with - | ⟨a, - | ⟨b, - | ⟨c, cs⟩⟩⟩
  · exact absurd rfl hne
  · have ha : a ≠ '/' := by simpa using hlast
    simp [rootMark, ha]
  · have hb : b ≠ '/' := by simpa using hlast
    by_cases ha : a = '/' <;> simp [rootMark, ha, hb]
  · by_cases ha : a = '/' <;> by_cases hb : b = '/' <;> by_cases hc : c = '/' <;>
      simp [rootMark, ha, hb, hc]

/-- A path is written as its mark and its parts, unless both are empty. -/
theorem ofParts_eq {mark : List Char} {ps : List (List Char)} (h : mark ++ join ['/'] ps ≠ []) :
    ofParts mark ps = mark ++ join ['/'] ps := by
  unfold ofParts
  split
  · exact absurd ‹_› h
  · rfl

/-- Parts that lead somewhere are not empty, and neither is the path of them. -/
theorem join_ne_nil {ps : List (List Char)} (hne : ps ≠ []) (hps : ∀ p ∈ ps, isIdle p = false) :
    join ['/'] ps ≠ [] := by
  obtain ⟨p, rest, rfl⟩ := List.exists_cons_of_ne_nil hne
  have hp : p ≠ [] := by
    rintro rfl
    exact absurd (hps [] List.mem_cons_self) (by decide)
  by_cases hrest : rest = []
  · rwa [hrest, join_singleton]
  · rw [join_cons _ _ hrest]
    simp [hp]

/-- Apart from components that lead nowhere at its front, a path of components has those. -/
theorem split_ofParts (n : Nat) {ps : List (List Char)}
    (hps : ∀ p ∈ ps, '/' ∉ p ∧ isIdle p = false) :
    ∃ front, (∀ p ∈ front, isIdle p = true) ∧
      split '/' (ofParts (List.replicate n '/') ps) = front ++ ps := by
  by_cases hne : ps = []
  · subst hne
    rcases n with - | n
    · exact ⟨[['.']], by decide, rfl⟩
    · refine ⟨List.replicate (n + 1) [] ++ [[]], ?_, ?_⟩
      · intro p hp
        have hnil : p = [] := by simpa using hp
        exact hnil ▸ rfl
      · rw [ofParts_eq (by simp), split_replicate_append]
        simp [split, join]
  · have hjoin := join_ne_nil hne fun p hp ↦ (hps p hp).2
    refine ⟨List.replicate n [], ?_, ?_⟩
    · intro p hp
      exact (List.mem_replicate.1 hp).2 ▸ rfl
    · rw [ofParts_eq (by simp [hjoin]), split_replicate_append,
        split_join hne fun p hp ↦ (hps p hp).1]

/-- A part holds no slash, and leads somewhere. -/
theorem not_mem_of_mem_parts {cs p : List Char} (hp : p ∈ parts cs) :
    '/' ∉ p ∧ isIdle p = false := by
  obtain ⟨hmem, hidle⟩ := List.mem_filter.1 hp
  exact ⟨not_mem_of_mem_split hmem, by simpa using hidle⟩

/-- A clean path has the components of the path that lead somewhere, and perhaps others in front of
them. -/
theorem components_clean (s : String) :
    ∃ front, (∀ n ∈ front, FileTree.isIdle n = true) ∧
      components (clean s) = front ++ wayOf (components s) := by
  obtain ⟨n, hn⟩ := exists_rootMark_eq s.toList
  have hparts : ∀ p ∈ parts s.toList, '/' ∉ p ∧ isIdle p = false :=
    fun p hp ↦ not_mem_of_mem_parts hp
  obtain ⟨front, hfront, hsplit⟩ := split_ofParts n hparts
  refine ⟨front.map String.ofList, ?_, ?_⟩
  · intro m hm
    obtain ⟨p, hp, rfl⟩ := List.mem_map.1 hm
    rw [isIdle_ofList]
    exact hfront p hp
  · rw [components, splitString, clean, String.toList_ofList, cleanChars, hn, hsplit,
      List.map_append, wayOf_components]

/-- A path leads the same way when it is cleaned. -/
theorem wayOf_components_clean (s : String) :
    wayOf (components (clean s)) = wayOf (components s) := by
  obtain ⟨front, hfront, hclean⟩ := components_clean s
  rw [hclean, wayOf_append, wayOf_of_forall_isIdle hfront, wayOf_wayOf, List.nil_append]

/-- At a slash a path is cut into parts on both sides. -/
theorem parts_append_sep (as bs : List Char) :
    parts (as ++ '/' :: bs) = parts as ++ parts bs := by
  rw [parts, split_append_sep, List.filter_append, parts, parts]

/-- The parts of a path as seen from another one are those of both. -/
theorem parts_joinChars (as : List Char) {bs : List Char} (hbs : isAbsolute bs = false) :
    parts (joinChars as bs) = parts as ++ parts bs := by
  rw [joinChars, if_neg (by simp [hbs])]
  split
  · rename_i has
    rw [Bool.or_eq_true, List.isEmpty_iff, beq_iff_eq] at has
    rcases has with rfl | hlast
    · rfl
    · obtain ⟨front, rfl⟩ := List.getLast?_eq_some_iff.1 hlast
      rw [List.append_assoc, List.singleton_append, parts_append_sep, parts_append_sep]
      simp [parts, split, isIdle]
  · exact parts_append_sep as bs

/-- A path seen from another one leads that one's way first, and then its own. -/
theorem wayOf_components_append (a : String) {b : String} (hb : isRooted b = false) :
    wayOf (components (append a b)) = wayOf (components a) ++ wayOf (components b) := by
  rw [wayOf_components, wayOf_components, wayOf_components, append, String.toList_ofList,
    parts_joinChars _ hb, List.map_append]

/-! ### How long clean paths are -/

/-- A path becomes clean by leaving characters out, unless nothing is left of it. -/
theorem cleanChars_sublist (cs : List Char) :
    (cleanChars cs).Sublist cs ∨ cleanChars cs = ['.'] := by
  obtain ⟨n, hn⟩ := exists_rootMark_eq cs
  obtain ⟨rest, hrest⟩ := rootMark_prefix cs
  have hparts : parts cs = parts rest := by
    rw [← hrest, hn, parts, split_replicate_append, List.filter_append,
      List.filter_eq_nil_iff.2 fun p hp ↦ by rw [(List.mem_replicate.1 hp).2]; decide,
      List.nil_append, parts]
  have hjoin : (join ['/'] (parts cs)).Sublist rest := by
    have hfilter := join_sublist ['/'] (List.filter_sublist (l := split '/' rest)
      (p := fun p ↦ !isIdle p))
    rw [join_split] at hfilter
    exact hparts ▸ hfilter
  unfold cleanChars ofParts
  split
  · exact Or.inr rfl
  · refine Or.inl ?_
    conv_rhs => rw [← hrest]
    exact (List.Sublist.refl _).append hjoin

/-- To go nowhere from a path is to stay there. -/
theorem clean_append_empty (s : String) : clean (append s "") = clean s := by
  have hchars : (append s "").toList = s.toList ∨
      (append s "").toList = s.toList ++ ['/'] ∧ s.toList ≠ [] ∧ s.toList.getLast? ≠ some '/' := by
    rw [append, String.toList_ofList, String.toList_empty, joinChars, if_neg (by decide)]
    split
    · exact Or.inl (List.append_nil _)
    · rename_i hlast
      exact Or.inr ⟨rfl, by simpa using hlast⟩
  rcases hchars with hchars | ⟨hchars, hne, hlast⟩
  · rw [clean, hchars, clean]
  · have hparts : parts (s.toList ++ ['/']) = parts s.toList := by
      rw [parts_append_sep]
      exact List.append_nil _
    rw [clean, hchars, cleanChars, rootMark_append_slash hne hlast, hparts, clean, cleanChars]

/-- With fewer characters a text has no more bytes. -/
theorem utf8ByteSize_le_of_sublist {cs ds : List Char} (h : cs.Sublist ds) :
    (String.ofList cs).utf8ByteSize ≤ (String.ofList ds).utf8ByteSize := by
  have hcons (c : Char) (cs : List Char) : (String.ofList (c :: cs)).utf8ByteSize =
      c.utf8Size + (String.ofList cs).utf8ByteSize := by
    rw [← List.singleton_append, String.ofList_append, String.utf8ByteSize_append,
      ← String.singleton_eq_ofList, String.utf8ByteSize_singleton]
  induction h with
  | slnil => exact Nat.le_refl _
  | cons c _ ih => exact (ih.trans (Nat.le_add_left _ _)).trans (hcons c _).ge
  | cons_cons c _ ih =>
    rw [hcons, hcons]
    exact Nat.add_le_add_left ih _

/-- A path does not become too long when it is cleaned. -/
theorem isLongPath_clean {s : String} (h : isLongPath s = false) :
    isLongPath (clean s) = false := by
  rw [isLongPath, decide_eq_false_iff_not] at h ⊢
  rcases cleanChars_sublist s.toList with hsublist | hpoint
  · have hle := utf8ByteSize_le_of_sublist hsublist
    rw [String.ofList_toList] at hle
    exact fun hlong ↦ h (Nat.lt_of_lt_of_le hlong hle)
  · rw [clean, hpoint]
    decide

end Path

/-! ### Paths below a directory -/

namespace Scan

variable {path : List String}

theorem slash_not_mem_of_isName {name : String} (h : isName name = true) : '/' ∉ name.toList := by
  simp only [isName, Bool.and_eq_true, Bool.not_eq_true', List.contains_eq_mem,
    decide_eq_false_iff_not] at h
  exact h.2

theorem pathText_nil : pathText [] = "" := by
  decide

/-- The components of the text of a path are its names. -/
theorem components_pathText (hne : path ≠ []) (h : ∀ n ∈ path, isName n = true) :
    components (pathText path) = path := by
  have hsplit : split '/' (pathText path).toList = path.map String.toList := by
    rw [pathText, String.toList_intercalate]
    refine (congrArg (split '/') (join_eq_intercalate _ _).symm).trans (split_join ?_ ?_)
    · simpa using hne
    · intro p hp
      obtain ⟨n, hn, rfl⟩ := List.mem_map.1 hp
      exact slash_not_mem_of_isName (h n hn)
  rw [components, splitString, hsplit, List.map_map]
  exact (List.map_congr_left fun n _ ↦ String.ofList_toList).trans (List.map_id path)

theorem isRooted_pathText (h : ∀ n ∈ path, isName n = true) :
    Path.isRooted (pathText path) = false := by
  cases path with
  | nil => rfl
  | cons name path =>
    have hname := h name List.mem_cons_self
    have htext : ∃ rest, (pathText (name :: path)).toList = name.toList ++ rest := by
      rw [pathText, String.toList_intercalate]
      cases path with
      | nil => exact ⟨[], by simp⟩
      | cons next path =>
        rw [List.map_cons, List.map_cons, List.intercalate_cons_cons, List.append_assoc]
        exact ⟨_, rfl⟩
    obtain ⟨rest, hrest⟩ := htext
    rw [Path.isRooted, Path.isAbsolute, hrest]
    rcases hchars : name.toList with - | ⟨c, cs⟩
    · rw [String.toList_eq_nil_iff] at hchars
      simp [isName, hchars] at hname
    · have hc : c ≠ '/' := by
        rintro rfl
        exact slash_not_mem_of_isName hname (hchars ▸ List.mem_cons_self)
      simpa using hc

/-- All names of a path lead somewhere. -/
theorem wayOf_components_pathText (h : ∀ n ∈ path, isName n = true) :
    wayOf (components (pathText path)) = path := by
  by_cases hne : path = []
  · subst hne
    rfl
  · rw [components_pathText hne h, wayOf_of_forall_isName h]

/-- The components of a path below a directory are those of the directory and the path. -/
theorem wayOf_components_pathBelow (directory : String) (h : ∀ n ∈ path, isName n = true) :
    wayOf (components (pathBelow directory path)) = wayOf (components directory) ++ path := by
  rw [pathBelow, Path.child, Path.wayOf_components_clean,
    Path.wayOf_components_append _ (isRooted_pathText h), wayOf_components_pathText h]

/-- Different files below a directory have different paths. -/
theorem pathBelow_injective {directory : String} {path' : List String}
    (h : ∀ n ∈ path, isName n = true) (h' : ∀ n ∈ path', isName n = true)
    (heq : pathBelow directory path = pathBelow directory path') : path = path' := by
  have hway := wayOf_components_pathBelow directory h
  rw [heq, wayOf_components_pathBelow directory h'] at hway
  exact (List.append_cancel_left hway).symm

/-- Apart from components at its front that lead nowhere, a path below a directory has the
components of the directory that lead somewhere, and those of the path. -/
theorem exists_components_pathBelow (directory : String) (h : ∀ n ∈ path, isName n = true) :
    ∃ front, (∀ n ∈ front, isIdle n = true) ∧
      components (pathBelow directory path) = front ++ (wayOf (components directory) ++ path) := by
  obtain ⟨front, hfront, hclean⟩ := Path.components_clean (Path.append directory (pathText path))
  refine ⟨front, hfront, ?_⟩
  rw [pathBelow, Path.child, hclean, Path.wayOf_components_append _ (isRooted_pathText h),
    wayOf_components_pathText h]

theorem forall_isName (h : ∀ n ∈ path, isFileName n = true) : ∀ n ∈ path, isName n = true :=
  fun n hn ↦ (isFileName_iff.1 (h n hn)).1

/-- Below a directory without a null character in its path, no path has one. -/
theorem isSound_pathBelow {directory : String} (hdirectory : isSound directory = true)
    (h : ∀ n ∈ path, isFileName n = true) : isSound (pathBelow directory path) = true := by
  obtain ⟨front, hfront, hcomponents⟩ := exists_components_pathBelow directory (forall_isName h)
  refine isSound_iff.2 fun n hn ↦ ?_
  rw [hcomponents, List.mem_append, List.mem_append] at hn
  rcases hn with hn | hn | hn
  · have hidle := hfront n hn
    rw [isIdle, Bool.or_eq_true, beq_iff_eq, beq_iff_eq] at hidle
    rcases hidle with rfl | rfl <;> decide
  · exact isSound_iff.1 hdirectory n (List.mem_of_mem_filter hn)
  · exact (isFileName_iff.1 (h n hn)).2.1

section Resolve

variable {root : FileTree} {directory : String} {top place : List String}
  (htop : root.resolve directory = some top)

include htop

/-- The path of a file below a directory leads where the components of both lead, unless it is too
long. -/
theorem resolve_pathBelow_iff (h : ∀ n ∈ path, isFileName n = true) :
    root.resolve (pathBelow directory path) = some place ↔
      isLongPath (pathBelow directory path) = false ∧
        root.resolveFrom linkLimit [] (wayOf (components directory) ++ path) =
          .ok place.reverse := by
  obtain ⟨hsound, -, hcomponents⟩ := resolve_eq_some_iff.1 htop
  obtain ⟨es, hroot⟩ := exists_dir_of_resolveFrom (components_ne_nil directory) hcomponents
  obtain ⟨front, hfront, hbelow⟩ := exists_components_pathBelow directory (forall_isName h)
  rw [resolve_eq_some_iff, hbelow, resolveFrom_idle_append hroot hfront,
    and_iff_right (isSound_pathBelow hsound h)]

/-- The path of a directory below itself is no longer than it was, and leads to it. -/
theorem resolve_pathBelow_nil : root.resolve (pathBelow directory []) = some top := by
  obtain ⟨-, hshort, hcomponents⟩ := resolve_eq_some_iff.1 htop
  refine (resolve_pathBelow_iff htop (by simp)).2 ⟨?_, ?_⟩
  · rw [pathBelow, pathText_nil, Path.child, Path.clean_append_empty]
    exact Path.isLongPath_clean hshort
  · rw [List.append_nil]
    exact resolveFrom_filter hcomponents

/-- The path to a directory leads on to what the directory holds under a name. -/
theorem resolve_pathBelow_concat {es : List (String × FileTree)} {u : FileTree} {name : String}
    (h : ∀ n ∈ path, isFileName n = true)
    (hplace : root.resolve (pathBelow directory path) = some place)
    (hdir : root.at? place = some (.dir es)) (hname : isFileName name = true)
    (hentry : es.lookup name = some u) (hu : u.isLink = false)
    (hshort : isLongPath (pathBelow directory (path ++ [name])) = false) :
    root.resolve (pathBelow directory (path ++ [name])) = some (place ++ [name]) := by
  have hnames : ∀ n ∈ path ++ [name], isFileName n = true :=
    List.forall_mem_append.2 ⟨h, by simpa using hname⟩
  obtain ⟨-, hway⟩ := (resolve_pathBelow_iff htop h).1 hplace
  rw [← List.reverse_reverse place] at hdir
  have hconcat := resolveFrom_concat hway hdir hname hentry hu
  refine (resolve_pathBelow_iff htop hnames).2 ⟨hshort, ?_⟩
  rw [← List.append_assoc, List.reverse_concat]
  exact hconcat

/-- A path below a directory that is not refused is not too long. -/
theorem isLongPath_of_refuses (h : ∀ n ∈ path, isFileName n = true)
    (hfree : root.refuses (pathBelow directory path) = false) :
    isLongPath (pathBelow directory path) = false := by
  have hsound := isSound_pathBelow (resolve_eq_some_iff.1 htop).1 h
  rw [Bool.eq_false_iff]
  intro hlong
  rw [refuses_iff.2 ⟨hsound, Or.inl hlong⟩] at hfree
  cases hfree

end Resolve

end Scan

end RepoSurvey
