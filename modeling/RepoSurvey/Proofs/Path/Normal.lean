import RepoSurvey.Proofs.Path.Below
import RepoSurvey.Proofs.Path.Clean

/-!
# Absolute paths in normal form

The normal form of an absolute path has the slashes that the path keeps at its front, and behind
them components that lead down (`InNormalForm`). Such a path is its own normal form
(`InNormalForm.normalChars_eq`), and stays one if its last name is made longer
(`InNormalForm.append`) or a name is put behind it (`InNormalForm.joinChars`).

The normal form is told by the mark at the front and by what the components come to when each `..`
takes away the one before it. So a segment that leads nowhere makes no difference
(`Detour.normalParts_eq`), and the way from one absolute path to another, as it is written, leads
there (`normalChars_joinChars_relativeChars`).
-/

namespace RepoSurvey.Path

open RepoSurvey.Text

/-- The component that leads up. -/
abbrev dotDot : List Char := ['.', '.']

/-- A component that leads down. -/
def LeadsDown (p : List Char) : Prop := '/' ∉ p ∧ isIdle p = false ∧ p ≠ dotDot

instance : DecidablePred LeadsDown := fun p ↦
  inferInstanceAs (Decidable ('/' ∉ p ∧ isIdle p = false ∧ p ≠ dotDot))

/-- An absolute path in normal form: the slashes that a path keeps, and components that lead
down. -/
def InNormalForm (cs : List Char) : Prop :=
  ∃ mark ps, (mark = ['/'] ∨ mark = ['/', '/']) ∧ (∀ p ∈ ps, LeadsDown p) ∧
    cs = mark ++ join ['/'] ps

namespace LeadsDown

variable {p : List Char}

theorem ne_nil (h : LeadsDown p) : p ≠ [] := by
  rintro rfl
  exact absurd h.2.1 (by decide)

theorem isAbsolute_eq_false (h : LeadsDown p) : isAbsolute p = false := by
  rw [isAbsolute, beq_eq_false_iff_ne]
  exact fun hhead ↦ h.1 (List.mem_of_head? hhead)

end LeadsDown

variable {cs as bs : List Char}

/-! ### The front of an absolute path -/

theorem isAbsolute_iff : isAbsolute cs = true ↔ ∃ rest, cs = '/' :: rest := by
  rw [isAbsolute, beq_iff_eq, List.head?_eq_some_iff]

/-- What an absolute path is continued to is absolute. -/
theorem isAbsolute_append (h : isAbsolute as = true) (bs : List Char) :
    isAbsolute (as ++ bs) = true := by
  obtain ⟨rest, rfl⟩ := isAbsolute_iff.1 h
  exact isAbsolute_iff.2 ⟨rest ++ bs, rfl⟩

/-- An absolute path is where it is, from wherever it is seen. -/
theorem joinChars_of_isAbsolute (as : List Char) {bs : List Char} (h : isAbsolute bs = true) :
    joinChars as bs = bs := by
  rw [joinChars, if_pos h]

/-- A path seen from an absolute one is absolute. -/
theorem isAbsolute_joinChars (h : isAbsolute as = true) (bs : List Char) :
    isAbsolute (joinChars as bs) = true := by
  unfold joinChars
  split
  · assumption
  · split <;> exact isAbsolute_append h _

/-- An absolute path keeps one slash at its front, or two. -/
theorem rootMark_of_isAbsolute (h : isAbsolute cs = true) :
    rootMark cs = ['/'] ∨ rootMark cs = ['/', '/'] := by
  obtain ⟨rest, rfl⟩ := isAbsolute_iff.1 h
  unfold rootMark
  split
  · exact Or.inl rfl
  · exact Or.inr rfl
  · exact Or.inl rfl
  · rename_i hslash
    exact absurd rfl (hslash rest)

/-- A path seen from an absolute one keeps the slashes of that one. -/
theorem rootMark_joinChars (h : isAbsolute as = true) (hbs : isAbsolute bs = false) :
    rootMark (joinChars as bs) = rootMark as := by
  obtain ⟨rest, rfl⟩ := isAbsolute_iff.1 h
  have hhead : bs.head? ≠ some '/' := by
    rw [isAbsolute, beq_eq_false_iff_ne] at hbs
    exact hbs
  rw [joinChars, if_neg (by simp [hbs])]
  -- what decides is how many slashes there are at the front, up to three
  rcases rest with - | ⟨c, rest⟩
  · rcases bs with - | ⟨b, bs⟩
    · rfl
    · simp_all [rootMark]
  by_cases hc : c = '/'
  · rcases rest with - | ⟨d, rest⟩
    · rcases bs with - | ⟨b, bs⟩
      · simp [hc]
      · simp_all [rootMark]
    · by_cases hd : d = '/' <;> split <;> simp [rootMark, hc, hd]
  · split <;> simp [rootMark, hc]

/-- What an absolute path begins with is absolute, unless it is empty. -/
theorem isAbsolute_of_prefix (h : isAbsolute cs = true) (hfront : as <+: cs) (hne : as ≠ []) :
    isAbsolute as = true := by
  obtain ⟨a, as, rfl⟩ := List.exists_cons_of_ne_nil hne
  obtain ⟨rest, rfl⟩ := hfront
  exact h

/-- Taking characters off the end leaves a front. -/
theorem prefix_of_dropWhile_reverse (p : Char → Bool) (cs : List Char) :
    (cs.reverse.dropWhile p).reverse <+: cs := by
  rw [← List.reverse_suffix, List.reverse_reverse]
  exact List.dropWhile_suffix p

/-- The directory of an absolute path is absolute. -/
theorem isAbsolute_dirChars (h : isAbsolute cs = true) : isAbsolute (dirChars cs) = true := by
  have hhead : isAbsolute (cs.reverse.dropWhile (· != '/')).reverse = true := by
    refine isAbsolute_of_prefix h (prefix_of_dropWhile_reverse _ cs) fun hnil ↦ ?_
    obtain ⟨rest, rfl⟩ := isAbsolute_iff.1 h
    simpa using List.dropWhile_eq_nil_iff.1 (List.reverse_eq_nil_iff.1 hnil) '/' (by simp)
  unfold dirChars
  dsimp only
  split
  · exact hhead
  · rename_i hsome
    refine isAbsolute_of_prefix hhead (prefix_of_dropWhile_reverse _ _) fun hnil ↦ hsome ?_
    rw [List.all_eq_true]
    exact fun c hc ↦ List.dropWhile_eq_nil_iff.1 (List.reverse_eq_nil_iff.1 hnil) c
      (List.mem_reverse.2 hc)

/-! ### Components -/

@[simp] theorem pushPart_of_ne {p : List Char} (hp : p ≠ dotDot) (rooted : Bool)
    (kept : List (List Char)) : pushPart rooted kept p = p :: kept := by
  unfold pushPart
  exact if_neg hp

/-- A step up takes away the component in front of it. -/
@[simp] theorem pushPart_dotDot {last : List Char} (hlast : last ≠ dotDot) (rooted : Bool)
    (others : List (List Char)) : pushPart rooted (last :: others) dotDot = others := by
  unfold pushPart
  simp [hlast]

/-- Components without steps up are all kept. -/
theorem foldl_pushPart_of_ne {ps : List (List Char)} (hps : ∀ p ∈ ps, p ≠ dotDot)
    (kept : List (List Char)) : ps.foldl (pushPart true) kept = ps.reverse ++ kept := by
  induction ps generalizing kept with
  | nil => rfl
  | cons p ps ih =>
    obtain ⟨hp, hps⟩ := List.forall_mem_cons.1 hps
    rw [List.foldl_cons, pushPart_of_ne hp, ih hps, List.reverse_cons, List.append_assoc]
    rfl

theorem normalParts_of_ne {ps : List (List Char)} (hps : ∀ p ∈ ps, p ≠ dotDot) :
    normalParts true ps = ps := by
  rw [normalParts, foldl_pushPart_of_ne hps, List.append_nil, List.reverse_reverse]

/-- From the root on nothing is left that leads up. -/
theorem leadsDown_of_mem_normalParts {p : List Char}
    (hp : p ∈ normalParts true (parts cs)) : LeadsDown p := by
  obtain ⟨hmem, hne⟩ := mem_of_mem_normalParts hp
  obtain ⟨hslash, hidle⟩ := not_mem_of_mem_parts hmem
  exact ⟨hslash, hidle, hne⟩

/-- The components of a path go on from the normal form of those in front of them. -/
theorem normalParts_append (ps qs : List (List Char)) :
    normalParts true (ps ++ qs) =
      (qs.foldl (pushPart true) (normalParts true ps).reverse).reverse := by
  rw [normalParts, List.foldl_append, normalParts, List.reverse_reverse]

/-- Steps up take away what was kept last. -/
theorem foldl_pushPart_replicate (k : Nat) {kept : List (List Char)}
    (hkept : ∀ p ∈ kept, p ≠ dotDot) :
    (List.replicate k dotDot).foldl (pushPart true) kept = kept.drop k := by
  induction k generalizing kept with
  | zero => rfl
  | succ k ih =>
    rw [List.replicate_succ, List.foldl_cons]
    rcases kept with - | ⟨last, others⟩
    · show (List.replicate k dotDot).foldl (pushPart true) [] = _
      rw [ih hkept, List.drop_nil, List.drop_nil]
    · obtain ⟨hlast, hothers⟩ := List.forall_mem_cons.1 hkept
      rw [pushPart_dotDot hlast, ih hothers, List.drop_succ_cons]

/-- Steps up behind a path take away its last components, and what leads down stands behind those
that are left. -/
theorem normalParts_climb (ps : List (List Char)) (k : Nat) {names : List (List Char)}
    (hnames : ∀ p ∈ names, p ≠ dotDot) :
    normalParts true (ps ++ (List.replicate k dotDot ++ names)) =
      (normalParts true ps).take ((normalParts true ps).length - k) ++ names := by
  have hkept : ∀ p ∈ (normalParts true ps).reverse, p ≠ dotDot := fun p hp ↦
    (mem_of_mem_normalParts (List.mem_reverse.1 hp)).2
  rw [normalParts_append, List.foldl_append, foldl_pushPart_replicate k hkept,
    foldl_pushPart_of_ne hnames, List.drop_reverse, List.reverse_append, List.reverse_reverse,
    List.reverse_reverse]

/-! ### Normal forms -/

/-- The normal form of an absolute path: the slashes that it keeps, and what its components come to.
-/
theorem normalChars_of_isAbsolute (h : isAbsolute cs = true) :
    normalChars cs = rootMark cs ++ join ['/'] (normalParts true (parts cs)) := by
  have hmark : rootMark cs ≠ [] := by
    rcases rootMark_of_isAbsolute h with h | h <;> rw [h] <;> simp
  rw [normalChars, h, ofParts_eq (by simp [hmark])]

/-- The components that a path in normal form is made of are read from it again. -/
theorem parts_mark_append {mark : List Char} (hmark : mark = ['/'] ∨ mark = ['/', '/'])
    {ps : List (List Char)} (hps : ∀ p ∈ ps, LeadsDown p) : parts (mark ++ join ['/'] ps) = ps := by
  obtain ⟨n, hn⟩ : ∃ n, mark = List.replicate (n + 1) '/' := by
    rcases hmark with rfl | rfl
    · exact ⟨0, rfl⟩
    · exact ⟨1, rfl⟩
  rw [hn, ← ofParts_eq (by simp)]
  exact parts_ofParts (n + 1) fun p hp ↦ ⟨(hps p hp).1, (hps p hp).2.1⟩

/-- The components of a normal form are those that the path comes to. -/
theorem parts_normalChars (h : isAbsolute cs = true) :
    parts (normalChars cs) = normalParts true (parts cs) := by
  rw [normalChars_of_isAbsolute h]
  exact parts_mark_append (rootMark_of_isAbsolute h) fun _ hp ↦ leadsDown_of_mem_normalParts hp

theorem inNormalForm_normalChars (h : isAbsolute cs = true) : InNormalForm (normalChars cs) :=
  ⟨_, _, rootMark_of_isAbsolute h, fun _ hp ↦ leadsDown_of_mem_normalParts hp,
    normalChars_of_isAbsolute h⟩

namespace InNormalForm

theorem isAbsolute (h : InNormalForm cs) : isAbsolute cs = true := by
  obtain ⟨mark, ps, rfl | rfl, -, rfl⟩ := h <;> rfl

/-- A path in normal form is its own normal form, so the normal form is taken once. -/
theorem normalChars_eq (h : InNormalForm cs) : normalChars cs = cs := by
  have habsolute := h.isAbsolute
  obtain ⟨mark, ps, hmark, hps, rfl⟩ := h
  have hsolid : ∀ p ∈ ps, '/' ∉ p ∧ isIdle p = false := fun p hp ↦ ⟨(hps p hp).1, (hps p hp).2.1⟩
  have hhead := head?_join_ne hsolid
  have hparts := parts_mark_append hmark hps
  have hroot : rootMark (mark ++ join ['/'] ps) = mark := by
    rcases hmark with rfl | rfl
    · exact rootMark_append ['/'] hhead
    · exact rootMark_append ['/', '/'] hhead
  rw [normalChars_of_isAbsolute habsolute, hparts, hroot,
    normalParts_of_ne fun p hp ↦ (hps p hp).2.2]

/-- A component that is made longer by more than two characters still leads down. -/
theorem leadsDown_append {p name : List Char} (hp : '/' ∉ p) (hname : '/' ∉ name)
    (hlength : 2 < name.length) : LeadsDown (p ++ name) := by
  have hlong : 2 < (p ++ name).length := by
    rw [List.length_append]
    omega
  have hne (q : List Char) (hq : q.length ≤ 2) : p ++ name ≠ q := by
    rintro rfl
    exact absurd hlong (Nat.not_lt.2 hq)
  refine ⟨by simp [hp, hname], ?_, hne dotDot (Nat.le_refl 2)⟩
  have hempty := hne [] (Nat.zero_le 2)
  have hpoint := hne ['.'] (Nat.le_succ 1)
  simpa [isIdle] using ⟨by simpa using hempty, hpoint⟩

/-- What is put behind the last component makes it longer. -/
theorem append (h : InNormalForm cs) {name : List Char} (hname : '/' ∉ name)
    (hlength : 2 < name.length) : InNormalForm (cs ++ name) := by
  obtain ⟨mark, ps, hmark, hps, rfl⟩ := h
  rcases List.eq_nil_or_concat' ps with rfl | ⟨front, last, rfl⟩
  · refine ⟨mark, [name], hmark, ?_, by simp [join]⟩
    simpa using leadsDown_append List.not_mem_nil hname hlength
  · rw [List.forall_mem_append, List.forall_mem_singleton] at hps
    obtain ⟨text, htext⟩ := exists_join_concat ['/'] front
    refine ⟨mark, front ++ [last ++ name], hmark, ?_, ?_⟩
    · rw [List.forall_mem_append, List.forall_mem_singleton]
      exact ⟨hps.1, leadsDown_append hps.2.1 hname hlength⟩
    · rw [htext, htext]
      simp only [List.append_assoc]

/-- What leads down from a path in normal form is in normal form. -/
theorem joinChars (h : InNormalForm cs) {name : List Char} (hname : LeadsDown name) :
    InNormalForm (joinChars cs name) := by
  have hrelative := hname.isAbsolute_eq_false
  obtain ⟨mark, ps, hmark, hps, rfl⟩ := h
  rw [Path.joinChars, if_neg (by simp [hrelative])]
  rcases List.eq_nil_or_concat' ps with rfl | ⟨front, last, rfl⟩
  · refine ⟨mark, [name], hmark, by simpa using hname, ?_⟩
    rcases hmark with rfl | rfl <;> rfl
  · have hlast : LeadsDown last := hps last (by simp)
    have hends : (mark ++ join ['/'] (front ++ [last])).getLast? ≠ some '/' := by
      obtain ⟨text, htext⟩ := exists_join_concat ['/'] front
      rw [htext, ← List.append_assoc, List.getLast?_append_of_ne_nil _ hlast.ne_nil]
      exact fun h ↦ hlast.1 (List.mem_of_getLast? h)
    have hne : mark ++ join ['/'] (front ++ [last]) ≠ [] := by
      rcases hmark with rfl | rfl <;> simp
    have hfront : front ++ [last] ≠ [] := List.append_ne_nil_of_right_ne_nil _ (by simp)
    have hopen : ¬((mark ++ join ['/'] (front ++ [last])).isEmpty ||
        (mark ++ join ['/'] (front ++ [last])).getLast? == some '/') = true := by
      rw [Bool.or_eq_true, List.isEmpty_iff, beq_iff_eq, not_or]
      exact ⟨hne, hends⟩
    rw [if_neg hopen]
    refine ⟨mark, front ++ [last] ++ [name], hmark, ?_, ?_⟩
    · rw [List.forall_mem_append, List.forall_mem_singleton]
      exact ⟨hps, hname⟩
    · rw [join_concat _ _ hfront, List.append_assoc, List.append_assoc, List.singleton_append]

end InNormalForm

/-! ### Other spellings of a path -/

/-- The normal form of a path that is seen from an absolute one is told by what the components of
both come to. -/
theorem normalChars_joinChars_congr {dir : List Char} (hdir : isAbsolute dir = true)
    (has : isAbsolute as = false) (hbs : isAbsolute bs = false)
    (h : normalParts true (parts dir ++ parts as) = normalParts true (parts dir ++ parts bs)) :
    normalChars (joinChars dir as) = normalChars (joinChars dir bs) := by
  rw [normalChars_of_isAbsolute (isAbsolute_joinChars hdir as),
    normalChars_of_isAbsolute (isAbsolute_joinChars hdir bs), rootMark_joinChars hdir has,
    rootMark_joinChars hdir hbs, parts_joinChars dir has, parts_joinChars dir hbs, h]

/-- A path with a segment that leads nowhere, and the path without it. -/
inductive Detour : (long short : List Char) → Prop
  | point (as bs : List Char) : Detour (as ++ '/' :: (['.'] ++ '/' :: bs)) (as ++ '/' :: bs)
  | slash (as bs : List Char) : Detour (as ++ '/' :: ([] ++ '/' :: bs)) (as ++ '/' :: bs)
  | back {name : List Char} (hname : LeadsDown name) (as bs : List Char) :
    Detour (as ++ '/' :: (name ++ '/' :: (dotDot ++ '/' :: bs))) (as ++ '/' :: bs)

theorem parts_of_leadsDown {name : List Char} (h : LeadsDown name) : parts name = [name] := by
  rw [parts, split_of_not_mem h.1]
  simp [h.2.1]

/-- A detour comes to the same, whatever it starts from. -/
theorem Detour.normalParts_eq {long short : List Char} (h : Detour long short)
    (ps : List (List Char)) :
    normalParts true (ps ++ parts long) = normalParts true (ps ++ parts short) := by
  cases h with
  | point as bs | slash as bs =>
    rw [parts_append_sep, parts_append_sep, parts_append_sep]
    rfl
  | back hname as bs =>
    have hup : parts dotDot = [dotDot] := rfl
    rw [parts_append_sep, parts_append_sep, parts_append_sep, parts_append_sep,
      parts_of_leadsDown hname, hup, ← List.append_assoc, ← List.append_assoc ps,
      normalParts_append, normalParts_append (ps ++ parts as), List.foldl_append]
    simp [pushPart_of_ne hname.2.2, pushPart_dotDot hname.2.2]

/-! ### The way from one path to another -/

/-- Two paths have a common front, and behind it their own components. -/
theorem exists_common (as bs : List (List Char)) :
    ∃ common, as = common ++ (dropCommon as bs).1 ∧ bs = common ++ (dropCommon as bs).2 := by
  induction as generalizing bs with
  | nil => exact ⟨[], by cases bs <;> simp [dropCommon]⟩
  | cons a as ih =>
    cases bs with
    | nil => exact ⟨[], by simp [dropCommon]⟩
    | cons b bs =>
      rw [dropCommon]
      split
      · rename_i hab
        obtain ⟨common, has, hbs⟩ := ih bs
        exact ⟨a :: common, by simpa using has, by simpa [hab] using hbs⟩
      · exact ⟨[], by simp⟩

/-- Where a path that begins at the root leads does not depend on the current directory. -/
theorem absoluteParts_of_isAbsolute (here : List Char) (h : isAbsolute cs = true) :
    absoluteParts here cs = normalParts true (parts cs) := by
  rw [absoluteParts, joinChars_of_isAbsolute here h]

/-- The components of the way go up to the common front and down from there. -/
theorem exists_parts_relativeChars (here cs start : List Char) : ∃ common up down,
    absoluteParts here start = common ++ up ∧ absoluteParts here cs = common ++ down ∧
      parts (relativeChars here cs start) = up.map (fun _ ↦ dotDot) ++ down := by
  obtain ⟨common, hstart, hgoal⟩ :=
    exists_common (absoluteParts here start) (absoluteParts here cs)
  refine ⟨common, _, _, hstart, hgoal, parts_ofParts 0 fun p hp ↦ ?_⟩
  rcases List.mem_append.1 hp with hp | hp
  · obtain ⟨_, -, rfl⟩ := List.mem_map.1 hp
    decide
  · have hmem := List.mem_append_right common hp
    rw [← hgoal] at hmem
    obtain ⟨hslash, hidle, -⟩ := of_mem_absoluteParts hmem
    exact ⟨hslash, hidle⟩

/-- The way from one absolute path to another leads there. -/
theorem normalChars_joinChars_relativeChars (here : List Char) {start : List Char}
    (hcs : isAbsolute cs = true) (hstart : isAbsolute start = true)
    (hmark : rootMark start = rootMark cs) :
    normalChars (joinChars start (['.'] ++ '/' :: relativeChars here cs start)) =
      normalChars cs := by
  obtain ⟨common, up, down, hfrom, hto, hway⟩ := exists_parts_relativeChars here cs start
  have hdown : ∀ p ∈ down, p ≠ dotDot := fun p hp ↦
    (of_mem_absoluteParts (hto ▸ List.mem_append_right common hp)).2.2
  have hpoint : parts ['.'] = [] := rfl
  rw [absoluteParts_of_isAbsolute here hstart] at hfrom
  rw [absoluteParts_of_isAbsolute here hcs] at hto
  rw [normalChars_of_isAbsolute hcs, normalChars_of_isAbsolute (isAbsolute_joinChars hstart _),
    rootMark_joinChars hstart rfl, hmark, parts_joinChars start rfl, parts_append_sep, hpoint,
    List.nil_append, hway, List.map_const', normalParts_climb _ _ hdown, hfrom, hto,
    List.length_append, Nat.add_sub_cancel, List.take_left]

/-! ### Paths as strings -/

/-- A path seen from one that begins at the root begins there. -/
theorem isRooted_append {a : String} (h : isRooted a = true) (b : String) :
    isRooted (append a b) = true := by
  rw [isRooted, append, String.toList_ofList]
  exact isAbsolute_joinChars h _

/-- The normal form of a path as seen from the root begins at the root. -/
theorem isRooted_absolute (path : String) : isRooted (absolute path) = true := by
  have hroot : isAbsolute (joinChars ['/'] path.toList) = true := isAbsolute_joinChars rfl _
  have hnormal := (inNormalForm_normalChars hroot).isAbsolute
  rwa [isRooted, absolute, normal, String.toList_ofList, append, String.toList_ofList]

/-- The directory of a path that begins at the root begins there. -/
theorem isRooted_directory {path : String} (h : isRooted path = true) :
    isRooted (directory path) = true := by
  rw [isRooted, directory, String.toList_ofList]
  exact isAbsolute_dirChars h

theorem InNormalForm.normal_eq {path : String} (h : InNormalForm path.toList) :
    normal path = path := by
  rw [normal, h.normalChars_eq, String.ofList_toList]

/-- The way from a directory to a path, seen from this directory, leads to the path. -/
theorem normal_append_relative (here : String) {path directory : String}
    (hpath : isRooted path = true) (hdirectory : isRooted directory = true)
    (hmark : rootMark directory.toList = rootMark path.toList) :
    normal (append directory ("./" ++ relative here path directory)) = normal path := by
  have heq := normalChars_joinChars_relativeChars here.toList hpath hdirectory hmark
  have hfront : "./".toList = ['.', '/'] := by decide
  have hway : ("./" ++ relative here path directory).toList =
      ['.'] ++ '/' :: relativeChars here.toList path.toList directory.toList := by
    rw [String.toList_append, hfront, relative, String.toList_ofList, List.cons_append,
      List.singleton_append, List.singleton_append]
  rw [normal, append, String.toList_ofList, hway, heq, normal]

end RepoSurvey.Path
