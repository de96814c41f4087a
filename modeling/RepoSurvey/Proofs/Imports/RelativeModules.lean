import RepoSurvey.Proofs.Imports.Spelling
import RepoSurvey.Proofs.Path.Entry

/-!
# Relative imports of modules

A relative import puts points in front of the names of modules. As a path it has a step up for each
point behind the first, and then the names (`exists_pythonChars_eq`). Seen from the directory of the
importer, the steps take away as many of its last components, at most all of them
(`Path.normal_append_climb`). So there is one base, and its components can be written down
(`relative_module_base`).
-/

namespace RepoSurvey.Imports

open RepoSurvey.Text

variable {names : List (List Char)}

/-! ### Names of modules -/

/-- A name of a module: one or more word characters. -/
def IsModuleName (name : List Char) : Prop := name ≠ [] ∧ ∀ c ∈ name, isWord c = true

instance : DecidablePred IsModuleName := fun name ↦
  decidable_of_iff (name ≠ [] ∧ name.all isWord = true) (and_congr_right' List.all_eq_true)

namespace IsModuleName

variable {name : List Char} (h : IsModuleName name)

include h

/-- The name of a module has nothing in it but word characters. -/
theorem not_mem {c : Char} (hc : isWord c = false) : c ∉ name := by
  intro hmem
  rw [h.2 c hmem] at hc
  cases hc

/-- So it is a component of a path that leads down. -/
theorem leadsDown : Path.LeadsDown name := by
  have hpoint : '.' ∉ name := h.not_mem (by decide)
  refine ⟨h.not_mem (by decide), ?_, ?_⟩
  · have hne : name ≠ ['.'] := by
      rintro rfl
      exact hpoint (by simp)
    simp [Path.isIdle, h.1, hne]
  · rintro rfl
    exact hpoint (by simp)

end IsModuleName

/-! ### The specifier as a path -/

/-- All points are taken from the front, if something other than a point is behind them. -/
theorem cut_points (n : Nat) {rest : List Char} (hrest : rest.head? ≠ some '.') :
    (List.replicate n '.' ++ rest).takeWhile (· == '.') = List.replicate n '.' ∧
      (List.replicate n '.' ++ rest).dropWhile (· == '.') = rest := by
  refine takeWhile_dropWhile_append (by simp) fun c hc ↦ ?_
  rw [beq_eq_false_iff_ne]
  rintro rfl
  exact hrest hc

/-- Names with points between them do not begin with a point. -/
theorem head?_join_ne_point (hnames : ∀ x ∈ names, IsModuleName x) :
    (join ['.'] names).head? ≠ some '.' := by
  rcases names with - | ⟨x, names⟩
  · simp [join]
  · obtain ⟨hne, hword⟩ := hnames x List.mem_cons_self
    obtain ⟨c, cs, rfl⟩ := List.exists_cons_of_ne_nil hne
    have hc : c ≠ '.' := by
      rintro rfl
      exact absurd (hword '.' List.mem_cons_self) (by decide)
    rcases names with - | ⟨y, names⟩ <;> simpa [join] using hc

/-- Names with points between them are read as a module. -/
theorem moduleOf?_join (hnames : ∀ x ∈ names, IsModuleName x) :
    moduleOf? (join ['.'] names) = some (join ['.'] names) := by
  have hpart : ∀ c ∈ join ['.'] names, c = '.' ∨ isWord c = true := by
    intro c hc
    by_cases hnil : names = []
    · subst hnil
      cases hc
    · rcases eq_or_exists_mem_split '.' hc with hpoint | ⟨piece, hpiece, hc⟩
      · exact Or.inl hpoint
      · rw [split_join hnil fun x hx ↦ (hnames x hx).not_mem (by decide)] at hpiece
        exact Or.inr ((hnames piece hpiece).2 c hc)
  have hlast : (join ['.'] names).getLast? ≠ some '\n' := by
    intro hlast
    rcases hpart '\n' (List.mem_of_getLast? hlast) with h | h
    · exact absurd h (by decide)
    · exact absurd h (by decide)
  have hall : (join ['.'] names).all (fun c ↦ isWord c || c == '.') = true := by
    rw [List.all_eq_true]
    intro c hc
    rcases hpart c hc with rfl | h
    · rfl
    · rw [h, Bool.true_or]
  rw [moduleOf?]
  simp only [beq_iff_eq, if_neg hlast, hall, if_true]

/-- The path of a relative import with `k + 1` points; the last slash of the steps up goes where no
module stands behind them. -/
theorem pythonChars_of_points {cs path : List Char} {k : Nat}
    (hpoints : cs.takeWhile (· == '.') = List.replicate (k + 1) '.')
    (hmodule : moduleOf? (cs.dropWhile (· == '.')) = some path) :
    pythonChars cs =
      if path = [] then (upSteps (k + 1)).dropLast
      else upSteps (k + 1) ++ replaceChar '.' '/' path := by
  rw [pythonChars, hpoints, hmodule, List.length_replicate]
  rcases path with - | ⟨c, path⟩
  · rcases k with - | k
    · rfl
    · simp [List.replicate_succ]
  · simp [List.replicate_succ]

/-- The path of a relative import, with the names as its components. -/
theorem pythonChars_join (k : Nat) (hnames : ∀ x ∈ names, IsModuleName x) :
    pythonChars (List.replicate (k + 1) '.' ++ join ['.'] names) =
      if names = [] then (upSteps (k + 1)).dropLast
      else upSteps (k + 1) ++ join ['/'] names := by
  obtain ⟨hpoints, hrest⟩ := cut_points (k + 1) (head?_join_ne_point hnames)
  rw [pythonChars_of_points hpoints (by rw [hrest]; exact moduleOf?_join hnames),
    replaceChar_join '/' fun x hx ↦ (hnames x hx).not_mem (by decide)]
  by_cases hnil : names = []
  · simp [hnil, join]
  · have hjoin : join ['.'] names ≠ [] := by
      intro h
      have hsplit := split_join hnil fun x hx ↦ (hnames x hx).not_mem (c := '.') (by decide)
      rw [h] at hsplit
      exact (hnames [] (hsplit ▸ List.mem_cons_self)).1 rfl
    rw [if_neg hnil, if_neg hjoin]

/-! ### Steps up -/

/-- Each step up is a component. -/
theorem parts_flatten_up (k : Nat) (rest : List Char) :
    Path.parts ((List.replicate k "../".toList).flatten ++ rest) =
      List.replicate k Path.dotDot ++ Path.parts rest := by
  induction k with
  | zero => rfl
  | succ k ih =>
    have hup : Path.parts Path.dotDot = [Path.dotDot] := rfl
    have hstep : "../".toList ++ ((List.replicate k "../".toList).flatten ++ rest) =
        Path.dotDot ++ '/' :: ((List.replicate k "../".toList).flatten ++ rest) := rfl
    rw [List.replicate_succ, List.flatten_cons, List.append_assoc, hstep, Path.parts_append_sep, ih,
      hup, List.replicate_succ]
    rfl

/-- There is one step up less than points. -/
theorem parts_upSteps (k : Nat) (rest : List Char) :
    Path.parts (upSteps (k + 1) ++ rest) = List.replicate k Path.dotDot ++ Path.parts rest := by
  rcases k with - | k
  · have hhere : upSteps 1 ++ rest = ['.'] ++ '/' :: rest := rfl
    rw [hhere, Path.parts_append_sep]
    rfl
  · rw [upSteps, if_neg (by omega), Nat.add_sub_cancel]
    exact parts_flatten_up (k + 1) rest

/-- The steps up begin with a point and end with a slash. -/
theorem exists_upSteps_eq (k : Nat) : ∃ rest, upSteps (k + 1) = '.' :: rest ++ ['/'] := by
  rcases k with - | k
  · exact ⟨[], rfl⟩
  · have hlast : (List.replicate (k + 1) "../".toList).flatten =
        (List.replicate k "../".toList).flatten ++ "../".toList := by
      rw [List.replicate_succ', List.flatten_concat]
    rw [upSteps, if_neg (by omega), Nat.add_sub_cancel]
    rcases k with - | k
    · exact ⟨['.'], rfl⟩
    · refine ⟨'.' :: '/' :: ((List.replicate k "../".toList).flatten ++ ['.', '.']), ?_⟩
      rw [hlast, List.replicate_succ, List.flatten_cons]
      simp

/-- A relative import as a path: a step up for each point behind the first, then the names. -/
theorem exists_pythonChars_eq (k : Nat) (hnames : ∀ x ∈ names, IsModuleName x) :
    ∃ rest, pythonChars (List.replicate (k + 1) '.' ++ join ['.'] names) = '.' :: rest ∧
      Path.parts ('.' :: rest) = List.replicate k Path.dotDot ++ names := by
  obtain ⟨rest, hsteps⟩ := exists_upSteps_eq k
  rw [pythonChars_join k hnames]
  by_cases hnil : names = []
  · have hslash := parts_upSteps k []
    rw [List.append_nil, hsteps, Path.parts_append_sep] at hslash
    rw [if_pos hnil, hsteps, List.dropLast_concat, hnil]
    exact ⟨rest, rfl, (List.append_nil _).symm.trans hslash⟩
  · have hparts : Path.parts (join ['/'] names) = names := by
      rw [Path.parts, split_join hnil fun x hx ↦ (hnames x hx).leadsDown.1, List.filter_eq_self]
      intro x hx
      rw [(hnames x hx).leadsDown.2.1]
      rfl
    have hway := parts_upSteps k (join ['/'] names)
    rw [hparts, hsteps] at hway
    rw [if_neg hnil, hsteps]
    exact ⟨_, rfl, hway⟩

/-! ### Relative imports -/

/-- The specifier of a relative import: points, and behind them the names of modules. -/
def relativeSpecifier (points : Nat) (modules : List String) : String :=
  String.ofList (List.replicate points '.') ++ ".".intercalate modules

/-- The characters of a relative specifier. -/
theorem toList_relativeSpecifier (points : Nat) (modules : List String) :
    (relativeSpecifier points modules).toList =
      List.replicate points '.' ++ join ['.'] (modules.map String.toList) := by
  rw [relativeSpecifier, String.toList_append, String.toList_ofList, String.toList_intercalate,
    join_eq_intercalate]
  rfl

/-- A relative import in a Python file has exactly one base, whatever the alias rules and the base
directory are: it is the directory of the file, less one component for each point behind the first,
and less no more than there are, and then the modules. So the import comes to the first file among
the candidates of that path. -/
theorem relative_module_base (r : Resolver) {directories modules : List String} {stem : String}
    {points : Nat} (hdirectories : ∀ d ∈ directories, Path.LeadsDown d.toList)
    (hstem : '/' ∉ stem.toList) (hpoints : 1 ≤ points)
    (hmodules : ∀ x ∈ modules, IsModuleName x.toList) :
    let importer := Path.ofNames (directories ++ [stem ++ ".py"])
    let specifier := relativeSpecifier points modules
    let target := Path.ofNames (directories.take (directories.length - (points - 1)) ++ modules)
    (r.bases importer (Resolver.specifierIn importer specifier)).map Path.normal = [target] ∧
      r.resolve importer specifier = (candidates target).find? r.hasFile := by
  intro importer specifier target
  obtain ⟨k, rfl⟩ : ∃ k, points = k + 1 := Nat.exists_eq_add_one.2 hpoints
  have hnames : ∀ x ∈ modules.map String.toList, IsModuleName x := by
    intro x hx
    obtain ⟨y, hy, rfl⟩ := List.mem_map.1 hx
    exact hmodules y hy
  have hdown : ∀ x ∈ modules, Path.LeadsDown x.toList := fun x hx ↦ (hmodules x hx).leadsDown
  have hfile : '/' ∉ (stem ++ ".py").toList := by
    rw [String.toList_append, List.mem_append, not_or]
    exact ⟨hstem, by decide⟩
  obtain ⟨rest, hpath, hparts⟩ := exists_pythonChars_eq k hnames
  have hpython : endsWith importer ".py" = true := Path.endsWith_ofNames directories stem ".py"
  have hway : Resolver.specifierIn importer specifier = String.ofList ('.' :: rest) := by
    rw [Resolver.specifierIn, if_pos hpython, pythonSpecifier, toList_relativeSpecifier, hpath]
  have hbase : r.bases importer (Resolver.specifierIn importer specifier) =
      [Path.append (Path.ofNames directories) (String.ofList ('.' :: rest))] := by
    have hrelative : startsWith (String.ofList ('.' :: rest)) "." = true :=
      startsWith_iff.2 ⟨String.ofList rest, String.ofList_cons⟩
    rw [hway, Resolver.bases_of_relative hrelative, Path.directory_ofNames hdirectories hfile]
  -- each step up takes a component away, as long as there are any
  have hnormal : Path.normal (Path.append (Path.ofNames directories)
      (String.ofList ('.' :: rest))) = target :=
    Path.normal_append_climb hdirectories hdown rfl hparts
  have htarget : Path.normal target = target := by
    refine (Path.inNormalForm_ofNames fun x hx ↦ ?_).normal_eq
    rcases List.mem_append.1 hx with hx | hx
    · exact hdirectories x (List.mem_of_mem_take hx)
    · exact hdown x hx
  have hne : specifier ≠ "" := by
    rw [← String.toList_inj.ne, toList_relativeSpecifier, List.replicate_succ]
    exact List.cons_ne_nil _ _
  refine ⟨by rw [hbase, List.map_singleton, hnormal], ?_⟩
  rw [Resolver.resolve, if_neg hne, hbase, List.flatMap_singleton,
    candidates_congr (hnormal.trans htarget.symm)]

/-- Three points lead two directories up, past an alias that applies to every specifier. -/
theorem relative_module_base_of_three_points :
    let r : Resolver :=
      { rules := [⟨"*", "", true, [⟨"/lib/", true⟩]⟩]
        hasFile := fun path ↦ path == "/srv/models/user.py" }
    (r.bases "/srv/app/core/views.py"
        (Resolver.specifierIn "/srv/app/core/views.py" "...models.user")).map Path.normal =
      ["/srv/models/user"] ∧
    r.resolve "/srv/app/core/views.py" "...models.user" = some "/srv/models/user.py" := by
  intro r
  have himporter : Path.ofNames (["srv", "app", "core"] ++ ["views" ++ ".py"]) =
      "/srv/app/core/views.py" := by decide +kernel
  have hspecifier : relativeSpecifier 3 ["models", "user"] = "...models.user" := by decide +kernel
  have htarget : Path.ofNames (["srv", "app", "core"].take (3 - (3 - 1)) ++ ["models", "user"]) =
      "/srv/models/user" := by decide +kernel
  obtain ⟨hbase, hresolve⟩ := @relative_module_base r ["srv", "app", "core"] ["models", "user"]
    "views" 3 (by decide) (by decide) (by decide) (by decide)
  rw [himporter, hspecifier] at hbase hresolve
  have hfound : (candidates "/srv/models/user").find? r.hasFile = some "/srv/models/user.py" := by
    decide +kernel
  rw [← htarget] at hfound
  exact ⟨hbase.trans (congrArg ([·]) htarget), hresolve.trans hfound⟩

end RepoSurvey.Imports
