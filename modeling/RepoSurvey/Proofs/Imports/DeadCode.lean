import RepoSurvey.Imports.DeadCode
import RepoSurvey.Proofs.Imports.Graph
import RepoSurvey.Proofs.Path.Below

/-!
# Which files may be dead

A file may be dead by what is said of it in four places: its own names, its path seen as that of an
entry point, its path seen as that of a test, and the imports of all files. `IsCandidate` says this
without the graph and without the predicates that are run; `entries_exact` shows that the entries
are exactly the files for which it holds, in the order of the files.

* No import leads to a file exactly if nobody is noted at its node (`exists_node_of_mem`). This
  needs the normal forms of all paths to differ: of two files with one normal form, imports lead to
  the last.
* A test is known by a directory on its path, or by its name alone (`isTest_iff`). A name is cut
  from its end, since only the last extension counts (`isTestName_iff`).
-/

namespace RepoSurvey

open RepoSurvey.Text

/-! ### Who imports a file -/

namespace Imports

/-- Where the normal forms of all paths differ, a path is told by its normal form. -/
theorem injOn_normal_of_nodup {analyses : List FileAnalysis}
    (hnormal : (analyses.map fun a ↦ Path.normal a.path).Nodup) :
    Set.InjOn Path.normal {p | p ∈ analyses.map FileAnalysis.path} := by
  have hmap : (analyses.map FileAnalysis.path).map Path.normal =
      analyses.map fun a ↦ Path.normal a.path := List.map_map
  rw [← hmap] at hnormal
  intro p hp q hq h
  exact List.inj_on_of_nodup_map hnormal hp hq h

/-- An analysed file has a node, and nobody is noted there as importing it exactly if no import of
any file resolves to its normal form. -/
theorem exists_node_of_mem {r : Resolver} {analyses : List FileAnalysis}
    (hnormal : (analyses.map fun a ↦ Path.normal a.path).Nodup) {a : FileAnalysis}
    (ha : a ∈ analyses) :
    ∃ n, (graph r analyses).lookup a.path = some n ∧
      (n.calledBy = [] ↔
        ∀ f ∈ analyses, ∀ s ∈ f.imports, r.resolve f.path s ≠ some (Path.normal a.path)) := by
  have hmem : a.path ∈ analyses.map FileAnalysis.path := List.mem_map_of_mem ha
  have hnode : (graph r analyses).lookup a.path = some (nodeOf (edges r analyses) a.path) :=
    lookup_graph_eq_some_iff.2 ⟨mem_paths.2 hmem, rfl⟩
  have hedge (b : String) : (b, a.path) ∈ edges r analyses ↔
      ∃ s, HasImport analyses b s ∧ r.resolve b s = some (Path.normal a.path) := by
    rw [← calls_graph_iff, calls_graph_iff_resolve (injOn_normal_of_nodup hnormal)]
    exact and_iff_right hmem
  refine ⟨_, hnode, ?_⟩
  rw [List.eq_nil_iff_forall_not_mem]
  simp only [mem_calledBy_nodeOf, hedge]
  constructor
  · intro hnone f hf s hs hresolve
    exact hnone f.path ⟨s, ⟨f, hf, rfl, hs⟩, hresolve⟩
  · rintro hnone b ⟨s, ⟨f, hf, rfl, hs⟩, hresolve⟩
    exact hnone f hf s hs hresolve

end Imports

namespace DeadCode

/-! ### Tests -/

/-- A name stops with `.test` or `.spec` and a last extension. -/
def HasTestName (name : List Char) : Prop :=
  ∃ front ext, '.' ∉ ext ∧ ext ≠ [] ∧
    (name = front ++ ".test.".toList ++ ext ∨ name = front ++ ".spec.".toList ++ ext)

/-- A path leads through a directory of tests, or to a file that is named as a test. Backslashes
count as slashes. -/
def IsTestPath (path : String) : Prop :=
  let parts := Path.parts (replaceChar '\\' '/' path.toList)
  (∃ d ∈ parts.dropLast, String.ofList d ∈ testDirectories) ∨
    ∃ name ∈ parts.getLast?, HasTestName name

/-- A name with a last extension is that of a test if the part in front ends with a mark of tests.
The marks are compared backwards. -/
theorem isTestName_append {ext : List Char} (hext : '.' ∉ ext) (hne : ext ≠ [])
    (front : List Char) :
    isTestName (front ++ '.' :: ext) = true ↔
      "tset.".toList <+: front.reverse ∨ "ceps.".toList <+: front.reverse := by
  obtain ⟨htake, hdrop⟩ := takeWhile_dropWhile_reverse hext front
  rw [isTestName, htake, hdrop]
  simp [hne, List.isPrefixOf_iff_prefix]

/-- A beginning backwards is an end. -/
theorem prefix_reverse_iff {mark front : List Char} :
    mark <+: front.reverse ↔ ∃ rest, front = rest ++ mark.reverse := by
  constructor
  · rintro ⟨rest, hrest⟩
    refine ⟨rest.reverse, ?_⟩
    rw [← List.reverse_append, hrest, List.reverse_reverse]
  · rintro ⟨rest, rfl⟩
    exact ⟨rest.reverse, by simp⟩

/-- A name without a last extension is not that of a test. -/
theorem exists_ext_of_isTestName {name : List Char} (h : isTestName name = true) :
    ∃ front ext, '.' ∉ ext ∧ ext ≠ [] ∧ name = front ++ '.' :: ext := by
  have hcut := List.takeWhile_append_dropWhile (p := (· != '.')) (l := name.reverse)
  rw [isTestName, Bool.and_eq_true, Bool.not_eq_true'] at h
  obtain ⟨htail, hstem⟩ := h
  rcases hdrop : name.reverse.dropWhile (· != '.') with - | ⟨c, stem⟩
  · simp [hdrop] at hstem
  · -- what is left begins with the point where cutting has stopped
    have hc : c = '.' := by
      have hhead := List.head?_dropWhile_not (· != '.') name.reverse
      rw [hdrop] at hhead
      simpa using hhead
    subst hc
    refine ⟨stem.reverse, (name.reverse.takeWhile (· != '.')).reverse, ?_, ?_, ?_⟩
    · intro hmem
      have hpoint := List.mem_takeWhile_imp (List.mem_reverse.1 hmem)
      simp at hpoint
    · simpa [List.isEmpty_eq_false_iff] using htail
    · rw [hdrop] at hcut
      have hname := congrArg List.reverse hcut
      simpa using hname.symm

/-- What is run on a name says the same as its spelling. -/
theorem isTestName_iff {name : List Char} : isTestName name = true ↔ HasTestName name := by
  have hmark (rest ext mark : List Char) :
      rest ++ mark ++ '.' :: ext = rest ++ (mark ++ ['.']) ++ ext := by simp
  constructor
  · intro h
    obtain ⟨front, ext, hext, hne, rfl⟩ := exists_ext_of_isTestName h
    rw [isTestName_append hext hne, prefix_reverse_iff, prefix_reverse_iff] at h
    rcases h with ⟨rest, rfl⟩ | ⟨rest, rfl⟩
    · exact ⟨rest, ext, hext, hne, Or.inl (hmark rest ext ".test".toList)⟩
    · exact ⟨rest, ext, hext, hne, Or.inr (hmark rest ext ".spec".toList)⟩
  · rintro ⟨rest, ext, hext, hne, rfl | rfl⟩
    · have hfront := (hmark rest ext ".test".toList).symm
      refine (congrArg (isTestName · = true) hfront).mpr ?_
      rw [isTestName_append hext hne, prefix_reverse_iff]
      exact Or.inl ⟨rest, rfl⟩
    · have hfront := (hmark rest ext ".spec".toList).symm
      refine (congrArg (isTestName · = true) hfront).mpr ?_
      rw [isTestName_append hext hne, prefix_reverse_iff, prefix_reverse_iff]
      exact Or.inr ⟨rest, rfl⟩

/-- A path without components is that of no test. -/
theorem isTestName_rootMark (cs : List Char) : isTestName (Path.rootMark cs) = false := by
  obtain ⟨n, hn⟩ := Path.exists_rootMark_eq cs
  have hdrop : (List.replicate n '/').reverse.dropWhile (· != '.') = [] := by
    rw [List.reverse_replicate, List.dropWhile_eq_nil_iff]
    intro c hc
    rw [List.eq_of_mem_replicate hc]
    decide
  rw [hn, isTestName, hdrop]
  simp

/-- And so for a whole path. -/
theorem isTest_iff {path : String} : isTest path = true ↔ IsTestPath path := by
  rw [isTest, IsTestPath]
  set parts := Path.parts (replaceChar '\\' '/' path.toList)
  rcases List.eq_nil_or_concat parts with hparts | ⟨directories, name, hparts⟩
  · simp [hparts, isTestName_rootMark]
  · simp [hparts, isTestName_iff]

/-! ### Candidates -/

/-- Whether a file is to be reported, where paths are seen from the directory `here`: it exports
names, is no entry point, is no test unless tests count, and is not what any import of any file
resolves to. -/
structure IsCandidate (here : String) (r : Imports.Resolver) (analyses : List FileAnalysis)
    (root : Option String) (includeTests : Bool) (entryPoints : List String)
    (a : FileAnalysis) : Prop where
  exports_ne_nil : a.exports ≠ []
  not_entryPoint : Path.stem a.path ∉ entryPoints
  not_test : includeTests = false →
    ∀ seen, Path.SeenFrom here root a.path seen → ¬IsTestPath seen
  not_imported : ∀ f ∈ analyses, ∀ s ∈ f.imports,
    r.resolve f.path s ≠ some (Path.normal a.path)

variable {here : String} {r : Imports.Resolver} {analyses : List FileAnalysis}
  {root : Option String}
  {includeTests : Bool} {entryPoints : List String}

/-- What is run says the same as the graph and the paths do. -/
theorem isDead_iff (hnormal : (analyses.map fun a ↦ Path.normal a.path).Nodup) {a : FileAnalysis}
    (ha : a ∈ analyses) :
    isDead here (Imports.graph r analyses) root includeTests entryPoints a = true ↔
      IsCandidate here r analyses root includeTests entryPoints a := by
  obtain ⟨n, hn, hcalled⟩ := Imports.exists_node_of_mem (r := r) hnormal ha
  have htest : (includeTests || !isTest (Path.below here root a.path)) = true ↔
      (includeTests = false → ∀ seen, Path.SeenFrom here root a.path seen → ¬IsTestPath seen) := by
    simp only [Path.seenFrom_iff, forall_eq, ← isTest_iff]
    cases includeTests <;> simp
  have hentry : (!isEntryPoint entryPoints a.path) = true ↔ Path.stem a.path ∉ entryPoints := by
    simp [isEntryPoint]
  have hexports : (!a.exports.isEmpty) = true ↔ a.exports ≠ [] := by simp
  rw [isDead, hn, Bool.and_eq_true, Bool.and_eq_true, Bool.and_eq_true, htest, hentry, hexports,
    List.isEmpty_iff, hcalled]
  constructor
  · rintro ⟨⟨⟨himported, hexports⟩, hentry⟩, htest⟩
    exact ⟨hexports, hentry, htest, himported⟩
  · rintro ⟨hexports, hentry, htest, himported⟩
    exact ⟨⟨⟨himported, hexports⟩, hentry⟩, htest⟩

/-- **Dead code, from imports to entries.** Where the normal forms of all paths differ, the entries
are those of some of the files, in the order of the files and each with the names that its file
exports; and these are exactly the files that export names, are no entry points, are no tests as
seen from the root unless tests count, and are not what any import resolves to. All this holds in
whatever directory it is worked out. -/
theorem entries_exact (here : String) (r : Imports.Resolver) (root : Option String)
    (includeTests : Bool) (entryPoints : List String) (analyses : List FileAnalysis)
    (hnormal : (analyses.map fun a ↦ Path.normal a.path).Nodup) :
    ∃ dead : List FileAnalysis, dead.Sublist analyses ∧
      entries here (Imports.graph r analyses) root includeTests entryPoints analyses =
        dead.map (fun a ↦ { path := a.path, exports := a.exports }) ∧
      ∀ a ∈ analyses, a ∈ dead ↔ IsCandidate here r analyses root includeTests entryPoints a := by
  refine ⟨analyses.filter (isDead here (Imports.graph r analyses) root includeTests entryPoints),
    List.filter_sublist, rfl, fun a ha ↦ ?_⟩
  rw [List.mem_filter, and_iff_right ha]
  exact isDead_iff hnormal ha

/-- Of these files the first is imported by the test, the second is a test and the third an entry
point, and the fourth exports nothing. The root is a directory of tests, which does not count. -/
theorem entries_exact_of_five_files :
    let files : List FileAnalysis :=
      [{ path := "/tests/a.js", exports := ["a"] },
        { path := "/tests/a.spec.js", imports := ["./a"], exports := ["run"] },
        { path := "/tests/index.js", exports := ["start"] },
        { path := "/tests/b.js" },
        { path := "/tests/c.js", exports := ["c", "d"] }]
    let r : Imports.Resolver := { hasFile := (files.map FileAnalysis.path).contains }
    (files.map fun a ↦ Path.normal a.path).Nodup ∧
      ∃ dead : List FileAnalysis, dead.Sublist files ∧
        entries "/" (Imports.graph r files) (some "/tests") false defaultEntryPoints files =
          dead.map (fun a ↦ { path := a.path, exports := a.exports }) ∧
        dead.map FileAnalysis.path = ["/tests/c.js"] ∧
        ∀ a ∈ files, a ∈ dead ↔
          IsCandidate "/" r files (some "/tests") false defaultEntryPoints a := by
  intro files r
  have hnormal : (files.map fun a ↦ Path.normal a.path).Nodup := by decide +kernel
  obtain ⟨dead, hsublist, hentries, hmem⟩ :=
    entries_exact "/" r (some "/tests") false defaultEntryPoints files hnormal
  refine ⟨hnormal, dead, hsublist, hentries, ?_, hmem⟩
  have hpaths : (entries "/" (Imports.graph r files) (some "/tests") false defaultEntryPoints
      files).map DeadCodeEntry.path = ["/tests/c.js"] := by decide +kernel
  rw [hentries, List.map_map] at hpaths
  exact hpaths

end DeadCode

end RepoSurvey
