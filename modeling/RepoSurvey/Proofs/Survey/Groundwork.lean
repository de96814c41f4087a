import RepoSurvey.Proofs.Files.Scan
import RepoSurvey.Proofs.Imports.Graph
import RepoSurvey.Proofs.Path.Clean
import RepoSurvey.Survey.Groundwork

/-!
# What the groundwork holds

Groundwork is done exactly if there is a directory at the path, its configuration can be gone on
with, no fault ends the scan and the alias settings are loaded (`make_eq_ok_iff`). The analysed
files are then those of the scan that can be analysed, in its order (`analysesOf_looks`), and each
has the path under which it was found, since this is clean (`paths_eq_filter`). So no two have one
path, and each has a node of its own in the import graph (`keys_graph_of_nodup`).
-/

namespace RepoSurvey

namespace Code

/-- A file has an analysis exactly if its extension is known and it can be read as text; this is
then the analysis of its text under its clean path. -/
theorem analysis?_inspect_eq_some_iff {files : FileTree} {path : String} {a : FileAnalysis} :
    (inspect files path).analysis? = some a ↔ ∃ language source,
      Language.ofExtension? (Path.suffix path) = some language ∧
        files.readText path = .ok source ∧
        (study Script.extract? source language (Path.suffix path) (Path.clean path)).1 = a := by
  -- the equation that `rw` would make for `inspectWith` unfolds the study of a text, slowly
  delta inspect inspectWith
  rcases hlanguage : Language.ofExtension? (Path.suffix path) with - | language
  · simp [hlanguage, Inspection.analysis?]
  · rcases files.readText path with fault | source
    · simp [hlanguage, Inspection.analysis?]
    · simp [hlanguage, Inspection.analysis?]

/-- An analysis names its file by the clean path. -/
theorem path_of_analysis? {files : FileTree} {path : String} {a : FileAnalysis}
    (h : (inspect files path).analysis? = some a) : a.path = Path.clean path := by
  obtain ⟨language, source, -, -, rfl⟩ := analysis?_inspect_eq_some_iff.1 h
  rfl

end Code

namespace Imports

/-- Where no two files have one path, the graph has the paths for keys, in the order of the
files. -/
theorem keys_graph_of_nodup {r : Resolver} {analyses : List FileAnalysis}
    (h : (analyses.map FileAnalysis.path).Nodup) :
    Assoc.keys (graph r analyses) = analyses.map FileAnalysis.path := by
  rw [keys_graph, paths, Assoc.distinct_of_nodup h]

/-- Every analysed file has a node. -/
theorem lookup_graph_getD {r : Resolver} {analyses : List FileAnalysis} {a : FileAnalysis}
    (ha : a ∈ analyses) (d : ImportNode) :
    (graph r analyses).lookup a.path = some (((graph r analyses).lookup a.path).getD d) := by
  have hmem : a.path ∈ paths analyses := mem_paths.2 (List.mem_map_of_mem ha)
  rw [lookup_graph_eq_some_iff.2 ⟨hmem, rfl⟩]
  rfl

end Imports

/-- A file that may be dead exports names, and its node names nobody who imports it. -/
theorem DeadCode.exists_node_of_isDead {here : String} {graph : ImportGraph}
    {root : Option String} {includeTests : Bool} {entryPoints : List String} {a : FileAnalysis}
    (h : isDead here graph root includeTests entryPoints a = true) :
    a.exports ≠ [] ∧ ∃ n, graph.lookup a.path = some n ∧ n.calledBy = [] := by
  simp only [isDead, Bool.and_eq_true] at h
  obtain ⟨⟨⟨hnode, hexports⟩, -⟩, -⟩ := h
  refine ⟨by simpa using hexports, ?_⟩
  rcases hn : graph.lookup a.path with - | n
  · simp [hn] at hnode
  · exact ⟨n, rfl, by simpa [hn] using hnode⟩

namespace Groundwork

variable {files : FileTree} {root path : String} {asked : Options} {g : Groundwork}

/-- Groundwork is done exactly if nothing stops it: the directory is there, the configuration can be
gone on with, the scan has no fault and the alias settings are loaded. -/
theorem make_eq_ok_iff : (make files path asked).2 = .ok g ↔
    ∃ root c notes load, findRoot files path = .ok root ∧
      config files root = .ok (c, notes) ∧
      Scan.fault? files root (c.apply asked).ignore = none ∧
      Imports.loadAliases files root = .ok load ∧
      ofAnalyses root (c.apply asked)
        (analysesOf (looks files root (Scan.course files root (c.apply asked).ignore)))
        (load.config.resolver files) = g := by
  rw [make]
  rcases hroot : findRoot files path with fault | root
  · simp
  rcases hconfig : config files root with fault | ⟨c, notes⟩
  · simp [hconfig]
  rcases hfault : (Scan.course files root (c.apply asked).ignore).fault with - | fault
  · rcases hload : Imports.loadAliases files root with fault | load
    · simp [hconfig, hfault, hload]
    · simp [hconfig, hfault, hload, Scan.fault?]
  · simp [hconfig, hfault, Scan.fault?]

/-! ### A repository without settings -/

section LinkedTree

open FileTree Scan

theorem find?_linkedTree : linkedTree.find? "/repo" = linkedTree.at? ["repo"] := by
  rw [find?, resolve_linkedTree]
  rfl

/-- There is no file of settings in the repository. -/
theorem locate_linkedTree_settings :
    ∀ path ∈ ["/repo/.archaeologist.yml", "/repo/tsconfig.json", "/repo/jsconfig.json"],
      linkedTree.locate path = .error .missing := by
  have hspelled : ∀ path ∈ ["/repo/.archaeologist.yml", "/repo/tsconfig.json",
      "/repo/jsconfig.json"], isSound path = true ∧ isLongPath path = false ∧
        ∃ name ∈ [".archaeologist.yml", "tsconfig.json", "jsconfig.json"],
          components path = ["", "repo", name] := by decide
  have hlength : ∀ n ∈ ["repo", ".archaeologist.yml", "tsconfig.json", "jsconfig.json"],
      ¬nameLimit < n.utf8ByteSize := by decide
  intro path hpath
  obtain ⟨hsound, hshort, name, hname, hparts⟩ := hspelled path hpath
  have hrepo := hlength "repo" List.mem_cons_self
  have hother := hlength name (List.mem_cons_of_mem _ hname)
  rw [locate, if_neg (by simp [hsound]), if_neg (by simp [hshort]), hparts]
  simp only [List.mem_cons, List.not_mem_nil, or_false] at hname
  rcases hname with rfl | rfl | rfl <;>
    simp [resolveFrom, linkedTree, at?, entry?, entries, List.lookup_cons, Except.map, hrepo,
      hother]

variable {setting : String} (hsetting :
  setting ∈ ["/repo/.archaeologist.yml", "/repo/tsconfig.json", "/repo/jsconfig.json"])

include hsetting

theorem refuses_linkedTree_settings : linkedTree.refuses setting = false := by
  rw [refuses, locate_linkedTree_settings setting hsetting]

theorem find?_linkedTree_settings : linkedTree.find? setting = none := by
  rw [find?, resolve, locate_linkedTree_settings setting hsetting]
  rfl

omit hsetting

/-- The survey is of the repository itself. -/
theorem findRoot_linkedTree : findRoot linkedTree "/repo" = .ok "/repo" := by
  have hparts : components "/repo" = ["", "repo"] := by decide
  have hsound : isSound "/repo" = true := by decide
  have hreal : linkedTree.realPath "/repo" = .ok "/repo" := by
    simp [realPath, hsound, hparts, followFrom, target?, linkedTree, at?, entry?, entries,
      List.lookup_cons, pathOf]
  have hfree := refuses_of_resolve resolve_linkedTree
  simp only [findRoot, hreal, checkExists, unlessRefused, hfree, exists?, isDir, find?_linkedTree]
  rfl

/-- Without a file of settings the configuration says nothing. -/
theorem config_linkedTree : config linkedTree "/repo" = .ok ({ root := "/repo" }, []) := by
  have hpath : Path.child "/repo" Config.fileName = "/repo/.archaeologist.yml" := by decide
  have hparts : components "/repo/.archaeologist.yml" = ["", "repo", ".archaeologist.yml"] := by
    decide
  have hsound : isSound "/repo/.archaeologist.yml" = true := by decide
  have hreal : linkedTree.realPath "/repo/.archaeologist.yml" = .ok "/repo/.archaeologist.yml" := by
    simp [realPath, hsound, hparts, followFrom, target?, linkedTree, at?, entry?, entries,
      List.lookup_cons, pathOf]
  have hdir : linkedTree.checkDir "/repo" = .ok true := by
    rw [checkDir, unlessRefused, refuses_of_resolve resolve_linkedTree, isDir, find?_linkedTree]
    rfl
  have hexists : linkedTree.checkExists "/repo/.archaeologist.yml" = .ok false := by
    rw [checkExists, unlessRefused, refuses_linkedTree_settings List.mem_cons_self, exists?,
      find?_linkedTree_settings List.mem_cons_self]
    rfl
  have hparent : Path.parent "/repo/.archaeologist.yml" = "/repo" := by decide
  simp [config, Config.load, Config.filePath, hdir, hpath, hreal, hexists, hparent,
    Except.mapError]

theorem loadAliases_linkedTree : Imports.loadAliases linkedTree "/repo" = .ok .none := by
  have hpaths : Imports.projectNames.map (Path.child "/repo") =
      ["/repo/tsconfig.json", "/repo/jsconfig.json"] := by decide
  have hcheck : ∀ path ∈ ["/repo/tsconfig.json", "/repo/jsconfig.json"],
      linkedTree.checkFile path = .ok false := by
    intro path hpath
    have hsetting := List.mem_cons_of_mem "/repo/.archaeologist.yml" hpath
    rw [checkFile, unlessRefused, refuses_linkedTree_settings hsetting, isFile,
      find?_linkedTree_settings hsetting]
    rfl
  have hnone : Imports.projectFile? linkedTree "/repo" = .ok none := by
    rw [Imports.projectFile?, hpaths]
    simp [Imports.firstFile?, hcheck]
  rw [Imports.loadAliases, hnone]
  rfl

/-- Without settings nothing stops the groundwork. -/
theorem exists_make_linkedTree (asked : Options) :
    ∃ g, (make linkedTree "/repo" asked).2 = .ok g :=
  ⟨_, make_eq_ok_iff.2 ⟨"/repo", _, _, _, findRoot_linkedTree, config_linkedTree,
    fault?_linkedTree _, loadAliases_linkedTree, rfl⟩⟩

end LinkedTree

/-! ### The analysed files -/

/-- The analysed files are those of the scan that can be analysed, in its order. -/
theorem analysesOf_looks (files : FileTree) (root : String) (ignore : List String) :
    analysesOf (looks files root (Scan.course files root ignore)) =
      (Scan.files files root ignore).filterMap fun p ↦ (Code.inspect files p).analysis? := by
  rw [analysesOf, looks, Scan.files, List.filterMap_map, List.filterMap_filterMap]
  refine List.filterMap_congr fun e _ ↦ ?_
  cases e with
  | innerLink | revisited => rfl
  | file path => simp only [Function.comp_apply, look, Scan.Event.file?, Option.map_some,
      Option.bind_some]

/-- The paths of the analysed files are those of the scan at which there is a file that can be
analysed. -/
theorem paths_eq_filter (files : FileTree) (root : String) (ignore : List String) :
    (analysesOf (looks files root (Scan.course files root ignore))).map FileAnalysis.path =
      (Scan.files files root ignore).filter fun p ↦
        (Code.inspect files p).analysis?.isSome := by
  rw [analysesOf_looks, List.map_filterMap, ← List.filterMap_eq_filter]
  refine List.filterMap_congr fun p hp ↦ ?_
  -- a path of the scan is clean already, so the analysis does not spell it in another way
  obtain ⟨e, -, he⟩ := List.mem_filterMap.1 hp
  obtain ⟨below, -, rfl⟩ := Option.map_eq_some_iff.1 he
  rcases ha : (Code.inspect files (Scan.pathBelow root below)).analysis? with - | a
  · simp [Option.guard, ha]
  · have hpath := Code.path_of_analysis? ha
    rw [Scan.clean_pathBelow] at hpath
    simp [Option.guard, ha, hpath]

/-- No two analysed files have one path. -/
theorem nodup_paths (hfiles : files.isProper = true) (root : String) (ignore : List String) :
    ((analysesOf (looks files root (Scan.course files root ignore))).map
      FileAnalysis.path).Nodup := by
  rw [paths_eq_filter]
  exact (Scan.nodup_files hfiles root ignore).filter _

end Groundwork

end RepoSurvey
