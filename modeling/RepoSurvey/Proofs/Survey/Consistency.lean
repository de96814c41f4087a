import RepoSurvey.Proofs.Config.Options
import RepoSurvey.Proofs.Survey.Enrichment
import RepoSurvey.Proofs.Survey.Groundwork
import RepoSurvey.Proofs.Survey.Totals

/-!
# The parts of a survey agree

One list of files goes through a survey: it is scanned and analysed, read for imports and for what
may be dead, cut into batches that the history is asked about, and summed up. `Consistent` says that
no part of the result has lost a file, has put it in another place or spells its path in another
way; `make_consistent` says so of every survey, whatever git yields.

It is all due to two facts about the enriched files: they are the analysed files in their order
(`map_analysis_of_forall₂`), and no two of these have one path (`Groundwork.nodup_paths`).
-/

namespace RepoSurvey

open RepoSurvey.History

namespace Survey

/-- What the parts of a survey say of each other and of the tree that it was made of, under the
options `o`. -/
structure Consistent (files : FileTree) (o : Options) (s : Survey) : Prop where
  /-- The files are those of the scan that can be analysed, in its order. -/
  analyses : s.files.map EnrichedFile.analysis =
    (Scan.files files s.repository o.ignore).filterMap fun p ↦ (Code.inspect files p).analysis?
  /-- Each stands under the path at which the scan has found it. -/
  paths : s.files.map EnrichedFile.path =
    (Scan.files files s.repository o.ignore).filter fun p ↦ (Code.inspect files p).analysis?.isSome
  nodup_paths : (s.files.map EnrichedFile.path).Nodup
  totalFiles_eq : s.totalFiles = s.files.length
  /-- The graph has a node for each file and no others. -/
  keys_graph : Assoc.keys s.graph = s.files.map EnrichedFile.path
  /-- The node that a file shows is its node in the graph. -/
  lookup_graph : ∀ f ∈ s.files, s.graph.lookup f.path = some f.node
  /-- What may be dead are some of the files, in their order; they export names, and nobody imports
  them. -/
  deadCode : ∃ dead : List EnrichedFile, dead.Sublist s.files ∧
    s.deadCode = dead.map (fun f ↦ { path := f.path, exports := f.analysis.exports }) ∧
    ∀ f ∈ dead, f.analysis.exports ≠ [] ∧ f.node.calledBy = []
  /-- The sums of all languages are the sums over all files. -/
  sum_count : (s.languages.map fun l ↦ l.2.count).sum = s.files.length
  sum_lines : (s.languages.map fun l ↦ l.2.lines).sum =
    (s.files.map fun f ↦ f.analysis.lines).sum
  sum_size : (s.languages.map fun l ↦ l.2.size).sum = (s.files.map fun f ↦ f.analysis.size).sum
  /-- No file has more related files than are wanted. -/
  length_related_le : ∀ f ∈ s.files, (f.related.length : Int) ≤ o.relatedLimit
  related_eq_nil : o.includeRelated = false → ∀ f ∈ s.files, f.related = []

variable {b : Outcomes} {g : Groundwork} {now : Int} {analyses : List FileAnalysis}
  {found : List EnrichedFile}

theorem map_analysis_of_forall₂ (h : List.Forall₂ (Enriched b now g) analyses found) :
    found.map EnrichedFile.analysis = analyses := by
  induction h with
  | nil => rfl
  | cons hhead _ ih => rw [List.map_cons, hhead.analysis_eq, ih]

theorem map_path_of_forall₂ (h : List.Forall₂ (Enriched b now g) analyses found) :
    found.map EnrichedFile.path = analyses.map FileAnalysis.path := by
  rw [← map_analysis_of_forall₂ h, List.map_map]
  rfl

/-- What may be dead among analyses is so among the files that have them. -/
theorem entries_map_analysis (here : String) (graph : ImportGraph) (root : Option String)
    (includeTests : Bool) (entryPoints : List String) (files : List EnrichedFile) :
    DeadCode.entries here graph root includeTests entryPoints (files.map EnrichedFile.analysis) =
      (files.filter fun f ↦
        DeadCode.isDead here graph root includeTests entryPoints f.analysis).map fun f ↦
          { path := f.path, exports := f.analysis.exports } := by
  rw [DeadCode.entries, List.filter_map, List.map_map]
  rfl

/-- Where each file is enriched and the groundwork is that for a scan, the parts of the survey
agree. -/
theorem consistent_ofFiles {files : FileTree} (hfiles : files.isProper = true) {root : String}
    {o : Options} (hlimit : 0 ≤ o.relatedLimit) {r : Imports.Resolver}
    (hg : Groundwork.ofAnalyses root o (Groundwork.analysesOf
      (Groundwork.looks files root (Scan.course files root o.ignore))) r = g)
    (hfound : List.Forall₂ (Enriched b now g) g.analyses found) (time : String) :
    (ofFiles g found time).Consistent files o := by
  subst hg
  set analyses :=
    Groundwork.analysesOf (Groundwork.looks files root (Scan.course files root o.ignore))
  have hanalyses : found.map EnrichedFile.analysis = analyses := map_analysis_of_forall₂ hfound
  have hpaths : found.map EnrichedFile.path = analyses.map FileAnalysis.path :=
    map_path_of_forall₂ hfound
  have hnodup : (analyses.map FileAnalysis.path).Nodup :=
    Groundwork.nodup_paths hfiles root o.ignore
  have henriched : ∀ f ∈ found, ∃ a ∈ analyses, Enriched b now _ a f :=
    fun f hf ↦ exists_mem_of_forall₂ hfound hf
  -- the default for a file without a node is never used
  have hnode : ∀ f ∈ found, (Imports.graph r analyses).lookup f.path = some f.node := by
    intro f hf
    obtain ⟨a, ha, h⟩ := henriched f hf
    rw [EnrichedFile.path, h.analysis_eq, h.node_eq]
    exact Imports.lookup_graph_getD ha {}
  exact {
    analyses := hanalyses.trans (Groundwork.analysesOf_looks files root o.ignore)
    paths := hpaths.trans (Groundwork.paths_eq_filter files root o.ignore)
    nodup_paths := by
      show (found.map EnrichedFile.path).Nodup
      rw [hpaths]
      exact hnodup
    totalFiles_eq := rfl
    keys_graph := (Imports.keys_graph_of_nodup hnodup).trans hpaths.symm
    lookup_graph := hnode
    deadCode := by
      have hentries := entries_map_analysis root (Imports.graph r analyses) (some root)
        o.includeTests o.entryPoints found
      rw [hanalyses] at hentries
      refine ⟨_, List.filter_sublist, hentries, fun f hf ↦ ?_⟩
      obtain ⟨hmem, hdead⟩ := List.mem_filter.1 hf
      obtain ⟨hexports, n, hn, hcalled⟩ := DeadCode.exists_node_of_isDead hdead
      obtain rfl : f.node = n := Option.some.inj ((hnode f hmem).symm.trans hn)
      exact ⟨hexports, hcalled⟩
    sum_count := (LanguageTotals.areTotals_ofFiles found).sum_count
    sum_lines := (LanguageTotals.areTotals_ofFiles found).sum_lines
    sum_size := (LanguageTotals.areTotals_ofFiles found).sum_size
    length_related_le := by
      intro f hf
      obtain ⟨a, -, h⟩ := henriched f hf
      exact h.length_related_le hlimit
    related_eq_nil := by
      intro hoff f hf
      obtain ⟨a, -, h⟩ := henriched f hf
      exact h.related_eq_nil hoff }

/-- **The parts of a survey agree.** A survey whose groundwork is done is made, and every survey
that is made is consistent under its effective options: whatever git yields as long as its commands
succeed or fail as is expected, and for all options that can be asked for. -/
theorem make_consistent (site : Site) (hfiles : site.files.isProper = true)
    (hgit : site.git.IsExpected) (path : String) (r : Options.Request) :
    ((Groundwork.make site.files path (Options.ofRequest r)).2.isOk = true →
      (make site path (Options.ofRequest r)).2.isOk = true) ∧
    ∀ s, (make site path (Options.ofRequest r)).2 = .ok s →
      Groundwork.findRoot site.files path = .ok s.repository ∧
        ∃ c notes, Groundwork.config site.files s.repository = .ok (c, notes) ∧
          s.Consistent site.files (c.apply (Options.ofRequest r)) := by
  have hobeys : site.git.Obeys fun _ _ ↦ True := fun _ _ ↦ trivial
  -- the survey stands and falls with the groundwork
  rcases hg : (Groundwork.make site.files path (Options.ofRequest r)).2 with fault | g
  · rw [make_eq_error site hg]
    exact ⟨fun h ↦ h, fun s hs ↦ nomatch hs⟩
  · obtain ⟨found, hfound, hmake⟩ := exists_make_eq_ok hgit hobeys site.files site.now hg
    obtain ⟨root, c, notes, load, hroot, hconfig, -, -, hofAnalyses⟩ :=
      Groundwork.make_eq_ok_iff.1 hg
    rw [hmake]
    refine ⟨fun _ ↦ rfl, fun s hs ↦ ?_⟩
    obtain rfl := Except.ok.inj hs
    have hrepository : g.root = root := by
      rw [← hofAnalyses]
      rfl
    refine ⟨hroot.trans (congrArg _ hrepository.symm), c, notes, ?_, ?_⟩
    · rw [← hconfig, ← hrepository]
      rfl
    · exact consistent_ofFiles hfiles (Config.relatedLimit_apply_ofRequest c r) hofAnalyses hfound _

theorem mem_files_linkedTree :
    "/repo/src/util.js" ∈ Scan.files Scan.linkedTree "/repo" Options.usual.ignore := by
  have htop := Scan.resolve_linkedTree
  have hproper : Scan.linkedTree.isProper = true := by decide
  have hfile : Scan.linkedTree.at? (["repo"] ++ ["src", "util.js"]) = some (.file []) := rfl
  have hclear : Scan.IsClear (IgnoreRule.ofPatterns Options.usual.ignore) ["src", "util.js"] := by
    have hinits : ∀ q ∈ ["src", "util.js"].inits, q ≠ [] →
        isIgnored (IgnoreRule.ofPatterns Options.usual.ignore) (Scan.pathText q) = false := by
      decide
    exact fun q hq ↦ hinits q ((List.mem_inits _ _).2 hq)
  have hreach : Scan.IsInReach "/repo" ["src", "util.js"] := by
    have hinits : ∀ q ∈ ["src", "util.js"].inits,
        FileTree.isLongPath (Scan.pathBelow "/repo" q) = false := by decide
    exact fun q hq _ ↦ hinits q ((List.mem_inits _ _).2 hq)
  have hpath : Scan.pathBelow "/repo" ["src", "util.js"] = "/repo/src/util.js" := by decide
  obtain ⟨-, hfound⟩ := (Scan.scans_course htop Options.usual.ignore).mem_found_of_at? hproper htop
    (Scan.fault?_linkedTree _) (by simp) hfile rfl hclear hreach
  rw [Scan.files_eq_map_found, ← hpath]
  exact List.mem_map_of_mem (hfound [] rfl)

theorem isSome_inspect_linkedTree :
    (Code.inspect Scan.linkedTree "/repo/src/util.js").analysis?.isSome = true := by
  have hlanguage : Code.Language.ofExtension? (Path.suffix "/repo/src/util.js") =
      some .javascript := by decide
  have hplace : Scan.linkedTree.resolve "/repo/src/util.js" = some ["repo", "src", "util.js"] :=
    FileTree.resolve_of_at? (by decide) rfl rfl (by decide) (by decide) (by decide) (by decide)
  have htext : Scan.linkedTree.readText "/repo/src/util.js" = .ok "" := by
    rw [FileTree.readText, FileTree.locate_eq_ok_iff.2 hplace]
    rfl
  rw [Option.isSome_iff_exists]
  exact ⟨_, Code.analysis?_inspect_eq_some_iff.2 ⟨.javascript, "", hlanguage, htext, rfl⟩⟩

/-- A repository with links, of which git knows nothing. -/
theorem make_consistent_of_links :
    let site : Site :=
      { files := Scan.linkedTree, git := fun _ _ ↦ .error (.exit 128 "fatal: not a git repository")
        now := { date := ⟨2024, 6, 1⟩ } }
    site.files.isProper = true ∧ site.git.IsExpected ∧
      ∃ s, (make site "/repo" (Options.ofRequest {})).2 = .ok s ∧
        "/repo/src/util.js" ∈ s.files.map EnrichedFile.path ∧
        s.Consistent site.files (Options.ofRequest {}) := by
  intro site
  have hfiles : site.files.isProper = true := by decide
  have hgit : site.git.IsExpected := by
    rintro _ _ fault h
    cases h
    rfl
  obtain ⟨g, hg⟩ := Groundwork.exists_make_linkedTree (Options.ofRequest {})
  obtain ⟨hmade, hconsistent⟩ := make_consistent site hfiles hgit "/repo" {}
  rcases hmake : (make site "/repo" (Options.ofRequest {})).2 with fault | s
  · have hnone := hmade (by rw [hg]; rfl)
    rw [hmake] at hnone
    cases hnone
  · obtain ⟨hroot, c, notes, hconfig, hs⟩ := hconsistent s hmake
    have hrepository : "/repo" = s.repository :=
      Except.ok.inj (Groundwork.findRoot_linkedTree.symm.trans hroot)
    rw [← hrepository] at hconfig
    obtain ⟨rfl, -⟩ := Prod.mk.inj
      (Except.ok.inj (Groundwork.config_linkedTree.symm.trans hconfig))
    rw [Config.apply_of_silent] at hs
    refine ⟨hfiles, hgit, s, rfl, ?_, hs⟩
    rw [hs.paths, ← hrepository, List.mem_filter]
    exact ⟨mem_files_linkedTree, isSome_inspect_linkedTree⟩

end Survey

end RepoSurvey
