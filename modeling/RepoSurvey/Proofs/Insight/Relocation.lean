import RepoSurvey.Insight.Category
import RepoSurvey.Insight.Feature
import RepoSurvey.Imports.DeadCode
import RepoSurvey.Proofs.Assoc
import RepoSurvey.Proofs.Insight.Grouping
import RepoSurvey.Proofs.Path.Place

/-!
# Files under another root

Files that are given by relative paths can be placed under any root, and the nodes of their graph
with them. What is said of the files as a whole does not depend on the root: under each root it is
the same, with the root in front of all paths (`relocation_invariant`).

Three things are looked at in a path: how it is seen from the root, which gives the relative path
back (`below_append`); its last name, which is that of the relative path (`stem_append`); and which
node of the graph it has, which is the one of the relative path, since placing paths keeps them
apart (`append_inj`). Each of the three results follows by taking the placing out of what is run for
one file. Where all this is worked out, in which directory `here`, makes no difference either.
-/

namespace RepoSurvey

open RepoSurvey.Text

/-! ### Paths under a root -/

namespace Path

/-- A relative path of names that lead down. -/
def IsRelative (path : String) : Prop := ∀ p ∈ split '/' path.toList, LeadsDown p

instance : DecidablePred IsRelative := fun path ↦
  inferInstanceAs (Decidable (∀ p ∈ split '/' path.toList, LeadsDown p))

variable {root path other : String}

/-- A path of names does not begin at the root. -/
theorem IsRelative.isRooted (h : IsRelative path) : isRooted path = false := by
  by_contra hrooted
  obtain ⟨rest, hrest⟩ := isAbsolute_iff.1 (by simpa [Path.isRooted] using hrooted)
  have hempty : [] ∈ split '/' path.toList := by
    rw [hrest, split, if_pos rfl]
    exact List.mem_cons_self
  exact (h [] hempty).ne_nil rfl

theorem IsRelative.parts_eq (h : IsRelative path) : parts path.toList = split '/' path.toList :=
  List.filter_eq_self.2 fun p hp ↦ by simp [(h p hp).2.1]

/-- A path under a root ends with a slash and the path. -/
theorem exists_append_eq (hroot : root ≠ "") (hpath : isRooted path = false) :
    ∃ front, (append root path).toList = front ++ '/' :: path.toList := by
  have habsolute : isAbsolute path.toList = false := hpath
  have hne : root.toList ≠ [] := by simpa using hroot
  rw [append, String.toList_ofList, joinChars, if_neg (by simp [habsolute])]
  split
  · rename_i hlast
    have hslash : root.toList.getLast? = some '/' := by simpa [hne] using hlast
    obtain ⟨front, hfront⟩ := List.getLast?_eq_some_iff.1 hslash
    exact ⟨front, by rw [hfront, List.append_assoc, List.singleton_append]⟩
  · exact ⟨root.toList, rfl⟩

/-- A relative path stays relative below a relative one. -/
theorem isAbsolute_joinChars_eq_false {as bs : List Char} (has : isAbsolute as = false)
    (hbs : isAbsolute bs = false) : isAbsolute (joinChars as bs) = false := by
  rw [joinChars, if_neg (by simp [hbs])]
  rcases as with - | ⟨a, as⟩
  · exact hbs
  · split <;> exact has

/-- A path under a root has the parts of both, wherever the root is seen from. -/
theorem parts_joinChars_append (here : List Char) (hpath : isRooted path = false) :
    parts (joinChars here (append root path).toList) =
      parts (joinChars here root.toList) ++ parts path.toList := by
  have habsolute : isAbsolute path.toList = false := hpath
  rw [append, String.toList_ofList]
  by_cases hroot : isAbsolute root.toList = true
  · rw [joinChars_of_isAbsolute here (isAbsolute_joinChars hroot _),
      joinChars_of_isAbsolute here hroot, parts_joinChars _ habsolute]
  · rw [Bool.not_eq_true] at hroot
    rw [parts_joinChars _ (isAbsolute_joinChars_eq_false hroot habsolute),
      parts_joinChars _ habsolute, parts_joinChars _ hroot, List.append_assoc]

/-- A path under a root is seen from it as it is. -/
theorem below_append (here : String) (hroot : root ≠ "") (hpath : IsRelative path) :
    below here (some root) (append root path) = path := by
  have hne : append root path ≠ "" := by
    obtain ⟨front, hfront⟩ := exists_append_eq hroot hpath.isRooted
    intro hempty
    rw [hempty] at hfront
    simp at hfront
  have hway : absoluteParts here.toList (append root path).toList =
      absoluteParts here.toList root.toList ++ split '/' path.toList := by
    rw [absoluteParts, absoluteParts, parts_joinChars_append _ hpath.isRooted, hpath.parts_eq,
      normalParts_append, foldl_pushPart_of_ne fun p hp ↦ (hpath p hp).2.2, List.reverse_append,
      List.reverse_reverse, List.reverse_reverse]
  have hseen := SeenFrom.inside rfl hroot hne hway
  have hjoin := join_ne_nil (split_ne_nil '/' path.toList) fun p hp ↦ (hpath p hp).2.1
  rw [ofParts_eq (by simpa using hjoin), List.nil_append, join_split, String.ofList_toList] at hseen
  exact (seenFrom_iff.1 hseen).symm

/-- A file keeps the stem of its name under a root. -/
theorem stem_append (hroot : root ≠ "") (hpath : isRooted path = false) :
    stem (append root path) = stem path := by
  obtain ⟨front, hfront⟩ := exists_append_eq hroot hpath
  have hbase : baseChars (front ++ '/' :: path.toList) = baseChars path.toList := by
    have hreverse : (front ++ '/' :: path.toList).reverse =
        path.toList.reverse ++ '/' :: front.reverse := by simp
    have hcut := takeWhile_dropWhile_append_cons (p := (· != '/')) (c := '/') rfl
      path.toList.reverse front.reverse
    rw [baseChars, hreverse, hcut.1, baseChars]
  rw [stem, hfront, hbase, stem]

/-- Relative paths stay apart under a root. -/
theorem append_inj (hpath : isRooted path = false) (hother : isRooted other = false) :
    append root path = append root other ↔ path = other := by
  have hjoin {cs : List Char} (hcs : isAbsolute cs = false) : joinChars root.toList cs =
      if root.toList.isEmpty || root.toList.getLast? == some '/' then root.toList ++ cs
      else root.toList ++ '/' :: cs := by
    rw [joinChars, if_neg (by simp [hcs])]
  refine ⟨fun h ↦ ?_, congrArg _⟩
  have hchars : joinChars root.toList path.toList = joinChars root.toList other.toList := by
    simpa [append] using congrArg String.toList h
  rw [hjoin hpath, hjoin hother] at hchars
  rw [← String.toList_inj]
  split at hchars
  · exact List.append_cancel_left hchars
  · exact (List.cons.inj (List.append_cancel_left hchars)).2

end Path

/-! ### Placing files -/

/-- The analysis of a file that is placed under a root. -/
def FileAnalysis.placed (root : String) (a : FileAnalysis) : FileAnalysis :=
  { a with path := Path.append root a.path }

/-- The node of a file where all files are placed under a root. -/
def ImportNode.placed (root : String) (n : ImportNode) : ImportNode where
  calls := n.calls.map (Path.append root)
  calledBy := n.calledBy.map (Path.append root)

/-- The graph of files that are placed under a root. -/
def ImportGraph.placed (root : String) (graph : ImportGraph) : ImportGraph :=
  graph.map fun p ↦ (Path.append root p.1, p.2.placed root)

/-- A file that is placed under a root, and with it those that it names. -/
def EnrichedFile.placed (root : String) (f : EnrichedFile) : EnrichedFile :=
  { f with
    analysis := f.analysis.placed root
    related := f.related.map fun c ↦ { c with file := Path.append root c.file }
    node := f.node.placed root }

/-- The entry of a file that is placed under a root. -/
def DeadCodeEntry.placed (root : String) (e : DeadCodeEntry) : DeadCodeEntry :=
  { e with path := Path.append root e.path }

/-- A feature whose files are placed under a root. -/
def Feature.placed (root : String) (f : Feature) : Feature :=
  { f with files := f.files.map (Path.append root) }

variable (here : String) {root : String}

/-! ### Dead code -/

section DeadCode

variable {graph : ImportGraph}

/-- The node of a file is found under its path below the root, with all paths of the node below the
root. -/
theorem ImportGraph.lookup_placed (hgraph : ∀ p ∈ Assoc.keys graph, Path.IsRelative p)
    {path : String} (hpath : Path.IsRelative path) :
    (graph.placed root).lookup (Path.append root path) =
      (graph.lookup path).map (ImportNode.placed root) := by
  induction graph with
  | nil => rfl
  | cons p graph ih =>
    obtain ⟨hp, hgraph⟩ := List.forall_mem_cons.1 hgraph
    have hkey : (Path.append root path == Path.append root p.1) = (path == p.1) := by
      rw [Bool.eq_iff_iff, beq_iff_eq, beq_iff_eq, Path.append_inj hpath.isRooted hp.isRooted]
    show List.lookup _
      ((Path.append root p.1, p.2.placed root) :: ImportGraph.placed root graph) = _
    rw [List.lookup_cons, List.lookup_cons, hkey, ih hgraph]
    cases path == p.1 <;> rfl

/-- A file is dead under a root exactly if it is dead without one: its path is seen from the root,
and its node has as many edges. -/
theorem DeadCode.isDead_placed (hroot : root ≠ "")
    (hgraph : ∀ p ∈ Assoc.keys graph, Path.IsRelative p) {a : FileAnalysis}
    (ha : Path.IsRelative a.path) (includeTests : Bool) (entryPoints : List String) :
    isDead here (graph.placed root) (some root) includeTests entryPoints (a.placed root) =
      isDead "/" graph none includeTests entryPoints a := by
  have hlookup : (graph.placed root).lookup (a.placed root).path =
      (graph.lookup a.path).map (ImportNode.placed root) := ImportGraph.lookup_placed hgraph ha
  have hentry : isEntryPoint entryPoints (a.placed root).path = isEntryPoint entryPoints a.path :=
    congrArg entryPoints.contains (Path.stem_append hroot ha.isRooted)
  have hbelow : Path.below here (some root) (a.placed root).path = Path.below "/" none a.path :=
    Path.below_append here hroot ha
  rw [isDead, isDead, hlookup, hentry, hbelow]
  cases graph.lookup a.path with
  | none => rfl
  | some node =>
    simp [ImportNode.placed, FileAnalysis.placed]

/-- So the same files are listed as dead. -/
theorem DeadCode.entries_placed (hroot : root ≠ "")
    (hgraph : ∀ p ∈ Assoc.keys graph, Path.IsRelative p) {analyses : List FileAnalysis}
    (hanalyses : ∀ a ∈ analyses, Path.IsRelative a.path) (includeTests : Bool)
    (entryPoints : List String) :
    entries here (graph.placed root) (some root) includeTests entryPoints
        (analyses.map (FileAnalysis.placed root)) =
      (entries "/" graph none includeTests entryPoints analyses).map
        (DeadCodeEntry.placed root) := by
  rw [entries, entries, List.filter_map, List.map_map, List.map_map]
  refine congrArg _ (List.filter_congr fun a ha ↦ ?_)
  exact isDead_placed here hroot hgraph (hanalyses a ha) includeTests entryPoints

end DeadCode

/-! ### Categories -/

/-- A file is in the same category under every root. -/
theorem Category.ofFile_placed (hroot : root ≠ "") {f : EnrichedFile}
    (hf : Path.IsRelative f.path) :
    ofFile here (some root) (f.placed root) = ofFile "/" none f := by
  have hbelow : Path.below here (some root) (f.placed root).path = Path.below "/" none f.path :=
    Path.below_append here hroot hf
  have hdependents : (f.placed root).dependents = f.dependents := List.length_map ..
  rw [ofFile, ofFile, hbelow, hdependents]

/-- So each category has the same files. -/
theorem Category.filesIn_placed (hroot : root ≠ "") {files : List EnrichedFile}
    (hfiles : ∀ f ∈ files, Path.IsRelative f.path) (c : Category) :
    filesIn here c (some root) (files.map (EnrichedFile.placed root)) =
      (filesIn "/" c none files).map (EnrichedFile.placed root) := by
  rw [filesIn_eq_filter, filesIn_eq_filter, List.filter_map]
  refine congrArg _ (List.filter_congr fun f hf ↦ ?_)
  exact congrArg (· == c) (ofFile_placed here hroot (hfiles f hf))

/-! ### Features -/

/-- A file belongs to the same feature under every root. -/
theorem Feature.nameOf?_append (hroot : root ≠ "") {path : String}
    (hpath : Path.IsRelative path) :
    nameOf? here (some root) (Path.append root path) = nameOf? "/" none path := by
  have hbelow : Path.below here (some root) (Path.append root path) = Path.below "/" none path :=
    Path.below_append here hroot hpath
  rw [nameOf?, directories, hbelow, nameOf?, directories]

/-- Placing a path and putting it among those of its feature can change places. -/
theorem Feature.insert_append (hroot : root ≠ "") {path : String} (hpath : Path.IsRelative path)
    (groups : List (String × List String)) :
    insert here (some root) (Assoc.mapValues (List.map (Path.append root)) groups)
        (Path.append root path) =
      Assoc.mapValues (List.map (Path.append root)) (insert "/" none groups path) := by
  rw [insert, insert, nameOf?_append here hroot hpath]
  cases nameOf? "/" none path with
  | none => rfl
  | some name =>
    refine Assoc.modify_mapValues (fun old ↦ ?_) name groups
    cases old <;> simp

/-- Files gather in the same features, one after the other. -/
theorem Feature.foldl_insert_append (hroot : root ≠ "") {paths : List String}
    (hpaths : ∀ p ∈ paths, Path.IsRelative p) (groups : List (String × List String)) :
    (paths.map (Path.append root)).foldl (insert here (some root))
        (Assoc.mapValues (List.map (Path.append root)) groups) =
      Assoc.mapValues (List.map (Path.append root)) (paths.foldl (insert "/" none) groups) := by
  induction paths generalizing groups with
  | nil => rfl
  | cons path paths ih =>
    obtain ⟨hpath, hpaths⟩ := List.forall_mem_cons.1 hpaths
    rw [List.map_cons, List.foldl_cons, List.foldl_cons, insert_append here hroot hpath, ih hpaths]

/-- So the same features are found, with the same files. -/
theorem Feature.ofFiles_placed (hroot : root ≠ "") {files : List EnrichedFile}
    (hfiles : ∀ f ∈ files, Path.IsRelative f.path) :
    ofFiles here (some root) (files.map (EnrichedFile.placed root)) =
      (ofFiles "/" none files).map (Feature.placed root) := by
  have hpaths : ∀ p ∈ files.map EnrichedFile.path, Path.IsRelative p := by simpa using hfiles
  have hplaced : (files.map (EnrichedFile.placed root)).map EnrichedFile.path =
      (files.map EnrichedFile.path).map (Path.append root) := by
    rw [List.map_map, List.map_map]
    rfl
  have hfold := foldl_insert_append here hroot hpaths []
  have hempty : Assoc.mapValues (List.map (Path.append root)) ([] : List (String × List String)) =
      [] := rfl
  rw [hempty] at hfold
  rw [ofFiles, ofFiles, hplaced, hfold, Assoc.mapValues, List.map_map, List.map_map]
  rfl

/-! ### All together -/

/-- What is said of files as a whole: which may be dead, and how they are grouped. -/
structure Insights where
  dead : List DeadCodeEntry
  filesIn : Category → List EnrichedFile
  features : List Feature

namespace Insights

/-- What is said of files with a graph and, perhaps, a root, where paths are seen from the current
directory `here`. -/
def ofFiles (here : String) (root : Option String) (graph : ImportGraph) (includeTests : Bool)
    (entryPoints : List String) (files : List EnrichedFile) : Insights where
  dead :=
    DeadCode.entries here graph root includeTests entryPoints (files.map EnrichedFile.analysis)
  filesIn c := Category.filesIn here c root files
  features := Feature.ofFiles here root files

/-- The same said of files that are placed under a root. -/
def placed (root : String) (i : Insights) : Insights where
  dead := i.dead.map (DeadCodeEntry.placed root)
  filesIn c := (i.filesIn c).map (EnrichedFile.placed root)
  features := i.features.map (Feature.placed root)

/-- **Relocation.** What is said of files that are given by relative paths is the same under all
roots, with the root in front of the paths, whatever the current directory is. So what stands above
a root does not count. -/
theorem relocation_invariant {files : List EnrichedFile} {graph : ImportGraph}
    (hfiles : ∀ f ∈ files, Path.IsRelative f.path)
    (hgraph : ∀ p ∈ Assoc.keys graph, Path.IsRelative p) (includeTests : Bool)
    (entryPoints : List String) :
    ∃ said : Insights, ∀ here, ∀ root ≠ "",
      ofFiles here (some root) (graph.placed root) includeTests entryPoints
        (files.map (EnrichedFile.placed root)) = said.placed root := by
  refine ⟨ofFiles "/" none graph includeTests entryPoints files, fun here root hroot ↦ ?_⟩
  have hanalyses : ∀ a ∈ files.map EnrichedFile.analysis, Path.IsRelative a.path := by
    rw [List.forall_mem_map]
    exact hfiles
  have hplaced : (files.map (EnrichedFile.placed root)).map EnrichedFile.analysis =
      (files.map EnrichedFile.analysis).map (FileAnalysis.placed root) := by
    rw [List.map_map, List.map_map]
    rfl
  have hdead := DeadCode.entries_placed here hroot hgraph hanalyses includeTests entryPoints
  rw [← hplaced] at hdead
  have hfilesIn := Category.filesIn_placed here hroot hfiles
  rw [ofFiles, placed, hdead, Feature.ofFiles_placed here hroot hfiles]
  simp only [hfilesIn]
  rfl

/-- Two roots whose names would make all files tests, or all of one feature, if they counted. -/
theorem relocation_invariant_of_four_files :
    let files : List EnrichedFile := ["Auth/login.js", "src/auth/util.js", "a.spec.js", "b.js"].map
      fun p ↦ { analysis := { path := p, exports := ["run"] } }
    let graph : ImportGraph := [("Auth/login.js", {}), ("src/auth/util.js", {}), ("a.spec.js", {}),
      ("b.js", { calledBy := ["a.spec.js"] })]
    (∀ f ∈ files, Path.IsRelative f.path) ∧ (∀ p ∈ Assoc.keys graph, Path.IsRelative p) ∧
      ∃ said : Insights,
        (∀ here, ∀ root ≠ "", ofFiles here (some root) (graph.placed root) false ["main"]
          (files.map (EnrichedFile.placed root)) = said.placed root) ∧
        (said.placed "/").dead.map DeadCodeEntry.path = ["/Auth/login.js", "/src/auth/util.js"] ∧
        (said.placed "/tests/spec").features =
          [⟨"Auth", ["/tests/spec/Auth/login.js"]⟩,
            ⟨"auth", ["/tests/spec/src/auth/util.js"]⟩] := by
  intro files graph
  have hfiles : ∀ f ∈ files, Path.IsRelative f.path := by decide +kernel
  have hgraph : ∀ p ∈ Assoc.keys graph, Path.IsRelative p := by decide +kernel
  obtain ⟨said, hsaid⟩ := relocation_invariant hfiles hgraph false ["main"]
  refine ⟨hfiles, hgraph, said, hsaid, ?_, ?_⟩
  · rw [← hsaid "/" "/" (by decide)]
    decide +kernel
  · rw [← hsaid "/" "/tests/spec" (by decide)]
    decide +kernel

end Insights

end RepoSurvey
