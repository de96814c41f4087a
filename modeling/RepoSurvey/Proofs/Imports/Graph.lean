import Mathlib.Data.List.Induction
import Mathlib.Data.Set.Function
import RepoSurvey.Imports.Graph
import RepoSurvey.Proofs.Assoc

/-!
# The edges of the import graph

`Imports.graph` reads the nodes off the list of edges. Two views of a graph say what it holds:
`Calls g a b` looks at the node of the importing file, `CalledBy g b a` at the node of the imported
one. Both come down to membership in `Imports.edges` (`calls_graph_iff`, `calledBy_graph_iff`), and
that to the imports of the records (`mem_edges_iff`).

* The same graph results when the edges are noted one after the other, each at both of its ends
  (`graph_eq_foldl_link`): self-imports, repeated imports and repeated records change nothing.
* An edge leads from an analysed path to an analysed path, since `known?` finds nothing else
  (`mem_of_known?`).
* Where no two analysed paths have one normal form, `known?` finds the only path there is
  (`known?_eq_some_iff`). The edges are then exactly the imports that resolve to the normal form of
  an analysed path, and depend on nothing but the pairs of a path and an import.
-/

namespace RepoSurvey.Imports

open RepoSurvey.Assoc

/-! ### Views of a graph -/

/-- The node of `a` says that `a` imports `b`. -/
def Calls (g : ImportGraph) (a b : String) : Prop := ∃ n, g.lookup a = some n ∧ b ∈ n.calls

/-- The node of `b` says that `a` imports `b`. -/
def CalledBy (g : ImportGraph) (b a : String) : Prop := ∃ n, g.lookup b = some n ∧ a ∈ n.calledBy

/-- A record of a path has an import. -/
def HasImport (analyses : List FileAnalysis) (path specifier : String) : Prop :=
  ∃ f ∈ analyses, f.path = path ∧ specifier ∈ f.imports

/-- The same paths are analysed, and with the same imports, in whatever order and however often. -/
structure SameImports (as bs : List FileAnalysis) : Prop where
  path_mem : ∀ p, p ∈ as.map FileAnalysis.path ↔ p ∈ bs.map FileAnalysis.path
  hasImport : ∀ p s, HasImport as p s ↔ HasImport bs p s

/-! ### What an import leads to -/

theorem mem_paths {analyses : List FileAnalysis} {p : String} :
    p ∈ paths analyses ↔ p ∈ analyses.map FileAnalysis.path :=
  mem_distinct

/-- The path that is meant is one of the paths, and has the normal form that was resolved. -/
theorem mem_of_known? {ps : List String} {resolved p : String}
    (h : known? ps resolved = some p) : p ∈ ps ∧ Path.normal p = resolved := by
  refine ⟨List.mem_reverse.1 (List.mem_of_find?_eq_some h), ?_⟩
  have := List.find?_some h
  exact beq_iff_eq.1 this

/-- Among paths of which no two have one normal form, the path that is meant is the one that has
it. -/
theorem known?_eq_some_iff {ps : List String} (hps : Set.InjOn Path.normal {p | p ∈ ps})
    {resolved p : String} : known? ps resolved = some p ↔ p ∈ ps ∧ Path.normal p = resolved := by
  refine ⟨mem_of_known?, fun ⟨hp, hnormal⟩ ↦ ?_⟩
  rcases hq : known? ps resolved with - | q
  · have hnone := List.find?_eq_none.1 hq p (List.mem_reverse.2 hp)
    exact absurd hnormal (by simpa using hnone)
  · obtain ⟨hqmem, hqnormal⟩ := mem_of_known? hq
    rw [hps hqmem hp (hqnormal.trans hnormal.symm)]

/-- An edge is an import that resolves to a path that is analysed. -/
theorem mem_edges_iff {r : Resolver} {analyses : List FileAnalysis} {a b : String} :
    (a, b) ∈ edges r analyses ↔
      ∃ s, HasImport analyses a s ∧ (r.resolve a s).bind (known? (paths analyses)) = some b := by
  simp only [edges, links, List.mem_filterMap, List.mem_flatMap, List.mem_map, HasImport]
  constructor
  · rintro ⟨⟨source, target⟩, ⟨f, hf, s, hs, heq⟩, htarget⟩
    obtain ⟨rfl, rfl⟩ := Prod.mk.inj heq
    obtain ⟨t, ht, heq⟩ := Option.map_eq_some_iff.1 htarget
    obtain ⟨rfl, rfl⟩ := Prod.mk.inj heq
    exact ⟨s, ⟨f, hf, rfl, hs⟩, ht⟩
  · rintro ⟨s, ⟨f, hf, rfl, hs⟩, ht⟩
    exact ⟨(f.path, some b), ⟨f, hf, s, hs, by rw [ht]⟩, rfl⟩

/-- An edge begins at a file that is analysed. -/
theorem source_mem_paths_of_mem_edges {r : Resolver} {analyses : List FileAnalysis}
    {a b : String} (h : (a, b) ∈ edges r analyses) : a ∈ paths analyses := by
  obtain ⟨s, ⟨f, hf, rfl, -⟩, -⟩ := mem_edges_iff.1 h
  exact mem_paths.2 (List.mem_map_of_mem hf)

/-- An edge ends at a file that is analysed. -/
theorem target_mem_paths_of_mem_edges {r : Resolver} {analyses : List FileAnalysis}
    {a b : String} (h : (a, b) ∈ edges r analyses) : b ∈ paths analyses := by
  obtain ⟨s, -, hb⟩ := mem_edges_iff.1 h
  obtain ⟨resolved, -, hknown⟩ := Option.bind_eq_some_iff.1 hb
  exact (mem_of_known? hknown).1

/-! ### Nodes -/

/-- A node says which files its own imports: those to which an edge leads from it. -/
theorem mem_calls_nodeOf {es : List (String × String)} {a b : String} :
    b ∈ (nodeOf es a).calls ↔ (a, b) ∈ es := by
  simp only [nodeOf, mem_distinct, List.mem_map, List.mem_filter, beq_iff_eq]
  constructor
  · rintro ⟨e, ⟨he, rfl⟩, rfl⟩
    exact he
  · intro h
    exact ⟨(a, b), ⟨h, rfl⟩, rfl⟩

/-- A node says by which files its own is imported: those from which an edge leads to it. -/
theorem mem_calledBy_nodeOf {es : List (String × String)} {a b : String} :
    a ∈ (nodeOf es b).calledBy ↔ (a, b) ∈ es := by
  simp only [nodeOf, mem_distinct, List.mem_map, List.mem_filter, beq_iff_eq]
  constructor
  · rintro ⟨e, ⟨he, rfl⟩, rfl⟩
    exact he
  · intro h
    exact ⟨(a, b), ⟨h, rfl⟩, rfl⟩

@[simp] theorem keys_graph (r : Resolver) (analyses : List FileAnalysis) :
    keys (graph r analyses) = paths analyses := by
  simp only [keys, graph, List.map_map, Function.comp_def, List.map_id']

/-- Each analysed path has its node, and no other path has one. -/
theorem lookup_graph_eq_some_iff {r : Resolver} {analyses : List FileAnalysis} {p : String}
    {n : ImportNode} : (graph r analyses).lookup p = some n ↔
      p ∈ paths analyses ∧ n = nodeOf (edges r analyses) p := by
  rw [lookup_eq_some_iff_mem (by rw [keys_graph]; exact nodup_distinct _)]
  simp only [graph, List.mem_map, Prod.mk.injEq]
  exact ⟨fun ⟨q, hq, hp, hn⟩ ↦ hp ▸ ⟨hq, hn.symm⟩, fun ⟨hp, hn⟩ ↦ ⟨p, hp, rfl, hn.symm⟩⟩

/-- Seen from the importing file, the graph holds the edges. -/
theorem calls_graph_iff {r : Resolver} {analyses : List FileAnalysis} {a b : String} :
    Calls (graph r analyses) a b ↔ (a, b) ∈ edges r analyses := by
  constructor
  · rintro ⟨n, hn, hb⟩
    rw [(lookup_graph_eq_some_iff.1 hn).2] at hb
    exact mem_calls_nodeOf.1 hb
  · intro h
    exact ⟨_, lookup_graph_eq_some_iff.2 ⟨source_mem_paths_of_mem_edges h, rfl⟩,
      mem_calls_nodeOf.2 h⟩

/-- Seen from the imported file, the graph holds the same edges. So it is symmetric. -/
theorem calledBy_graph_iff {r : Resolver} {analyses : List FileAnalysis} {a b : String} :
    CalledBy (graph r analyses) b a ↔ (a, b) ∈ edges r analyses := by
  constructor
  · rintro ⟨n, hn, ha⟩
    rw [(lookup_graph_eq_some_iff.1 hn).2] at ha
    exact mem_calledBy_nodeOf.1 ha
  · intro h
    exact ⟨_, lookup_graph_eq_some_iff.2 ⟨target_mem_paths_of_mem_edges h, rfl⟩,
      mem_calledBy_nodeOf.2 h⟩

/-! ### One edge after the other -/

/-- Puts a value behind those that are there, unless it is one of them. -/
def note (values : List String) (value : String) : List String :=
  if value ∈ values then values else values ++ [value]

/-- Notes an edge at both of its ends. -/
def link (g : ImportGraph) (e : String × String) : ImportGraph :=
  g.map fun (p, n) ↦ (p, {
    calls := if e.1 = p then note n.calls e.2 else n.calls
    calledBy := if e.2 = p then note n.calledBy e.1 else n.calledBy })

theorem distinct_concat_eq_note (values : List String) (value : String) :
    distinct (values ++ [value]) = note (distinct values) value := by
  simp only [distinct_concat, note, mem_distinct]

/-- One more edge is noted at the node where it begins, and at the one where it ends. -/
theorem nodeOf_concat (es : List (String × String)) (e : String × String) (p : String) :
    nodeOf (es ++ [e]) p =
      { calls := if e.1 = p then note (nodeOf es p).calls e.2 else (nodeOf es p).calls
        calledBy := if e.2 = p then note (nodeOf es p).calledBy e.1
          else (nodeOf es p).calledBy } := by
  simp only [nodeOf, List.filter_append, List.map_append, ImportNode.mk.injEq]
  constructor
  · by_cases h : e.1 = p <;> simp [h, distinct_concat_eq_note]
  · by_cases h : e.2 = p <;> simp [h, distinct_concat_eq_note]

/-- The graph is what comes of a graph without edges when each import that leads to an analysed
file is noted at both of its ends, one after the other. -/
theorem graph_eq_foldl_link (r : Resolver) (analyses : List FileAnalysis) :
    graph r analyses =
      (edges r analyses).foldl link ((paths analyses).map fun p ↦ (p, {})) := by
  have hfold (ps : List String) (es : List (String × String)) :
      es.foldl link (ps.map fun p ↦ (p, {})) = ps.map fun p ↦ (p, nodeOf es p) := by
    -- a fold notes the last edge last, so edges are taken off the end
    induction es using List.reverseRecOn with
    | nil => rfl
    | append_singleton es e ih =>
      rw [List.foldl_append, ih, List.foldl_cons, List.foldl_nil, link, List.map_map]
      exact List.map_congr_left fun p _ ↦ by rw [Function.comp_apply, nodeOf_concat]
  exact (hfold _ _).symm

/-! ### Exactness -/

/-- Where no two analysed paths have one normal form, the edges are the imports that resolve to the
normal form of an analysed path. -/
theorem calls_graph_iff_resolve {r : Resolver} {analyses : List FileAnalysis}
    (hnormal : Set.InjOn Path.normal {p | p ∈ analyses.map FileAnalysis.path}) {a b : String} :
    Calls (graph r analyses) a b ↔
      b ∈ analyses.map FileAnalysis.path ∧
        ∃ s, HasImport analyses a s ∧ r.resolve a s = some (Path.normal b) := by
  have hpaths : Set.InjOn Path.normal {p | p ∈ paths analyses} := by
    simpa only [mem_paths] using hnormal
  rw [calls_graph_iff, mem_edges_iff]
  simp only [Option.bind_eq_some_iff, known?_eq_some_iff hpaths, mem_paths]
  constructor
  · rintro ⟨s, himport, resolved, hresolve, hb, rfl⟩
    exact ⟨hb, s, himport, hresolve⟩
  · rintro ⟨hb, s, himport, hresolve⟩
    exact ⟨s, himport, _, hresolve, hb, rfl⟩

/-- Files with the same imports have the same edges, in whatever order they come. -/
theorem calls_graph_congr {r : Resolver} {as bs : List FileAnalysis} (h : SameImports as bs)
    (hnormal : Set.InjOn Path.normal {p | p ∈ as.map FileAnalysis.path}) {a b : String} :
    Calls (graph r as) a b ↔ Calls (graph r bs) a b := by
  have hnormal' : Set.InjOn Path.normal {p | p ∈ bs.map FileAnalysis.path} := by
    simpa only [h.path_mem] using hnormal
  rw [calls_graph_iff_resolve hnormal, calls_graph_iff_resolve hnormal', h.path_mem]
  simp only [h.hasImport]

/-- **Exact and symmetric edges.** The graph has a node for each analysed path, in the order in
which the paths first occur, and edges only between those; importing and being imported agree.

Where no two analysed paths have one normal form, the edges are exactly the imports that resolve to
the normal form of an analysed path. So neither the order of the records nor that of their imports
matters, nor how often either is repeated. -/
theorem graph_edges_exact (r : Resolver) (analyses : List FileAnalysis) :
    IsFirstOccurrences (analyses.map FileAnalysis.path) (keys (graph r analyses)) ∧
    (∀ a b, Calls (graph r analyses) a b ∨ CalledBy (graph r analyses) b a →
      a ∈ keys (graph r analyses) ∧ b ∈ keys (graph r analyses)) ∧
    (∀ a b, Calls (graph r analyses) a b ↔ CalledBy (graph r analyses) b a) ∧
    graph r analyses = (edges r analyses).foldl link ((paths analyses).map fun p ↦ (p, {})) ∧
    (Set.InjOn Path.normal {p | p ∈ analyses.map FileAnalysis.path} →
      (∀ a b, Calls (graph r analyses) a b ↔
        b ∈ analyses.map FileAnalysis.path ∧
          ∃ f ∈ analyses, f.path = a ∧
            ∃ s ∈ f.imports, r.resolve a s = some (Path.normal b)) ∧
      ∀ others, SameImports analyses others →
        ∀ a b, Calls (graph r analyses) a b ↔ Calls (graph r others) a b) := by
  refine ⟨?_, ?_, fun a b ↦ calls_graph_iff.trans calledBy_graph_iff.symm,
    graph_eq_foldl_link r analyses, fun hnormal ↦ ⟨fun a b ↦ ?_, fun others h a b ↦
      calls_graph_congr h hnormal⟩⟩
  · rw [keys_graph]
    exact isFirstOccurrences_distinct _
  · intro a b h
    have hedge : (a, b) ∈ edges r analyses := h.elim calls_graph_iff.1 calledBy_graph_iff.1
    rw [keys_graph]
    exact ⟨source_mem_paths_of_mem_edges hedge, target_mem_paths_of_mem_edges hedge⟩
  · rw [calls_graph_iff_resolve hnormal]
    refine and_congr_right fun _ ↦ ⟨?_, ?_⟩
    · rintro ⟨s, ⟨f, hf, hpath, hs⟩, hresolve⟩
      exact ⟨f, hf, hpath, s, hs, hresolve⟩
    · rintro ⟨f, hf, hpath, s, hs, hresolve⟩
      exact ⟨s, ⟨f, hf, hpath, hs⟩, hresolve⟩

/-- Two files of which one also imports itself, and the other twice. -/
theorem graph_edges_exact_of_two_files :
    let files : List FileAnalysis :=
      [{ path := "/r/a.js", imports := ["./b", "./b", "./a", "react"] },
        { path := "/r/b.js", imports := ["./a.js"] }]
    let r : Resolver := { hasFile := ["/r/a.js", "/r/b.js"].contains }
    Set.InjOn Path.normal {p | p ∈ files.map FileAnalysis.path} ∧
      SameImports files files.reverse ∧
      Calls (graph r files) "/r/a.js" "/r/a.js" ∧
      Calls (graph r files.reverse) "/r/a.js" "/r/b.js" := by
  intro files r
  have hnormal : Set.InjOn Path.normal {p | p ∈ files.map FileAnalysis.path} := by
    have ha : Path.normal "/r/a.js" = "/r/a.js" := by decide
    have hb : Path.normal "/r/b.js" = "/r/b.js" := by decide
    intro p hp q hq h
    simp only [files, List.map_cons, List.map_nil, List.mem_cons, List.not_mem_nil, or_false,
      Set.mem_ofPred_eq] at hp hq
    rcases hp with rfl | rfl <;> rcases hq with rfl | rfl <;> simp_all
  have hsame : SameImports files files.reverse := ⟨fun p ↦ by simp, fun p s ↦ by simp [HasImport]⟩
  obtain ⟨hcalls, hcongr⟩ := (graph_edges_exact r files).2.2.2.2 hnormal
  refine ⟨hnormal, hsame, (hcalls _ _).2 ⟨?_, _, List.mem_cons_self, rfl, "./a", ?_, ?_⟩,
    (hcongr _ hsame _ _).1 ((hcalls _ _).2 ⟨?_, _, List.mem_cons_self, rfl, "./b", ?_, ?_⟩)⟩
  · simp [files]
  · simp
  · decide +kernel
  · simp [files]
  · simp
  · decide +kernel

end RepoSurvey.Imports
