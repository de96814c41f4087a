import RepoSurvey.Proofs.Code.Comments
import RepoSurvey.Proofs.Extraction

/-!
# Where imports come from

An import is named by a declaration (`Declares`): an import statement, a require clause or a
re-export; or by the argument of a call (`Calls`). A declaration is type-only if it carries the
token `type`, or stands below an import statement that carries it (`IsTypeOnly`).

Every node is visited by itself (`mem_stackOrder_iff`), and a node does not see what stands above
it. So a type-only declaration is left out if the token is its own, and overlooked if it stands
above (`IsOverlooked`). Apart from that the imports are exactly what calls and declarations name
that are not type-only (`mem_imports_iff`).
-/

namespace RepoSurvey.Code

open Node

variable {source : List UInt8} {root n : Node} {above : List Node} {name : String}

/-! ### Places in a tree -/

/-- A node of a tree, with the nodes above it, nearest first. -/
inductive Stands (root : Node) : List Node → Node → Prop
  | root : Stands root [] root
  | child {above : List Node} {n c : Node} : Stands root above n → c ∈ n.children →
      Stands root (n :: above) c

/-- What stands below a child of a node stands below the node. -/
theorem Stands.of_child {c : Node} (h : Stands c above n) (hc : c ∈ root.children) :
    Stands root (above ++ [root]) n := by
  induction h with
  | root => exact .child .root hc
  | child _ hchild ih => exact .child ih hchild

/-- A node is the root, or stands below a child of the root. -/
theorem exists_stands_iff :
    (∃ above, Stands root above n) ↔
      n = root ∨ ∃ c ∈ root.children, ∃ above, Stands c above n := by
  constructor
  · rintro ⟨above, h⟩
    induction h with
    | root => exact Or.inl rfl
    | @child above n c _ hc ih =>
      rcases ih with rfl | ⟨d, hd, above, hn⟩
      · exact Or.inr ⟨c, hc, [], .root⟩
      · exact Or.inr ⟨d, hd, n :: above, .child hn hc⟩
  · rintro (rfl | ⟨c, hc, above, h⟩)
    · exact ⟨[], .root⟩
    · exact ⟨above ++ [root], h.of_child hc⟩

/-- Exactly the nodes of the trees on the stack are visited. -/
theorem mem_stackOrder_iff {ns : List Node} :
    n ∈ stackOrder ns ↔ ∃ root ∈ ns, ∃ above, Stands root above n := by
  induction ns using stackOrder.induct with
  | case1 => simp [stackOrder]
  | case2 root ns ih =>
    rw [stackOrder, List.mem_cons, ih, List.exists_mem_cons_iff, exists_stands_iff]
    simp only [List.mem_append, or_and_right, exists_or, or_assoc]

/-! ### What names an import -/

/-- The kinds of nodes that declare an import by their source. -/
def declaringKinds : List String :=
  ["import_statement", "import_require_clause", "export_statement"]

/-- A declaration, and the string that is its source. -/
def Declares (source : List UInt8) (n : Node) (name : String) : Prop :=
  n.kind ∈ declaringKinds ∧ (n.child? "source").bind (·.stringValue? source) = some name

/-- A call of `require` or `import`, and the string that is its first argument. -/
def Calls (source : List UInt8) (n : Node) (name : String) : Prop :=
  n.kind = "call_expression" ∧ importsByCall source n = true ∧
    ((n.child? "arguments").bind (·.namedChildren.head?)).bind (·.stringValue? source) = some name

/-- A declaration is type-only by a token of its own, or by that of an import statement above it. -/
def IsTypeOnly (above : List Node) (n : Node) : Prop :=
  n.hasToken "type" = true ∨ ∃ a ∈ above, a.kind = "import_statement" ∧ a.hasToken "type" = true

/-- The token is looked for at statements, and there only at the statement itself. -/
def IsOverlooked (n : Node) : Prop :=
  n.kind = "import_require_clause" ∨ n.hasToken "type" = false

/-! ### Findings -/

/-- Findings that are no imports. -/
def NoImports (fs : List Finding) : Prop := ∀ f ∈ fs, f.1 ≠ .imports

namespace NoImports

theorem append {fs gs : List Finding} (hfs : NoImports fs) (hgs : NoImports gs) :
    NoImports (fs ++ gs) :=
  List.forall_mem_append.2 ⟨hfs, hgs⟩

/-- Findings for another bucket are no imports. -/
theorem map {α : Type} {b : Bucket} (hb : b ≠ .imports) (f : α → Option String) (as : List α) :
    NoImports (as.map fun a ↦ (b, f a)) := by
  intro x hx
  obtain ⟨a, -, rfl⟩ := List.mem_map.1 hx
  exact hb

/-- A declaration that is exported imports nothing. -/
theorem declarationFindings (n : Node) : NoImports (n.declarationFindings source).1 := by
  rw [Node.declarationFindings]
  split_ifs
  · simp [NoImports]
  · simp [NoImports]
  · exact map (by decide) _ _
  · simp [NoImports]
  · simp [NoImports]
  · simp [NoImports]

/-- The star of an export is no import by itself. -/
theorem starFindings (n : Node) : NoImports (n.starFindings source) := by
  rw [Node.starFindings]
  split
  · simp [NoImports]
  · split <;> simp [NoImports]

/-- Names in an export clause are exported and not imported. -/
theorem clauseNames (n : Node) : NoImports (n.clauseNames source) := by
  intro f hf
  obtain ⟨clause, -, hf⟩ := List.mem_flatMap.1 hf
  exact map (by decide) _ _ f hf

/-- An assignment imports nothing. -/
theorem assignmentFindings (n : Node) : NoImports (n.assignmentFindings source) := by
  have hexports (names : List String) : NoImports (asExports names) := map (by decide) some names
  rw [Node.assignmentFindings]
  split
  · simp [NoImports]
  · split
    · exact hexports _
    · split
      · simp [NoImports]
      · split <;> simp [NoImports]

theorem not_mem {fs : List Finding} (h : NoImports fs) : (Bucket.imports, some name) ∉ fs :=
  fun hmem ↦ h _ hmem rfl

end NoImports

/-- A re-export comes first, and what follows are no imports. -/
theorem exists_exportFindings_eq (n : Node) : ∃ others, NoImports others ∧
    n.exportFindings source =
      (if n.hasToken "type" then [] else [n.sourceFinding source]) ++ others := by
  rw [exportFindings]
  split
  · exact ⟨_, .map (by decide) some _, rfl⟩
  · refine ⟨_, .append (.starFindings n) ?_, List.append_assoc _ _ _⟩
    split
    · refine List.forall_mem_cons.2 ⟨by decide, ?_⟩
      split
      · exact NoImports.declarationFindings _
      · exact List.forall_mem_nil _
    · refine .append ?_ (.clauseNames n)
      split
      · exact .append (.declarationFindings _) (.map (by decide) id _)
      · exact List.forall_mem_nil _

/-- A source is found as an import if it is a string. -/
theorem mem_sourceFinding_iff (n : Node) :
    (Bucket.imports, some name) ∈ [n.sourceFinding source] ↔
      (n.child? "source").bind (·.stringValue? source) = some name := by
  rw [List.mem_singleton, sourceFinding, Prod.mk.injEq, eq_comm (a := some name)]
  exact and_iff_right rfl

/-- The source of a statement with the token `type` is not found. -/
theorem mem_untyped_iff (n : Node) :
    (Bucket.imports, some name) ∈ (if n.hasToken "type" then [] else [n.sourceFinding source]) ↔
      (n.child? "source").bind (·.stringValue? source) = some name ∧
        n.hasToken "type" = false := by
  split
  · rename_i htype
    simp [htype]
  · rename_i htype
    rw [mem_sourceFinding_iff, and_iff_left (by simpa using htype)]

/-- A call adds the string that it imports. -/
theorem mem_callFindings_iff (n : Node) :
    (Bucket.imports, some name) ∈ n.callFindings source ↔
      importsByCall source n = true ∧
        ((n.child? "arguments").bind (·.namedChildren.head?)).bind (·.stringValue? source) =
          some name := by
  rw [callFindings, importsByCall]
  rcases n.child? "function" with - | callee
  · simp
  · simp only [Option.any_some]
    split
    · rename_i hcallee
      rw [hcallee, List.mem_singleton, Prod.mk.injEq, eq_comm (a := some name)]
      exact and_congr_left' (iff_of_true rfl rfl)
    · rename_i hcallee
      simp [hcallee]

/-- Nodes of other kinds add nothing to the imports. -/
theorem noImports_findings (hdeclares : n.kind ∉ declaringKinds)
    (hcall : n.kind ≠ "call_expression") : NoImports (n.findings source) := by
  simp only [declaringKinds, List.mem_cons, List.not_mem_nil, or_false, not_or] at hdeclares
  obtain ⟨hstatement, hclause, hexport⟩ := hdeclares
  rw [Node.findings]
  simp only [beq_iff_eq, hstatement, hclause, hexport, hcall, if_false]
  split_ifs
  · exact .assignmentFindings n
  all_goals simp [NoImports]

/-- What a node adds to the imports by itself. -/
theorem mem_findings_iff (n : Node) :
    (Bucket.imports, some name) ∈ n.findings source ↔
      Calls source n name ∨ Declares source n name ∧ IsOverlooked n := by
  by_cases hstatement : n.kind = "import_statement"
  · rw [Node.findings, if_pos (by simp [hstatement]), mem_untyped_iff]
    simp [Calls, Declares, IsOverlooked, declaringKinds, hstatement]
  by_cases hclause : n.kind = "import_require_clause"
  · rw [Node.findings, if_neg (by simp [hclause]), if_pos (by simp [hclause]),
      mem_sourceFinding_iff]
    simp [Calls, Declares, IsOverlooked, declaringKinds, hclause]
  by_cases hexport : n.kind = "export_statement"
  · obtain ⟨others, hothers, hfindings⟩ := @exists_exportFindings_eq source n
    have hexported : n.findings source = n.exportFindings source := by
      rw [Node.findings, hexport]
      rfl
    rw [hexported, hfindings, List.mem_append, or_iff_left hothers.not_mem, mem_untyped_iff]
    simp [Calls, Declares, IsOverlooked, declaringKinds, hexport]
  by_cases hcall : n.kind = "call_expression"
  · have hcalled : n.findings source = n.callFindings source := by
      rw [Node.findings, hcall]
      rfl
    rw [hcalled, mem_callFindings_iff]
    simp [Calls, Declares, declaringKinds, hcall]
  -- nodes of no other kind contribute imports
  · have hdeclares : n.kind ∉ declaringKinds := by
      simp [declaringKinds, hstatement, hclause, hexport]
    rw [iff_false_left (noImports_findings hdeclares hcall).not_mem]
    rintro (⟨hkind, -⟩ | ⟨⟨hkind, -⟩, -⟩)
    · exact hcall hkind
    · exact hdeclares hkind

/-! ### The imports of a tree -/

/-- A string is among the imports exactly if it is not empty and is named by a call, by a
declaration that is not type-only, or by a type-only one that is overlooked: a require clause, or a
declaration that has the token only above it. -/
theorem mem_imports_iff (source : List UInt8) (root : Node) (name : String) :
    name ∈ (extract source root).imports ↔ name ≠ "" ∧
      ((∃ above n, Stands root above n ∧
          (Calls source n name ∨ Declares source n name ∧ ¬IsTypeOnly above n)) ∨
        ∃ above n, Stands root above n ∧
          Declares source n name ∧ IsTypeOnly above n ∧ IsOverlooked n) := by
  have hheeded {above : List Node} {n : Node} (h : ¬IsTypeOnly above n) : IsOverlooked n := by
    rw [IsTypeOnly, not_or] at h
    exact Or.inr (by simpa using h.1)
  show name ∈ (Extraction.ofFindings _).get .imports ↔ _
  rw [Extraction.mem_get_ofFindings_iff, List.mem_flatMap]
  refine and_congr_right fun _ ↦ ?_
  simp only [mem_stackOrder_iff, List.mem_singleton, exists_eq_left, mem_findings_iff]
  constructor
  · rintro ⟨n, ⟨above, hn⟩, hcalls | ⟨hdeclares, hoverlooked⟩⟩
    · exact Or.inl ⟨above, n, hn, Or.inl hcalls⟩
    · by_cases htype : IsTypeOnly above n
      · exact Or.inr ⟨above, n, hn, hdeclares, htype, hoverlooked⟩
      · exact Or.inl ⟨above, n, hn, Or.inr ⟨hdeclares, htype⟩⟩
  · rintro (⟨above, n, hn, hcalls | ⟨hdeclares, htype⟩⟩ | ⟨above, n, hn, hdeclares, -, hoverlooked⟩)
    · exact ⟨n, ⟨above, hn⟩, Or.inl hcalls⟩
    · exact ⟨n, ⟨above, hn⟩, Or.inr ⟨hdeclares, hheeded htype⟩⟩
    · exact ⟨n, ⟨above, hn⟩, Or.inr ⟨hdeclares, hoverlooked⟩⟩

end RepoSurvey.Code
