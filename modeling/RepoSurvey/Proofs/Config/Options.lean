import RepoSurvey.Config.Options
import RepoSurvey.Proofs.Assoc

/-!
# The options in effect

A survey is made with the options that a caller asks for, after the configuration of the repository
has been applied to them. `InEffect` says of each option where its value comes from, and
`options_in_effect` that all of them come from there, whatever is asked for and whatever the
configuration says.

A value of the caller counts if it is not the usual one (`Prevails`); a usual value that is asked
for cannot be told from one that is not. Patterns of ignored files are taken from both sides. A
configuration finds nothing left to do where it has been applied (`Config.apply_apply`), since it
only sets what is still usual and adds only what is missing.
-/

namespace RepoSurvey

open RepoSurvey.Text

/-! ### Lists without repetitions -/

namespace Assoc

variable {α : Type} [BEq α] [LawfulBEq α] {as : List α}

/-- What is there already adds nothing. -/
theorem distinct_append_of_subset {bs : List α} (h : bs ⊆ as) :
    distinct (as ++ bs) = distinct as := by
  induction bs using List.reverseRecOn with
  | nil => rw [List.append_nil]
  | append_singleton bs b ih =>
    rw [List.append_subset, List.cons_subset] at h
    rw [← List.append_assoc, distinct_concat, if_pos (List.mem_append_left bs h.2.1), ih h.1]

/-- What has no repetitions stays in front of what is added. -/
theorem prefix_distinct_append (h : as.Nodup) (bs : List α) : as <+: distinct (as ++ bs) := by
  induction bs using List.reverseRecOn with
  | nil => simp [distinct_of_nodup h]
  | append_singleton bs b ih =>
    rw [← List.append_assoc, distinct_concat]
    split
    · exact ih
    · exact ih.trans (List.prefix_append _ _)

end Assoc

namespace Options

theorem nodup_union (first second : List String) : (union first second).Nodup :=
  Assoc.nodup_distinct _

theorem mem_union {first second : List String} {p : String} :
    p ∈ union first second ↔ p ∈ first ∨ p ∈ second := by
  rw [union, Assoc.mem_distinct, List.mem_append]

theorem prefix_union {first : List String} (h : first.Nodup) (second : List String) :
    first <+: union first second :=
  Assoc.prefix_distinct_append h second

/-- To add the same patterns again adds nothing. -/
theorem union_union (first second : List String) :
    union (union first second) second = union first second := by
  have hsubset : second ⊆ union first second := fun p hp ↦ mem_union.2 (.inr hp)
  rw [union, Assoc.distinct_append_of_subset hsubset]
  exact Assoc.distinct_of_nodup (nodup_union first second)

/-! ### Patterns of a caller -/

/-- How a caller gives patterns of ignored files. -/
inductive Given where
  | nothing
  /-- Patterns between commas. -/
  | text (patterns : String)
  | list (patterns : List String)

namespace Given

/-- The patterns as they are written. -/
def written : Given → List String
  | .nothing => []
  | .text patterns => splitString ',' patterns
  | .list patterns => patterns

/-- All patterns of ignored files, with those that are given. -/
def ignore : Given → List String
  | .nothing => usual.ignore
  | .text patterns => ignoreText patterns
  | .list patterns => ignorePatterns patterns

end Given

/-- Patterns that are given come behind the usual ones, without blanks and without empty ones. -/
theorem ignorePatterns_eq (given : List String) :
    ignorePatterns given = union usual.ignore ((given.map strip).filter (· != "")) := by
  cases given with
  | nil => rfl
  | cons p given => rfl

/-- A text stands for the patterns between its commas. -/
theorem ignoreText_eq (given : String) :
    ignoreText given = ignorePatterns (splitString ',' given) := by
  unfold ignoreText
  split
  · rename_i hempty
    rw [hempty, ignorePatterns_eq]
    decide
  · rfl

/-- However patterns are given, they come behind the usual ones. -/
theorem Given.ignore_eq (given : Given) :
    given.ignore = union usual.ignore ((given.written.map strip).filter (· != "")) := by
  cases given with
  | nothing => rfl
  | text patterns => exact (ignoreText_eq patterns).trans (ignorePatterns_eq _)
  | list patterns => exact ignorePatterns_eq patterns

/-- A pattern is ignored if it is one of the usual ones or is given, but for blanks. -/
theorem Given.mem_ignore (given : Given) (p : String) : p ∈ given.ignore ↔
    p ∈ usual.ignore ∨ ∃ w ∈ given.written, strip w = p ∧ p ≠ "" := by
  rw [given.ignore_eq, mem_union, List.mem_filter, List.mem_map, bne_iff_ne]
  refine or_congr_right ⟨?_, ?_⟩
  · rintro ⟨⟨w, hw, hstrip⟩, hne⟩
    exact ⟨w, hw, hstrip, hne⟩
  · rintro ⟨w, hw, hstrip, hne⟩
    exact ⟨⟨w, hw, hstrip⟩, hne⟩

/-! ### Whose value counts -/

/-- The value that is asked for counts if it is not the usual one, then the value in the file, then
the usual one. -/
def Prevails {α : Type} (usual asked : α) (file : Option α) (value : α) : Prop :=
  (asked ≠ usual ∧ value = asked) ∨ (asked = usual ∧ file = some value) ∨
    (asked = usual ∧ file = none ∧ value = usual)

/-- The choice between what is asked for and what a file says is made as it should be. -/
theorem prevails_choose {α : Type} [BEq α] [LawfulBEq α] (usual asked : α) (file : Option α) :
    Prevails usual asked file (Config.choose usual asked file) := by
  rw [Config.choose]
  split
  · rename_i hasked
    rw [beq_iff_eq] at hasked
    cases file with
    | none => exact .inr (.inr ⟨hasked, rfl, hasked⟩)
    | some value => exact .inr (.inl ⟨hasked, rfl⟩)
  · rename_i hasked
    exact .inl ⟨by simpa using hasked, rfl⟩

/-- Bounds hold for the value that counts if they hold wherever it may come from. -/
theorem Prevails.le {floor usual asked value : Int} {file : Option Int}
    (h : Prevails usual asked (file.map (max floor)) value) (husual : floor ≤ usual)
    (hasked : floor ≤ asked) : floor ≤ value := by
  rcases h with ⟨-, rfl⟩ | ⟨-, hfile⟩ | ⟨-, -, rfl⟩
  · exact hasked
  · obtain ⟨n, -, rfl⟩ := Option.map_eq_some_iff.1 hfile
    exact Int.le_max_left floor n
  · exact husual

/-- What the options of a survey are, by what a caller asks for and what the configuration says. -/
structure InEffect (given : Given) (r : Request) (c : Config) (o : Options) : Prop where
  one_le_concurrency : 1 ≤ o.concurrency
  relatedLimit_nonneg : 0 ≤ o.relatedLimit
  nodup_ignore : o.ignore.Nodup
  usual_prefix : usual.ignore <+: o.ignore
  mem_ignore : ∀ p, p ∈ o.ignore ↔
    p ∈ usual.ignore ∨ (∃ w ∈ given.written, strip w = p ∧ p ≠ "") ∨ p ∈ c.ignore
  includeTests : Prevails usual.includeTests r.includeTests c.includeTests o.includeTests
  includeRelated : Prevails usual.includeRelated (r.includeRelated.getD !r.skipRelated)
    c.includeRelated o.includeRelated
  /-- No caller asks for entry points, and a file without any says nothing about them. -/
  entryPoints : Prevails usual.entryPoints usual.entryPoints
    (if c.entryPoints = [] then none else some c.entryPoints) o.entryPoints
  /-- No caller asks for a limit. -/
  relatedLimit : Prevails usual.relatedLimit usual.relatedLimit (c.relatedLimit.map (max 0))
    o.relatedLimit
  concurrency : Prevails usual.concurrency (max 1 r.concurrency) (c.concurrency.map (max 1))
    o.concurrency

end Options

/-! ### Applying a configuration -/

namespace Config

/-- A choice that has been made is not made otherwise again. -/
theorem choose_choose {α : Type} [BEq α] (usual asked : α) (file : Option α) :
    choose usual (choose usual asked file) file = choose usual asked file := by
  unfold choose
  split
  · rename_i hasked
    cases file with
    | none =>
      rw [Option.getD_none, if_pos hasked]
      rfl
    | some value => simp
  · rfl

theorem ignore_apply (c : Config) (o : Options) : (c.apply o).ignore =
    if c.ignore.isEmpty then o.ignore else Options.union o.ignore c.ignore := rfl

/-- A configuration changes nothing where it has been applied. -/
theorem apply_apply (c : Config) (o : Options) : c.apply (c.apply o) = c.apply o := by
  have hignore : (c.apply (c.apply o)).ignore = (c.apply o).ignore := by
    rw [ignore_apply, ignore_apply]
    split
    · rfl
    · exact Options.union_union _ _
  unfold apply at hignore ⊢
  simp only [choose_choose, Options.mk.injEq, and_true]
  exact hignore

/-- A configuration that says nothing changes nothing. -/
theorem apply_of_silent (root : String) (o : Options) : Config.apply { root } o = o := by
  simp [Config.apply, Config.choose]

/-- What is ignored under a configuration is what the options ignore and what the configuration
does. -/
theorem mem_ignore_apply (c : Config) (o : Options) (p : String) :
    p ∈ (c.apply o).ignore ↔ p ∈ o.ignore ∨ p ∈ c.ignore := by
  rw [ignore_apply]
  split
  · rename_i hempty
    rw [List.isEmpty_iff.1 hempty]
    simp
  · exact Options.mem_union

/-- The patterns of a caller come first. -/
theorem nodup_and_prefix_apply (c : Config) {o : Options} (h : o.ignore.Nodup) :
    (c.apply o).ignore.Nodup ∧ o.ignore <+: (c.apply o).ignore := by
  rw [ignore_apply]
  split
  · exact ⟨h, List.prefix_rfl⟩
  · exact ⟨Options.nodup_union _ _, Options.prefix_union h _⟩

/-- Options that are asked for have a limit of related files that is not negative, under every
configuration. -/
theorem relatedLimit_apply_ofRequest (c : Config) (r : Options.Request) :
    0 ≤ (c.apply (Options.ofRequest r)).relatedLimit :=
  (Options.prevails_choose Options.usual.relatedLimit Options.usual.relatedLimit
    (c.relatedLimit.map (max 0))).le (by decide) (by decide)

open Options in
/-- **Each option in effect comes from where it should.** What a caller asks for and what the
configuration says make up the options of a survey as `InEffect` says, and applying the
configuration to any options a second time changes nothing. -/
theorem options_in_effect (given : Given) (r : Request) (c : Config) :
    InEffect given r c (c.apply (ofRequest { r with ignore := given.ignore })) ∧
      ∀ o, c.apply (c.apply o) = c.apply o := by
  have hgiven : given.ignore.Nodup := given.ignore_eq ▸ nodup_union _ _
  -- the usual patterns stand in front, before and after the file adds its own
  have husual : usual.ignore <+: given.ignore := given.ignore_eq ▸ prefix_union (by decide) _
  obtain ⟨hnodup, hprefix⟩ :=
    c.nodup_and_prefix_apply (o := ofRequest { r with ignore := given.ignore }) hgiven
  have hconcurrency := prevails_choose usual.concurrency (max 1 r.concurrency)
    (c.concurrency.map (max 1))
  refine ⟨?_, c.apply_apply⟩
  exact
    { one_le_concurrency := hconcurrency.le (by decide) (Int.le_max_left 1 _)
      relatedLimit_nonneg := c.relatedLimit_apply_ofRequest _
      nodup_ignore := hnodup
      usual_prefix := husual.trans hprefix
      mem_ignore := fun p ↦ by
        rw [mem_ignore_apply, ← or_assoc, ← given.mem_ignore]
        rfl
      includeTests := prevails_choose usual.includeTests r.includeTests c.includeTests
      includeRelated := prevails_choose usual.includeRelated (r.includeRelated.getD !r.skipRelated)
        c.includeRelated
      entryPoints := by
        simp only [← List.isEmpty_iff]
        exact prevails_choose usual.entryPoints usual.entryPoints _
      relatedLimit := prevails_choose usual.relatedLimit usual.relatedLimit _
      concurrency := hconcurrency }

end Config

end RepoSurvey
