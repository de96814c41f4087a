import RepoSurvey.Code.Patterns
import RepoSurvey.Proofs.Extraction
import RepoSurvey.Proofs.Text.Matching

/-!
# What the tables of patterns find

The names of a bucket are what its patterns find, pattern by pattern, each name where it is first
found; the texts in blocks of imports come behind the other imports (`get_extract`).
-/

namespace RepoSurvey.Code

open RepoSurvey.Text RepoSurvey.Text.Pattern

/-! ### Classes of characters -/

/-- A blank is no part of a path. -/
theorem isPathPart_eq_false_of_isBlank {c : Char} (h : isBlank c = true) :
    isPathPart c = false := by
  have hpoint : c ≠ '.' := by
    rintro rfl
    exact absurd h (by decide)
  simp [isPathPart, isWord_eq_false_of_isBlank h, hpoint]

/-- A part of a path is no blank. -/
theorem isBlank_eq_false_of_isPathPart {c : Char} (h : isPathPart c = true) :
    isBlank c = false := by
  by_contra hblank
  rw [isPathPart_eq_false_of_isBlank (by simpa using hblank)] at h
  exact Bool.false_ne_true h

theorem isPathPart_of_isWord {c : Char} (h : isWord c = true) : isPathPart c = true := by
  simp [isPathPart, h]

theorem isBlank_eq_false_of_isWord {c : Char} (h : isWord c = true) : isBlank c = false :=
  isBlank_eq_false_of_isPathPart (isPathPart_of_isWord h)

/-! ### The word `import` -/

theorem isWord_import : ∀ c ∈ "import".toList, isWord c = true := List.all_eq_true.1 (by decide)

theorem isBlank_head_import : ∀ c ∈ "import".toList.head?, isBlank c = false := fun c hc ↦
  isBlank_eq_false_of_isWord (isWord_import c (List.mem_of_head? hc))

theorem shuns_import (tail : Pattern) : Shuns isBlank (literal "import".toList ++ tail) :=
  (shuns_literal (by decide) _).append tail

/-! ### Buckets -/

namespace PatternSet

/-- The names of a bucket: those that its patterns find and that are not reserved, and for imports
those in blocks behind them, each once and none empty. -/
theorem get_extract (ps : PatternSet) (text : String) (b : Bucket) :
    (ps.extract text).get b =
      Assoc.distinct ((((ps.names b text.toList).filter fun n ↦ !ps.reserved.contains n) ++
        if b = .imports then ps.groupedNames text.toList else []).filter (· ≠ "")) := by
  have hbuckets : Extraction.namesFor b (Bucket.all.flatMap fun c ↦
      ((ps.names c text.toList).filter fun n ↦ !ps.reserved.contains n).map fun n ↦ (c, some n)) =
      (ps.names b text.toList).filter fun n ↦ !ps.reserved.contains n := by
    simp only [Bucket.all, List.flatMap_cons, List.flatMap_nil, Extraction.namesFor_append,
      Extraction.namesFor_map_some]
    cases b <;> simp [Extraction.namesFor]
  rw [extract, Extraction.get_ofFindings, findings, Extraction.namesFor_append, hbuckets,
    Extraction.namesFor_map_some]
  simp only [eq_comm]

end PatternSet

end RepoSurvey.Code
