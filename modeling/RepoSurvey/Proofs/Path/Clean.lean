import RepoSurvey.Proofs.Files.Components

/-!
# Clean paths stay as they are

A clean path has no component that leads nowhere, so nothing is left to drop (`clean_clean`). The
paths that a scan yields are clean (`clean_pathBelow`): what is found at such a path can be told by
it, and the path is not spelled in another way.
-/

namespace RepoSurvey.Path

open RepoSurvey.Text

theorem parts_ofParts (n : Nat) {ps : List (List Char)}
    (hps : ∀ p ∈ ps, '/' ∉ p ∧ isIdle p = false) :
    parts (ofParts (List.replicate n '/') ps) = ps := by
  obtain ⟨front, hfront, hsplit⟩ := split_ofParts n hps
  rw [parts, hsplit, List.filter_append, List.filter_eq_nil_iff.2 (by simpa using hfront),
    List.nil_append, List.filter_eq_self.2 fun p hp ↦ by simp [(hps p hp).2]]

/-- The mark at the front of a path is found again in front of what does not begin with a slash. -/
theorem rootMark_append (cs : List Char) {rest : List Char} (hrest : rest.head? ≠ some '/') :
    rootMark (rootMark cs ++ rest) = rootMark cs := by
  have hmark : rootMark cs = [] ∨ rootMark cs = ['/'] ∨ rootMark cs = ['/', '/'] := by
    unfold rootMark
    split <;> simp
  rcases rest with - | ⟨c, rest⟩
  · rcases hmark with h | h | h <;> rw [h] <;> rfl
  · have hc : c ≠ '/' := by simpa using hrest
    rcases hmark with h | h | h <;> rw [h] <;> simp [rootMark, hc]

theorem head?_join_ne {ps : List (List Char)} (hps : ∀ p ∈ ps, '/' ∉ p ∧ isIdle p = false) :
    (join ['/'] ps).head? ≠ some '/' := by
  rcases ps with - | ⟨p, ps⟩
  · simp [join]
  · obtain ⟨hslash, hidle⟩ := hps p List.mem_cons_self
    rcases p with - | ⟨c, p⟩
    · simp [isIdle] at hidle
    · have hc : c ≠ '/' := by
        rintro rfl
        exact hslash List.mem_cons_self
      rcases ps with - | ⟨q, ps⟩ <;> simpa [join] using hc

theorem cleanChars_cleanChars (cs : List Char) : cleanChars (cleanChars cs) = cleanChars cs := by
  have hparts : ∀ p ∈ parts cs, '/' ∉ p ∧ isIdle p = false := fun p hp ↦ not_mem_of_mem_parts hp
  obtain ⟨n, hn⟩ := exists_rootMark_eq cs
  have hsame : parts (cleanChars cs) = parts cs := by
    rw [cleanChars, hn]
    exact parts_ofParts n hparts
  have hmark : rootMark (cleanChars cs) = rootMark cs := by
    by_cases hempty : rootMark cs ++ join ['/'] (parts cs) = []
    · -- the clean path of nothing is a point
      obtain ⟨hnone, -⟩ := List.append_eq_nil_iff.1 hempty
      rw [cleanChars, ofParts, hempty, hnone]
      rfl
    · rw [cleanChars, ofParts_eq hempty]
      exact rootMark_append cs (head?_join_ne hparts)
  rw [cleanChars, hsame, hmark, cleanChars]

theorem clean_clean (s : String) : clean (clean s) = clean s := by
  rw [clean, clean, String.toList_ofList, cleanChars_cleanChars]

end RepoSurvey.Path

namespace RepoSurvey.Scan

theorem clean_pathBelow (directory : String) (path : List String) :
    Path.clean (pathBelow directory path) = pathBelow directory path :=
  Path.clean_clean _

end RepoSurvey.Scan
