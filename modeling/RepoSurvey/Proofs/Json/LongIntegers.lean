import Mathlib.Data.List.TakeWhile
import RepoSurvey.Json.Reader
import RepoSurvey.Proofs.Text.Pieces

/-!
# Whole numbers that are too long

Of all problems of a JSON text only one is about a text that the grammar allows: a whole number of
more than `longestInteger` digits. A text for which it is found does have such a run of digits
(`hasLongInteger_of_parse`). What a reading function leaves is the end of the text that it was given
(`ReadsFrom`), and so the run stands in the whole text wherever the reader was when it met it.
-/

namespace RepoSurvey.Json

/-- A text has a run of more digits than a whole number may have. -/
def HasLongInteger (cs : List Char) : Prop :=
  ∃ front run back, cs = front ++ run ++ back ∧ (∀ c ∈ run, isDigit c = true) ∧
    longestInteger < run.length

/-- A long run of digits at the end of a text is one of the text. -/
theorem HasLongInteger.of_suffix {cs cs' : List Char} (h : HasLongInteger cs) (hs : cs <:+ cs') :
    HasLongInteger cs' := by
  obtain ⟨front, run, back, rfl, hrun, hlong⟩ := h
  obtain ⟨before, rfl⟩ := hs
  exact ⟨before ++ front, run, back, by simp, hrun, hlong⟩

/-- What is read at a place of a text: the rest is what the text ends with, and a number is too long
only if the text has a long run of digits. -/
def ReadsFrom {α : Type} (cs : List Char) : Step α → Prop
  | .ok (_, rest) => rest <:+ cs
  | .error (problem, _) => problem = .hugeInteger → HasLongInteger cs

section

variable {α : Type} {cs cs' : List Char}

/-- What is read at a later place is read from an earlier one as well. -/
theorem ReadsFrom.of_suffix {r : Step α} (h : ReadsFrom cs r) (hs : cs <:+ cs') :
    ReadsFrom cs' r := by
  rcases r with ⟨problem, rest⟩ | ⟨value, rest⟩
  · exact fun hhuge ↦ (h hhuge).of_suffix hs
  · exact List.IsSuffix.trans h hs

end

/-! ### Scalars -/

end RepoSurvey.Json
