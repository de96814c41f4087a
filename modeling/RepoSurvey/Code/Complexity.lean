import RepoSurvey.Text.Basic

/-!
# Textual complexity

The complexity of a text is one more than the number of places at which its control flow branches:
branching words, the operators `&&` and `||`, and question marks that choose between two values.
Strings and comments count like code.
-/

namespace RepoSurvey.Code

open RepoSurvey.Text

/-- The words at which control flow branches. -/
def branchingWords : List String :=
  ["if", "else", "for", "while", "switch", "case", "try", "catch"]

/-- Whether a whole word stands in front of a text that follows the character `before`. -/
def standsAt (word : List Char) (before : Option Char) (cs : List Char) : Bool :=
  !before.any isWord &&
    match dropFront? word cs with
    | some rest => !rest.head?.any isWord
    | none => false

/-- The number of times that a whole word occurs. -/
def countWord (word : List Char) : (before : Option Char) → List Char → Nat
  | _, [] => 0
  | before, c :: cs =>
    (if standsAt word before (c :: cs) then 1 else 0) + countWord word (some c) cs

/-- The number of times that a character occurs doubled; no occurrence counts for two pairs. -/
def countPairs (mark : Char) : List Char → Nat
  | c :: d :: cs =>
    if c = mark ∧ d = mark then 1 + countPairs mark cs else countPairs mark (d :: cs)
  | _ => 0

/-- The number of question marks that stand alone and have no point behind them. -/
def countChoices : (before : Option Char) → List Char → Nat
  | _, [] => 0
  | before, c :: cs =>
    (if c = '?' ∧ before ≠ some '?' ∧ cs.head? ≠ some '.' ∧ cs.head? ≠ some '?' then 1 else 0) +
      countChoices (some c) cs

/-- The number of branches in a text. -/
def branches (cs : List Char) : Nat :=
  (branchingWords.map fun w ↦ countWord w.toList none cs).foldl (· + ·) 0 +
    countPairs '&' cs + countPairs '|' cs + countChoices none cs

/-- The complexity of a text. -/
def complexity (text : String) : Nat := 1 + branches text.toList

end RepoSurvey.Code
