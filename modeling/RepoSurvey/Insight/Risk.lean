import RepoSurvey.Survey.EnrichedFile

/-!
# Risk

How risky it is to change a file: points for its complexity, its length, how often it changes, how
many people change it and how many files depend on it. Each of the five has bands, and the first
band whose limit is exceeded gives its points.
-/

namespace RepoSurvey

namespace Risk

/-- The points of the first band whose limit the value exceeds. -/
def points {α : Type} [LT α] [DecidableLT α] (bands : List (α × Nat)) (value : α) : Nat :=
  match bands.find? fun band ↦ band.1 < value with
  | some band => band.2
  | none => 0

/-- Bands of the cyclomatic complexity. -/
def complexityBands : List (Nat × Nat) := [(20, 3), (10, 2), (5, 1)]

/-- Bands of the number of lines. -/
def lineBands : List (Nat × Nat) := [(500, 3), (300, 2), (150, 1)]

/-- Bands of the number of commits a day. -/
def frequencyBands : List (Float × Nat) := [(0.5, 3), (0.2, 2), (0.1, 1)]

/-- Bands of the number of contributors. -/
def contributorBands : List (Nat × Nat) := [(10, 2), (5, 1)]

/-- Bands of the number of dependent files. -/
def dependentBands : List (Nat × Nat) := [(10, 3), (5, 2), (2, 1)]

/-- The score of a file. -/
def score (f : EnrichedFile) : Nat :=
  points complexityBands f.analysis.complexity + points lineBands f.analysis.lines +
    points frequencyBands f.frequency + points contributorBands f.ownership.contributors.length +
    points dependentBands f.dependents

/-- The least score that counts as risky. -/
def usualThreshold : Int := 5

/-- The score from which a file is critical. -/
def criticalScore : Nat := 10

end Risk

/-- A file with its risk score. -/
structure RiskyFile where
  file : EnrichedFile
  score : Nat

namespace Risk

/-- The files whose score reaches the threshold, higher scores first. -/
def rank (threshold : Int) (files : List EnrichedFile) : List RiskyFile :=
  ((files.map fun f ↦ ⟨f, score f⟩ : List RiskyFile).filter fun r ↦
    decide (threshold ≤ r.score)).mergeSort fun a b ↦ b.score ≤ a.score

end Risk

end RepoSurvey
