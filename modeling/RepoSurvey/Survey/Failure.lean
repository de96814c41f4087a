/-!
# Failures

What a failure means to those who have asked for a survey, whatever has failed: the repository is
not there, its path is not that of a directory, the survey is refused for a reason that it tells, or
something has gone wrong that nobody foresaw.
-/

namespace RepoSurvey

/-- What a failure means to those who have asked. -/
inductive FailureKind where
  | missing
  | notADirectory
  | refused
  | unforeseen
deriving DecidableEq, Repr

/-- The faults of a type count as failures. -/
class Failure (ε : Type) where
  kind : ε → FailureKind
  /-- The wording of a fault. -/
  message : ε → String

end RepoSurvey
