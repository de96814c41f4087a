/-!
# Limits

A limit on a list is the number of items that are kept; a negative one is the number of items that
are left out at the end.
-/

namespace RepoSurvey

/-- The items of a list within a limit. -/
def within {α : Type} (limit : Int) (xs : List α) : List α :=
  match limit with
  | .ofNat n => xs.take n
  | .negSucc n => xs.take (xs.length - (n + 1))

end RepoSurvey
