import RepoSurvey.Path

/-!
# Path aliases

An alias rule replaces import specifiers by paths. A rule with a wildcard applies to every specifier
that begins with the part of the pattern before the first star; the rest of the specifier is put in
for the star of each target. A rule without one applies to the pattern itself.
-/

namespace RepoSurvey.Imports

open RepoSurvey.Text

/-- What an alias stands for: a path, or the front of one that the wildcard completes. -/
structure AliasTarget where
  front : String
  wildcard : Bool
deriving DecidableEq, Repr

/-- A pattern of specifiers and what it stands for. -/
structure AliasRule where
  pattern : String
  /-- The part of the pattern before its first star. -/
  front : String
  wildcard : Bool
  targets : List AliasTarget
deriving DecidableEq, Repr

/-- The part of a text before its first star. -/
def beforeStar (s : String) : String := String.ofList (s.toList.takeWhile (· != '*'))

/-- Whether a text has a star. -/
def hasStar (s : String) : Bool := s.toList.contains '*'

namespace AliasTarget

/-- The target that a text names, as seen from a directory. The front of a wildcard stays as
written, so that it keeps its last slash. -/
def ofText (directory text : String) : AliasTarget :=
  if hasStar text then ⟨Path.append directory (beforeStar text), true⟩
  else ⟨Path.normal (Path.append directory text), false⟩

/-- The path that a target stands for, given what the wildcard stands for. -/
def expand (t : AliasTarget) (wild : String) : String :=
  if t.wildcard then t.front ++ wild else t.front

end AliasTarget

namespace AliasRule

/-- The rule of a pattern and its written targets, as seen from a directory. -/
def ofTexts (directory pattern : String) (targets : List String) : AliasRule where
  pattern
  front := beforeStar pattern
  wildcard := hasStar pattern
  targets := targets.map (AliasTarget.ofText directory)

/-- Whether a rule applies to a specifier. -/
def applies (r : AliasRule) (specifier : String) : Bool :=
  if r.wildcard then startsWith specifier r.front else specifier == r.pattern

/-- The paths that a specifier stands for by a rule; none if the rule does not apply. -/
def expand (r : AliasRule) (specifier : String) : List String :=
  if r.applies specifier then
    let wild := if r.wildcard then dropChars r.front.length specifier else ""
    r.targets.map fun t ↦ t.expand wild
  else []

/-- Longer fronts come first, and of equal ones the pattern without a wildcard. -/
def precedes (r s : AliasRule) : Bool :=
  s.front.length < r.front.length ||
    (r.front.length == s.front.length && (!r.wildcard || s.wildcard))

end AliasRule

end RepoSurvey.Imports
