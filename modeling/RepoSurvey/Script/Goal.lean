import RepoSurvey.Script.Reader

/-!
# Goals of the grammar

The constructs of a script contain one another: a statement holds expressions, an expression holds
functions, and these hold statements. Each rule is therefore written for a given `Grammar`, the
reading of the constructs inside it, and the rules are tied together in one place by counting down
the depth.
-/

namespace RepoSurvey.Script

/-- The constructs that occur inside others. -/
inductive Goal where
  /-- A statement or a declaration. -/
  | statement
  /-- Statements in braces. -/
  | block
  /-- Expressions with commas between them. -/
  | expressions
  /-- One expression. -/
  | expression
  /-- An expression that may stand beside an operator. -/
  | operand
  /-- What may stand behind `new`. -/
  | constructor
  /-- What a value can be bound or assigned to. -/
  | pattern
  /-- A type. -/
  | type
  /-- A type without operators between its parts. -/
  | simpleType
  /-- An element of markup. -/
  | element
deriving DecidableEq, Repr

/-- How the constructs inside a construct are read. -/
abbrev Grammar := Goal → Reader Unit

end RepoSurvey.Script
