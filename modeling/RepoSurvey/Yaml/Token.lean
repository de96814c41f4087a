/-!
# Tokens

What a YAML text is made of. The ends and beginnings of blocks, which indentation shows, are tokens
like any others, and so are the keys of mappings, which only the colon behind them shows.
-/

namespace RepoSurvey.Yaml

/-- A tag as it is written. -/
inductive WrittenTag where
  /-- A whole tag. -/
  | whole (tag : String)
  /-- A handle that stands for the front of the tag, and its rest. -/
  | short (handle rest : String)
deriving DecidableEq, Repr

/-- A token. -/
inductive Token where
  | versionDirective (major : Nat)
  /-- Says what front of tags a handle stands for. -/
  | tagDirective (handle front : String)
  | otherDirective
  | documentStart
  | documentEnd
  | blockListStart
  | blockMapStart
  | blockEnd
  | flowListStart
  | flowListEnd
  | flowMapStart
  | flowMapEnd
  | blockItem
  | flowSeparator
  | key
  | value
  | reference (name : String)
  | anchor (name : String)
  | tag (tag : WrittenTag)
  | scalar (text : String) (plain : Bool)
deriving DecidableEq, Repr

end RepoSurvey.Yaml
