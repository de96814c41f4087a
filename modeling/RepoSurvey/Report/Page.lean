import RepoSurvey.Survey.Result

/-!
# Pages

A report is a list of lines, each of which is ended. The pieces that several reports share stand
here: numbered lists, the note of what is left out, and how a file's complexity is called.
-/

namespace RepoSurvey.Report

/-- The text of lines, each with its end. -/
def page (lines : List String) : String := String.join (lines.map (· ++ "\n"))

/-- The items with their numbers, from 1. -/
def numbered {α : Type} (items : List α) : List (Nat × α) :=
  items.zipIdx.map fun (item, i) ↦ (i + 1, item)

/-- Lines that stand only if there is something to list. -/
def unlessEmpty {α : Type} (items : List α) (lines : List String) : List String :=
  if items.isEmpty then [] else lines

/-- The note that says how many of `count` items are left out when `shown` are shown. -/
def more (shown count : Nat) : List String :=
  if shown < count then [s!"- ... and {count - shown} more"] else []

/-- A line between stars. -/
def bold (s : String) : String := "**" ++ s ++ "**"

/-- The last line of a report. -/
def footer : String := "*This report was automatically generated by Repo Archaeologist.*"

/-- A word for a complexity. -/
def complexityWord (n : Nat) : String :=
  if 10 < n then "High" else if 5 < n then "Medium" else "Low"

/-- The path of a file below the repository, both seen from the current directory `here`. -/
def pathIn (here repository : String) (f : EnrichedFile) : String :=
  Path.below here (some repository) f.path

/-- How many files depend on a file. -/
def dependencies (f : EnrichedFile) : String := s!"({f.dependents} dependencies)"

/-- The title, the repository and further facts about a report. -/
def heading (title repository : String) (facts : List (String × String)) : List String :=
  ["# " ++ title, "", "**Repository:** " ++ repository] ++
    facts.map fun (name, value) ↦ bold (name ++ ":") ++ " " ++ value

/-- The moment a report states, where an empty one means now. -/
def momentOr (now : String) (stated : Option String) : String :=
  (stated.filter (· != "")).getD now

end RepoSurvey.Report
