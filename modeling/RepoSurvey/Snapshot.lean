import RepoSurvey.Json.Reader
import RepoSurvey.Survey.Make

/-!
# Snapshots

A snapshot is a JSON object that holds all that a survey looks at: under `files` the contents of
files by their absolute paths, under `now` the time, under `directory` the working directory, and
under `git` the output of git commands. Without `git` there is no repository; whatever else is
missing has a usual value.
-/

namespace RepoSurvey

/-- All that a survey looks at, and the directory from which paths are seen. -/
structure Snapshot where
  site : Site
  directory : String := "/"

namespace Snapshot

/-- The text under a name. -/
def text? (j : Json) (name : String) : Option String :=
  match j.get? name with
  | some (.str s) => some s
  | _ => none

/-- A file, a link or an empty directory. -/
def entry (j : Json) : FileTree :=
  match j, text? j "link" with
  | .str s, _ => .file (Text.encode s)
  | _, some target => .link target
  | _, none => .dir []

/-- The files by their paths. -/
def files (j : Json) : FileTree :=
  match j.get? "files" with
  | some (.obj members) =>
    members.foldl
      (fun t (path, j) ↦ t.put ((FileTree.components path).filter (· != "")) (entry j)) (.dir [])
  | _ => .dir []

open History in
/-- What git commands yield. -/
def script (j : Json) : Script := fun _ c ↦
  match j.get? "git", c with
  | none, _ => .error (.exit 128 "fatal: not a git repository")
  | some git, .showPrefix => .ok ((text? git "prefix").getD "")
  | some git, .fullLog => .ok ((text? git "log").getD "")
  | some git, .listFiles => .ok ((text? git "tracked").getD "")
  | some _, .fileLog _ => .error (.exit 128 "fatal: no log of single files")

/-- The moment that begins the count of seconds of most clocks. -/
def usualNow : Time.Moment := { date := ⟨1970, 1, 1⟩ }

/-- The snapshot that a JSON value is. -/
def ofJson (j : Json) : Snapshot where
  site :=
    { files := files j
      git := script j
      now := ((text? j "now").bind Time.Moment.parse?).getD usualNow }
  directory := (text? j "directory").getD "/"

/-- The snapshot that a text is; an empty text is one that holds nothing. -/
def ofText? (s : String) : Option Snapshot :=
  if Text.strip s = "" then some (ofJson .null)
  else (Json.parse s.toList).toOption.map ofJson

/-- Makes a survey of the repository at a path. -/
def survey (s : Snapshot) (path : String) (options : Options) :
    List Record × Except SurveyFault Survey :=
  Survey.make s.site (Path.append s.directory path) options

end Snapshot

end RepoSurvey
