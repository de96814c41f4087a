import RepoSurvey.Assoc
import RepoSurvey.Json.Basic
import RepoSurvey.Text.Basic

/-!
# The commit log

A log is a text of lines. A header line holds the hash, author, date and subject of a commit between
tabs, and the lines behind it name the files that the commit touches. A `LogIndex` holds the commits
in order, the files of each hash, and the commits of each file; it keeps a file once for each hash,
also where several blocks of the log have one hash.
-/

namespace RepoSurvey.History

open RepoSurvey.Text

/-- The header of a commit. -/
structure Commit where
  hash : String
  author : String
  date : String
  message : String
deriving DecidableEq, Repr, Inhabited

namespace Commit

/-- The written form. -/
def toJson (c : Commit) : Json :=
  .obj [("hash", .str c.hash), ("author", .str c.author), ("date", .str c.date),
    ("message", .str c.message)]

end Commit

/-- The commits of a log and what they touch. -/
structure LogIndex where
  commits : List Commit := []
  commitFiles : List (String × List String) := []
  fileCommits : List (String × List Commit) := []
deriving DecidableEq, Repr, Inhabited

namespace LogIndex

/-- The files that the commits of a hash touch. -/
def filesOf (x : LogIndex) (hash : String) : List String := (x.commitFiles.lookup hash).getD []

/-- The commits that touch a file. -/
def commitsOf (x : LogIndex) (file : String) : List Commit := (x.fileCommits.lookup file).getD []

/-- Adds a commit that touches nothing yet. -/
def addCommit (x : LogIndex) (c : Commit) : LogIndex :=
  { x with
    commits := x.commits ++ [c]
    commitFiles := Assoc.modify c.hash (fun files ↦ files.getD []) x.commitFiles }

/-- Notes that a commit touches a file, unless the file is noted for its hash. -/
def addFile (x : LogIndex) (c : Commit) (file : String) : LogIndex :=
  if file ∈ x.filesOf c.hash then x
  else { x with
    commitFiles := Assoc.modify c.hash (fun files ↦ files.getD [] ++ [file]) x.commitFiles
    fileCommits := Assoc.modify file (fun commits ↦ commits.getD [] ++ [c]) x.fileCommits }

end LogIndex

/-! ### Lines -/

/-- Whether a text is the hash of a commit, whole or cut short. -/
def isHash (cs : List Char) : Bool :=
  7 ≤ cs.length && cs.length ≤ 40 && cs.all fun c ↦ (hexDigit? c).isSome

/-- The commit of a header line. -/
def header? (line : List Char) : Option Commit :=
  match split '\t' line with
  | hash :: author :: date :: subject :: more =>
    if isHash hash then
      some ⟨String.ofList hash, String.ofList author, String.ofList date,
        String.ofList (join ['\t'] (subject :: more))⟩
    else none
  | _ => none

/-- The file of a line, below `front`; no file if it is not below it. -/
def fileOf (front line : List Char) : List Char :=
  (dropFront? front (replaceChar '\\' '/' (trim line))).getD []

/-- What is read of a log: its index, and the commit whose files follow. -/
structure Reading where
  index : LogIndex := {}
  current : Option Commit := none

/-- Reads one line; `front` is the directory whose files count. -/
def readLine (front : List Char) (r : Reading) (line : List Char) : Reading :=
  if line.isEmpty then r
  else match header? line, r.current with
    | some c, _ => { index := r.index.addCommit c, current := some c }
    | none, none => r
    | none, some c =>
      match fileOf front line with
      | [] => r
      | file => { r with index := r.index.addFile c (String.ofList file) }

/-- The index of a log; paths are those below `front`, without it. -/
def parseLog (front log : String) : LogIndex :=
  ((split '\n' log.toList).foldl (readLine front.toList) {}).index

end RepoSurvey.History
