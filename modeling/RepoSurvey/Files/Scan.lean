import RepoSurvey.Files.Ignore
import RepoSurvey.Files.Tree
import RepoSurvey.Path

/-!
# Scanning a directory

`scan` lists the files below a directory that no ignore rule leaves out. A linked directory is
entered only if it lies outside the directory that is scanned, and no directory is entered twice, so
that rings of links do no harm. Real directories come before linked ones, and names are in order, so
that the result does not depend on the order of entries.

The directories still to be entered are kept on a stack. A directory is marked as visited when its
parent is listed, before anything below its siblings is seen. One whose path is too long to be
looked up is passed over. Any other entry whose path is refused, be it a file that lies too deep or
a link to a name that is too long, ends the scan with a fault (`fault?`), unless a rule leaves it
out; what has been found before stays found.
-/

namespace RepoSurvey.Scan

/-- What a scan comes across. -/
inductive Event where
  /-- A file to look at. -/
  | file (path : List String)
  /-- A link into the directory that is scanned, not followed. -/
  | innerLink (path : List String)
  /-- A directory that is visited already, not entered. -/
  | revisited (path : List String)
deriving DecidableEq, Repr

/-- A directory to enter: its real place, and its path below the scanned directory. -/
structure Visit where
  place : List String
  path : List String
deriving DecidableEq, Repr

/-- A directory that stands in another one under a name, or that a link there leads to. -/
structure Listed where
  name : String
  /-- Whether the entry is a link. -/
  linked : Bool
  /-- The real place of the directory. -/
  place : List String
deriving DecidableEq, Repr

/-- What a scan is about. -/
structure Scope where
  /-- The whole tree. -/
  root : FileTree
  /-- The path of the scanned directory. -/
  directory : String
  /-- The real place of that directory. -/
  top : List String
  rules : List IgnoreRule

/-- Real directories before links, then by name. -/
def leListed (a b : Listed) : Bool :=
  if a.linked = b.linked then Text.leString a.name b.name else !a.linked

/-- The text of a relative path. -/
def pathText (path : List String) : String := "/".intercalate path

/-- The path of a file below a directory. -/
def pathBelow (directory : String) (path : List String) : String :=
  Path.child directory (pathText path)

/-- What comes of entering a directory. -/
structure Entered where
  visited : List (List String)
  /-- The directories to be entered next. -/
  visits : List Visit
  /-- What is come across. -/
  events : List Event
  /-- What ends the scan in the directory. -/
  fault : Option FileTree.LongPath

/-- What comes of a scan: the directories that it enters, with what it comes across in each, and
what has ended it before all were entered. -/
structure Course where
  visits : List (Visit × List Event) := []
  fault : Option FileTree.LongPath := none

namespace Scope

/-- Whether a path below the scanned directory is left out. -/
def ignores (s : Scope) (path : List String) : Bool := isIgnored s.rules (pathText path)

/-- The real place of what a path below the scanned directory leads to. -/
def resolve (s : Scope) (path : List String) : Option (List String) :=
  s.root.resolve (pathBelow s.directory path)

/-- The entries of a directory, unless its path is refused. -/
def entries? (s : Scope) (v : Visit) : Option (List (String × FileTree)) :=
  if s.root.refuses (pathBelow s.directory v.path) then none
  else match s.root.at? v.place with
    | some (.dir entries) => some entries
    | _ => none

/-- The directory that an entry is or leads to. Only links are looked up. -/
def listed? (s : Scope) (v : Visit) (name : String) : FileTree → Option Listed
  | .dir _ => some ⟨name, false, v.place ++ [name]⟩
  | .file _ => none
  | .link _ => do
    let place ← s.resolve (v.path ++ [name])
    match s.root.at? place with
    | some (.dir _) => some ⟨name, true, place⟩
    | _ => none

/-- The directories among entries. -/
def listing (s : Scope) (v : Visit) (entries : List (String × FileTree)) : List Listed :=
  entries.filterMap fun (name, entry) ↦ s.listed? v name entry

/-- The names of the other entries, in order. -/
def otherNames (s : Scope) (v : Visit) (entries : List (String × FileTree)) : List String :=
  Text.sortStrings
    ((entries.filter fun (name, entry) ↦ (s.listed? v name entry).isNone).map Prod.fst)

/-- The subdirectories to enter, given those visited; notes those that are left out. -/
def select (s : Scope) (path : List String) :
    (visited : List (List String)) → List Listed →
      List (List String) × List Visit × List Event
  | visited, [] => (visited, [], [])
  | visited, d :: ds =>
    let below := path ++ [d.name]
    if s.ignores below then s.select path visited ds
    else if d.linked ∧ s.top <+: d.place then
      let (visited, visits, events) := s.select path visited ds
      (visited, visits, .innerLink below :: events)
    else if d.place ∈ visited then
      let (visited, visits, events) := s.select path visited ds
      (visited, visits, .revisited below :: events)
    else
      let (visited, visits, events) := s.select path (d.place :: visited) ds
      (visited, ⟨d.place, below⟩ :: visits, events)

/-- The files among names of a directory that are not ignored. Each name is looked up in turn, and
the first path that is refused ends this. -/
def filesAmong (s : Scope) (path : List String) :
    List String → List (List String) × Option FileTree.LongPath
  | [] => ([], none)
  | name :: names =>
    let below := path ++ [name]
    if s.ignores below then s.filesAmong path names
    else match s.root.checkFile (pathBelow s.directory below) with
      | .error fault => ([], some fault)
      | .ok false => s.filesAmong path names
      | .ok true =>
        let (files, fault) := s.filesAmong path names
        (below :: files, fault)

/-- Enters a directory of some entries. -/
def enter (s : Scope) (visited : List (List String)) (v : Visit)
    (entries : List (String × FileTree)) : Entered :=
  let (visited, visits, events) :=
    s.select v.path visited ((s.listing v entries).mergeSort leListed)
  let (files, fault) := s.filesAmong v.path (s.otherNames v entries)
  { visited, visits, events := events ++ files.map .file, fault }

/-- Enters the directories on a stack one after the other; `fuel` counts directories. -/
def walk (s : Scope) :
    (fuel : Nat) → (visited : List (List String)) → (stack : List Visit) → Course
  | 0, _, _ => {}
  | _, _, [] => {}
  | fuel + 1, visited, v :: stack =>
    match s.entries? v with
    | none => s.walk fuel visited stack
    | some entries =>
      let e := s.enter visited v entries
      match e.fault with
      | some fault => { visits := [(v, e.events)], fault }
      | none =>
        let rest := s.walk fuel e.visited (e.visits ++ stack)
        { rest with visits := (v, e.events) :: rest.visits }

end Scope

/-- What a scan of the directory at a path is about, where `top` is its real place. -/
def scopeAt (root : FileTree) (directory : String) (top : List String) (patterns : List String) :
    Scope :=
  ⟨root, directory, top, IgnoreRule.ofPatterns patterns⟩

/-- What comes of a scan of a directory. -/
def course (root : FileTree) (directory : String) (patterns : List String) : Course :=
  match root.resolve directory with
  | none => {}
  | some top =>
    (scopeAt root directory top patterns).walk (root.directoryCount + 1) [top] [⟨top, []⟩]

/-- What a scan comes across, in order. -/
def Course.events (c : Course) : List Event := c.visits.flatMap Prod.snd

/-- The file that an event is about, if it is to be looked at. -/
def Event.file? : Event → Option (List String)
  | .file path => some path
  | _ => none

/-- The directories that a scan of a directory enters, in order, with what it comes across in
each. -/
def visits (root : FileTree) (directory : String) (patterns : List String) :
    List (Visit × List Event) :=
  (course root directory patterns).visits

/-- The paths of the files that a scan finds, in order. -/
def files (root : FileTree) (directory : String) (patterns : List String) : List String :=
  (course root directory patterns).events.filterMap fun e ↦ e.file?.map (pathBelow directory)

/-- What ends a scan before it has seen everything. -/
def fault? (root : FileTree) (directory : String) (patterns : List String) :
    Option FileTree.LongPath :=
  (course root directory patterns).fault

end RepoSurvey.Scan
