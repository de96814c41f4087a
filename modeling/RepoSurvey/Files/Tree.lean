import RepoSurvey.Text.Quoted
import RepoSurvey.Text.Utf8

/-!
# File trees

A `FileTree` is a regular file, a symbolic link or a directory of named entries. A file is looked up
from the root of the whole tree; links on the way are followed, at most `linkLimit` of them in one
look-up, so that a ring of links leads nowhere. `resolve` gives the real place of what a path leads
to: the components of a path through directories only.

A path that leads nowhere leads neither to a file nor to a directory, which `isFile` and `isDir`
say. A name of more bytes than a name may have is refused where it is looked up, and so is a path of
more bytes than a path may have; `checkFile`, `checkDir` and `checkExists` tell that apart from a
path that leads nowhere.
-/

namespace RepoSurvey

/-- A file, a link or a directory. -/
inductive FileTree where
  | file (bytes : List UInt8)
  | link (target : String)
  | dir (entries : List (String × FileTree))
deriving Inhabited

namespace FileTree

/-- The entries of a directory. -/
def entries : FileTree → List (String × FileTree)
  | .dir es => es
  | _ => []

/-- Whether this is a directory itself. -/
def isDirectory : FileTree → Bool
  | .dir _ => true
  | _ => false

/-- Whether this is a link itself. -/
def isLink : FileTree → Bool
  | .link _ => true
  | _ => false

/-- The entry of a directory under a name. -/
def entry? (t : FileTree) (name : String) : Option FileTree := t.entries.lookup name

/-- What stands at a real place. -/
def at? (t : FileTree) : (place : List String) → Option FileTree
  | [] => some t
  | name :: place =>
    match t.entry? name with
    | some child => child.at? place
    | none => none

/-! ### Building -/

/-- Sets the entry under a name. -/
def setEntry (name : String) (t : FileTree) : List (String × FileTree) → List (String × FileTree)
  | [] => [(name, t)]
  | (n, u) :: es => if n = name then (n, t) :: es else (n, u) :: setEntry name t es

/-- Puts something at a place, with the directories on the way. -/
def put : FileTree → (place : List String) → (new : FileTree) → FileTree
  | _, [], new => new
  | t, name :: place, new =>
    .dir (setEntry name (put ((t.entry? name).getD (.dir [])) place new) t.entries)

/-! ### Looking up -/

/-- The most links that one look-up follows. -/
def linkLimit : Nat := 40

/-- The most bytes of a name. -/
def nameLimit : Nat := 255

/-- The most bytes of a path. -/
def pathLimit : Nat := 4095

/-- Whether a path is too long to be looked up at all. -/
def isLongPath (path : String) : Bool := pathLimit < path.utf8ByteSize

/-- Whether a text can be a part of a path that is looked up: it has no null character. -/
def isSound (text : String) : Bool := !text.toList.contains '\x00'

/-- The components of a path. -/
def components (path : String) : List String := Text.splitString '/' path

/-- Whether a path begins at the root. -/
def beginsAtRoot (path : String) : Bool := path.toList.head? == some '/'

/-- Why a path leads nowhere. -/
inductive Blocked where
  /-- A component is missing. -/
  | missing
  /-- A component that is no directory has further components behind it. -/
  | notDirectory
  /-- More links follow one another than are followed. -/
  | manyLinks
  /-- A name that is looked up, or the whole path, has too many bytes. -/
  | tooLong
deriving DecidableEq, Repr

/-- The real place that components lead to from the real place `here` (latest first). A name is
looked up in a directory only, so one behind a component that leads nowhere may be as long as it
likes. -/
def resolveFrom (root : FileTree) :
    (links : Nat) → (here : List String) → (path : List String) → Except Blocked (List String)
  | _, here, [] => .ok here
  | links, here, name :: path =>
    match root.at? here.reverse with
    | some (.dir entries) =>
      if name = "" ∨ name = "." then resolveFrom root links here path
      else if name = ".." then resolveFrom root links here.tail path
      else if nameLimit < name.utf8ByteSize then .error .tooLong
      else match entries.lookup name, links with
        | none, _ => .error .missing
        | some (.link _), 0 => .error .manyLinks
        | some (.link target), links + 1 =>
          resolveFrom root links (if beginsAtRoot target then [] else here)
            (components target ++ path)
        | some _, links => resolveFrom root links (name :: here) path
    | some _ => .error .notDirectory
    | none => .error .missing
termination_by links _ path => (links, path.length)

/-- The real place that a path leads to from the root, or why there is none. A path with a null
character is the path of nothing. -/
@[irreducible] def locate (root : FileTree) (path : String) : Except Blocked (List String) :=
  if !isSound path then .error .missing
  else if isLongPath path then .error .tooLong
  else (resolveFrom root linkLimit [] (components path)).map List.reverse

/-- The real place that a path leads to from the root. -/
def resolve (root : FileTree) (path : String) : Option (List String) := (root.locate path).toOption

/-- What a path leads to. -/
def find? (root : FileTree) (path : String) : Option FileTree :=
  (root.resolve path).bind root.at?

/-- Whether a path leads to a regular file. -/
def isFile (root : FileTree) (path : String) : Bool :=
  match root.find? path with
  | some (.file _) => true
  | _ => false

/-- Whether a path leads to a directory. -/
def isDir (root : FileTree) (path : String) : Bool :=
  match root.find? path with
  | some (.dir _) => true
  | _ => false

/-- Whether a path leads anywhere. -/
def exists? (root : FileTree) (path : String) : Bool := (root.find? path).isSome

/-- The path of a real place. -/
def pathOf (place : List String) : String := "/" ++ "/".intercalate place

/-! ### Looking up with a fault -/

/-- A path that is refused, since a name on its way is too long or the path itself is. -/
structure LongPath where
  path : String
deriving DecidableEq, Repr

/-- Whether a look-up is refused for length. -/
def refuses (root : FileTree) (path : String) : Bool :=
  match root.locate path with
  | .error .tooLong => true
  | _ => false

/-- An answer about a path, unless the path is refused. -/
def unlessRefused (root : FileTree) (path : String) (answer : Bool) : Except LongPath Bool :=
  if root.refuses path then .error ⟨path⟩ else .ok answer

/-- Whether a path leads to a regular file, unless it is refused. -/
def checkFile (root : FileTree) (path : String) : Except LongPath Bool :=
  root.unlessRefused path (root.isFile path)

/-- Whether a path leads to a directory, unless it is refused. -/
def checkDir (root : FileTree) (path : String) : Except LongPath Bool :=
  root.unlessRefused path (root.isDir path)

/-- Whether a path leads anywhere, unless it is refused. -/
def checkExists (root : FileTree) (path : String) : Except LongPath Bool :=
  root.unlessRefused path (root.exists? path)

/-! ### Reading -/

/-- Why a file cannot be read as text. -/
inductive ReadFault where
  | blocked (why : Blocked)
  | isDirectory
  | badText (bytes : List UInt8)
deriving DecidableEq, Repr

/-- The wording of a fault of the system. -/
def Blocked.message (path : String) : Blocked → String
  | .missing => "[Errno 2] No such file or directory: " ++ Text.quoted path
  | .notDirectory => "[Errno 20] Not a directory: " ++ Text.quoted path
  | .manyLinks => "[Errno 40] Too many levels of symbolic links: " ++ Text.quoted path
  | .tooLong => "[Errno 36] File name too long: " ++ Text.quoted path

/-- The wording of the fault. -/
def LongPath.message (fault : LongPath) : String := Blocked.tooLong.message fault.path

/-- What the system says when a directory is read or written like a file. -/
def directoryMessage (path : String) : String := "[Errno 21] Is a directory: " ++ Text.quoted path

/-- The wording of a fault in reading the file at a path. -/
def ReadFault.message (path : String) : ReadFault → String
  | .blocked why => why.message path
  | .isDirectory => directoryMessage path
  | .badText bytes =>
    match Text.byteFault? bytes with
    | some f => f.message
    | none => "'utf-8' codec can't decode"

/-- The text of a file, with a line feed for each line end. -/
def readText (root : FileTree) (path : String) : Except ReadFault String :=
  match root.locate path with
  | .error why => .error (.blocked why)
  | .ok place =>
    match root.at? place with
    | some (.file bytes) =>
      match Text.decode? bytes with
      | some cs => .ok (String.ofList (Text.readLines cs))
      | none => .error (.badText bytes)
    | some _ => .error .isDirectory
    | none => .error (.blocked .missing)

mutual

/-- The number of directories of a tree. -/
def directoryCount : FileTree → Nat
  | .dir entries => 1 + directoryCounts entries
  | _ => 0

/-- The number of directories of several trees. -/
def directoryCounts : List (String × FileTree) → Nat
  | [] => 0
  | (_, t) :: es => directoryCount t + directoryCounts es

end

end FileTree

end RepoSurvey
