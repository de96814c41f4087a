import RepoSurvey.Files.Tree

/-!
# Writing files

A text is written to the file that a path leads to. If nothing stands there yet, a file is added to
the directory in which it would stand; links are followed as in reading.
-/

namespace RepoSurvey.FileTree

/-- Why a file cannot be written. -/
inductive WriteFault where
  | blocked (why : Blocked)
  | isDirectory
deriving DecidableEq, Repr

/-- The wording of a fault in writing the file at a path. -/
def WriteFault.message (path : String) : WriteFault → String
  | .blocked why => why.message path
  | .isDirectory => directoryMessage path

/-- The real place (latest component first) that components lead to from a real place, where the
last one may be missing. -/
def newPlaceFrom (root : FileTree) :
    (links : Nat) → (here : List String) → (path : List String) → Except Blocked (List String)
  | _, here, [] => .ok here
  | links, here, name :: path =>
    match root.at? here.reverse with
    | some (.dir entries) =>
      if name = "" ∨ name = "." then newPlaceFrom root links here path
      else if name = ".." then newPlaceFrom root links here.tail path
      else if nameLimit < name.utf8ByteSize then .error .tooLong
      else match entries.lookup name, links with
        | none, _ => if path = [] then .ok (name :: here) else .error .missing
        | some (.link _), 0 => .error .manyLinks
        | some (.link target), links + 1 =>
          newPlaceFrom root links (if beginsAtRoot target then [] else here)
            (components target ++ path)
        | some _, links => newPlaceFrom root links (name :: here) path
    | some _ => .error .notDirectory
    | none => .error .missing
termination_by links _ path => (links, path.length)

/-- The tree after a text has been written to the file at a path from the root. -/
def writeText (root : FileTree) (path text : String) : Except WriteFault FileTree :=
  if isLongPath path then .error (.blocked .tooLong)
  else match newPlaceFrom root linkLimit [] (components path) with
  | .error why => .error (.blocked why)
  | .ok place =>
    match root.at? place.reverse with
    | some (.dir _) => .error .isDirectory
    | _ => .ok (root.put place.reverse (.file (Text.encode text)))

end RepoSurvey.FileTree
