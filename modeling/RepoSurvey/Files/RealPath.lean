import RepoSurvey.Files.Tree
import RepoSurvey.Path
import RepoSurvey.Text.Quoted

/-!
# Real paths

The real path of a file has no links in it. As many links as it takes are followed; components that
are not there, or that lie too deep to be looked at, stay as they are. So every path has a real
path, unless its links lead in a circle or a null character stands in it.
-/

namespace RepoSurvey.FileTree

mutual

/-- The number of links of a tree. -/
def linkCount : FileTree → Nat
  | .dir entries => linkCounts entries
  | .link _ => 1
  | .file _ => 0

/-- The number of links of several trees. -/
def linkCounts : List (String × FileTree) → Nat
  | [] => 0
  | (_, t) :: es => linkCount t + linkCounts es

end

/-- What following links leads to. -/
inductive Followed where
  /-- A place without links, latest component first. -/
  | place (here : List String)
  /-- The components of a path that goes through a circle. -/
  | circle (path : List String)

/-- The target of the link at a place, if one stands there and its path can be looked up. -/
def target? (root : FileTree) (place : List String) : Option String :=
  match root.at? place with
  | some (.link target) => if isLongPath (pathOf place) then none else some target
  | _ => none

/-- Follows all links of components from a place (latest first); `around` are the places of the
links that are being followed. The recursion counts down the links not yet followed. -/
def followFrom (root : FileTree) :
    (links : Nat) → (around : List (List String)) → (here path : List String) → Followed
  | _, _, here, [] => .place here
  | links, around, here, name :: path =>
    if name = "" ∨ name = "." then followFrom root links around here path
    else if name = ".." then followFrom root links around here.tail path
    else
      let new := name :: here
      match root.target? new.reverse, links with
      | some _, 0 => .circle (new.reverse ++ path)
      | some target, links + 1 =>
        if around.contains new then .circle (new.reverse ++ path)
        else
          match followFrom root links (new :: around) (if beginsAtRoot target then [] else here)
              (components target) with
          | .place here => followFrom root (links + 1) around here path
          | .circle front => .circle (front ++ path)
      | none, links => followFrom root links around new path
termination_by links _ _ path => (links, path.length)

/-- Why a path has no real path. -/
inductive RealPathFault where
  /-- Its links lead in a circle. -/
  | circle (path : String)
  /-- A null character stands in it. -/
  | nullCharacter
deriving DecidableEq, Repr

/-- The wording of a fault. -/
def RealPathFault.message : RealPathFault → String
  | .circle path => "Symlink loop from " ++ Text.quoted path
  | .nullCharacter => "embedded null byte"

/-- The real path of a path that begins at the root. -/
def realPath (root : FileTree) (path : String) : Except RealPathFault String :=
  if !isSound path then .error .nullCharacter
  else match root.followFrom (root.linkCount + 1) [] [] (components path) with
  | .place here => .ok (pathOf here.reverse)
  | .circle front =>
    let path := Path.normal (pathOf front)
    match root.locate path with
    | .error .manyLinks => .error (.circle path)
    | _ => .ok path

end RepoSurvey.FileTree
