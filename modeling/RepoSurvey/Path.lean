import RepoSurvey.Text.Basic

/-!
# Paths

Paths are texts whose components stand between slashes. `normal` is the textual normal form: it
drops empty components and points, and lets `..` cancel the component before it. `clean` drops the
same components but keeps `..`, as is right where links may be followed.

A path that begins with exactly two slashes keeps both. The operations on `List Char` come first;
the operations on strings at the end are the same through `String.toList`.
-/

namespace RepoSurvey.Path

open RepoSurvey.Text

/-! ### Components -/

/-- Whether a path begins at the root. -/
def isAbsolute (cs : List Char) : Bool := cs.head? == some '/'

/-- The slashes that a path keeps at its front. -/
def rootMark : List Char → List Char
  | '/' :: '/' :: '/' :: _ => ['/']
  | '/' :: '/' :: _ => ['/', '/']
  | '/' :: _ => ['/']
  | _ => []

/-- Whether a component leads nowhere. -/
def isIdle (part : List Char) : Bool := part.isEmpty || part == ['.']

/-- The components of a path that lead somewhere. -/
def parts (cs : List Char) : List (List Char) := (split '/' cs).filter fun p ↦ !isIdle p

/-- Puts a component behind others, latest first: `..` cancels the one before it, and nothing stands
above the root. -/
def pushPart (rooted : Bool) (kept : List (List Char)) (part : List Char) : List (List Char) :=
  if part = ['.', '.'] then
    match kept with
    | [] => if rooted then [] else [part]
    | last :: others => if last = ['.', '.'] then part :: kept else others
  else part :: kept

/-- The components of a path after every `..` has cancelled what it can. -/
def normalParts (rooted : Bool) (ps : List (List Char)) : List (List Char) :=
  (ps.foldl (pushPart rooted) []).reverse

/-- A path of components; the empty path is a point. -/
def ofParts (mark : List Char) (ps : List (List Char)) : List Char :=
  match mark ++ join ['/'] ps with
  | [] => ['.']
  | cs => cs

/-- The textual normal form. -/
def normalChars (cs : List Char) : List Char :=
  ofParts (rootMark cs) (normalParts (isAbsolute cs) (parts cs))

/-- The path without components that lead nowhere. -/
def cleanChars (cs : List Char) : List Char := ofParts (rootMark cs) (parts cs)

/-- The second path as seen from the first. -/
def joinChars (a b : List Char) : List Char :=
  if isAbsolute b then b
  else if a.isEmpty || a.getLast? == some '/' then a ++ b
  else a ++ '/' :: b

/-! ### Ends of a path -/

/-- What stands behind the last slash. -/
def baseChars (cs : List Char) : List Char := (cs.reverse.takeWhile (· != '/')).reverse

/-- What stands in front of the last slash, which is kept only if it is the root. -/
def dirChars (cs : List Char) : List Char :=
  let head := (cs.reverse.dropWhile (· != '/')).reverse
  if head.all (· == '/') then head else (head.reverse.dropWhile (· == '/')).reverse

/-- The part of a name in front of its extension, and the extension with its point. Points at the
front of a name begin no extension. -/
def splitName (name : List Char) : List Char × List Char :=
  let tail := name.reverse.takeWhile (· != '.')
  match name.reverse.dropWhile (· != '.') with
  | [] => (name, [])
  | _ :: stem => if stem.all (· == '.') then (name, []) else (stem.reverse, '.' :: tail.reverse)

/-- The extension of a path's last component. -/
def extensionChars (cs : List Char) : List Char := (splitName (baseChars cs)).2

/-- The extension of a name, where an empty one is none and only the last point counts. -/
def suffixChars (name : List Char) : List Char :=
  let tail := name.reverse.takeWhile (· != '.')
  match name.reverse.dropWhile (· != '.') with
  | _ :: _ :: _ => if tail.isEmpty then [] else '.' :: tail.reverse
  | _ => []

/-! ### One path as seen from another -/

/-- The components of the normal form of a path as seen from the current directory `here`. -/
def absoluteParts (here cs : List Char) : List (List Char) :=
  normalParts true (parts (joinChars here cs))

/-- Drops the common front of two lists. -/
def dropCommon : List (List Char) → List (List Char) → List (List Char) × List (List Char)
  | a :: as, b :: bs => if a = b then dropCommon as bs else (a :: as, b :: bs)
  | as, bs => (as, bs)

/-- The way from `start` to a path, both seen from the current directory `here`. -/
def relativeChars (here cs start : List Char) : List Char :=
  let (up, down) := dropCommon (absoluteParts here start) (absoluteParts here cs)
  ofParts [] (up.map (fun _ ↦ ['.', '.']) ++ down)

/-! ### Paths as strings -/

/-- The textual normal form. -/
def normal (s : String) : String := String.ofList (normalChars s.toList)

/-- The path without components that lead nowhere. -/
def clean (s : String) : String := String.ofList (cleanChars s.toList)

/-- The second path as seen from the first. -/
def append (a b : String) : String := String.ofList (joinChars a.toList b.toList)

/-- The path of an entry of a directory, without components that lead nowhere. -/
def child (dir name : String) : String := clean (append dir name)

/-- What stands behind the last slash. -/
def base (s : String) : String := String.ofList (baseChars s.toList)

/-- The directory that a path names as its own. -/
def directory (s : String) : String := String.ofList (dirChars s.toList)

/-- The extension of a path's last component. -/
def extension (s : String) : String := String.ofList (extensionChars s.toList)

/-- The last component without its extension. -/
def stem (s : String) : String := String.ofList (splitName (baseChars s.toList)).1

/-- The way from `start` to a path, both seen from the current directory `here`. -/
def relative (here s start : String) : String :=
  String.ofList (relativeChars here.toList s.toList start.toList)

/-- The normal form of a path as seen from the root. -/
def absolute (s : String) : String :=
  normal (append "/" s)

/-- The last component of a path that is seen as a list of components. -/
def lastName (s : String) : String := String.ofList ((parts s.toList).getLast?.getD [])

/-- The extension of the last component, where an empty one is none. -/
def suffix (s : String) : String :=
  String.ofList (suffixChars ((parts s.toList).getLast?.getD []))

/-- The path without its last component; the root stays. -/
def parent (s : String) : String :=
  String.ofList (ofParts (rootMark s.toList) (parts s.toList).dropLast)

/-- Whether a path begins at the root. -/
def isRooted (s : String) : Bool := isAbsolute s.toList

/-- The path below a root, both seen from the current directory `here`, or the path itself if it
does not lie there or no root is given. -/
def below (here : String) (root : Option String) (path : String) : String :=
  match root.filter (· != "") with
  | none => path
  | some root =>
    if path = "" then path
    else
      let way := relative here path root
      if way = ".." ∨ startsWith way "../" then path else way

end RepoSurvey.Path
