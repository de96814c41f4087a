import RepoSurvey.Proofs.Files.Components

/-!
# Which paths are refused

A look-up is refused for length in two ways only. The path is too long, or a name that is looked up
is: one of the path itself, or one that the target of a link puts in its place. Where no link has
such a target (`hasShortLinks`), a path of proper names is refused only if it is too long
(`refuses_pathBelow_eq_false`). How long the path of a file below a directory is follows from the
number of its names (`utf8ByteSize_pathBelow_le`).
-/

namespace RepoSurvey

open RepoSurvey.FileTree

namespace FileTree

mutual

/-- Whether no link of a tree has a name in its target that is too long. -/
def hasShortLinks : FileTree → Bool
  | .file _ => true
  | .link target => (components target).all fun n ↦ n.utf8ByteSize ≤ nameLimit
  | .dir entries => haveShortLinks entries

/-- Whether no link of several trees has a name in its target that is too long. -/
def haveShortLinks : List (String × FileTree) → Bool
  | [] => true
  | (_, t) :: es => hasShortLinks t && haveShortLinks es

end

variable {root t u : FileTree} {place : List String}

/-- An entry of a directory has short links if the directory has. -/
theorem hasShortLinks_of_lookup {es : List (String × FileTree)} {name : String}
    (hes : haveShortLinks es = true) (h : es.lookup name = some u) : u.hasShortLinks = true := by
  induction es with
  | nil => cases h
  | cons e es ih =>
    rw [haveShortLinks, Bool.and_eq_true] at hes
    rw [List.lookup_cons] at h
    split at h
    · exact Option.some.inj h ▸ hes.1
    · exact ih hes.2 h

/-- So has what is at a place further down. -/
theorem hasShortLinks_at? (ht : t.hasShortLinks = true) (h : t.at? place = some u) :
    u.hasShortLinks = true := by
  induction place generalizing t with
  | nil =>
    obtain rfl : t = u := by simpa using h
    exact ht
  | cons name place ih =>
    obtain ⟨es, child, rfl, hlookup, hbelow⟩ := exists_dir_of_at?_cons h
    exact ih (hasShortLinks_of_lookup ht hlookup) hbelow

/-- The names in the target of a short link are short. -/
theorem utf8ByteSize_le_of_hasShortLinks {target : String}
    (h : (link target).hasShortLinks = true) :
    ∀ n ∈ components target, n.utf8ByteSize ≤ nameLimit := by
  rw [hasShortLinks, List.all_eq_true] at h
  exact fun n hn ↦ of_decide_eq_true (h n hn)

/-- Without a link to a long name, no long name comes up but those of the path. -/
theorem resolveFrom_ne_tooLong (hroot : root.hasShortLinks = true) (links : Nat)
    (here : List String) {path : List String} (hpath : ∀ n ∈ path, n.utf8ByteSize ≤ nameLimit) :
    root.resolveFrom links here path ≠ .error .tooLong := by
  match path with
  | [] =>
    simp
  | name :: path =>
    obtain ⟨hname, hrest⟩ := List.forall_mem_cons.1 hpath
    have hgoes (there : List String) := resolveFrom_ne_tooLong hroot links there hrest
    rw [resolveFrom]
    rcases hdir : root.at? here.reverse with - | u
    · simp
    cases u with
    | file | link => simp
    | dir es =>
      simp only
      split
      · exact hgoes here
      split
      · exact hgoes here.tail
      rw [if_neg (Nat.not_lt.2 hname)]
      rcases hentry : es.lookup name with - | u
      · simp
      cases u with
      | file | dir => exact hgoes (name :: here)
      | link target =>
        cases links with
        | zero => simp
        | succ links =>
          -- the target of a link is short, so only short names come up behind it
          have hlink := hasShortLinks_of_lookup (hasShortLinks_at? hroot hdir) hentry
          refine resolveFrom_ne_tooLong hroot links _ ?_
          exact List.forall_mem_append.2 ⟨utf8ByteSize_le_of_hasShortLinks hlink, hrest⟩
termination_by (links, path.length)

/-- Without a link to a long name, a path is refused only if it is too long or has a long name. -/
theorem refuses_eq_false (hroot : root.hasShortLinks = true) {path : String}
    (hshort : isLongPath path = false) (hpath : ∀ n ∈ components path, n.utf8ByteSize ≤ nameLimit) :
    root.refuses path = false := by
  have hcomponents := resolveFrom_ne_tooLong hroot linkLimit [] hpath
  rw [Bool.eq_false_iff, Ne, refuses_iff]
  rintro ⟨-, hlong | hlong⟩
  · rw [hshort] at hlong
    cases hlong
  · exact hcomponents hlong

end FileTree

namespace Path

/-- A path becomes no longer when it is cleaned, unless nothing is left of it. -/
theorem utf8ByteSize_clean_le (s : String) : (clean s).utf8ByteSize ≤ max s.utf8ByteSize 1 := by
  rcases cleanChars_sublist s.toList with hsublist | hpoint
  · have hle := utf8ByteSize_le_of_sublist hsublist
    rw [String.ofList_toList] at hle
    exact hle.trans (Nat.le_max_left _ _)
  · rw [clean, hpoint]
    exact Nat.le_max_right _ _

/-- A path below another is longer by its own length and a slash. -/
theorem utf8ByteSize_append_le (a b : String) :
    (append a b).utf8ByteSize ≤ a.utf8ByteSize + 1 + b.utf8ByteSize := by
  have hslash : (String.ofList ['/']).utf8ByteSize = 1 := by decide
  rw [append, joinChars]
  split
  · rw [String.ofList_toList]
    omega
  split
  · rw [String.ofList_append, String.utf8ByteSize_append, String.ofList_toList,
      String.ofList_toList]
    omega
  · rw [← List.singleton_append, String.ofList_append, String.ofList_append,
      String.utf8ByteSize_append, String.utf8ByteSize_append, hslash, String.ofList_toList,
      String.ofList_toList]
    omega

end Path

namespace Scan

variable {path : List String}

/-- How long a row of file names is. -/
theorem utf8ByteSize_pathText_le (h : ∀ n ∈ path, isFileName n = true) :
    (pathText path).utf8ByteSize ≤ (nameLimit + 1) * path.length := by
  induction path with
  | nil =>
    rw [pathText_nil]
    exact Nat.zero_le _
  | cons name path ih =>
    obtain ⟨hname, hpath⟩ := List.forall_mem_cons.1 h
    have hrest := ih hpath
    have hlength := (isFileName_iff.1 hname).2.2
    have hslash : "/".utf8ByteSize = 1 := by decide
    cases path with
    | nil =>
      rw [pathText, String.intercalate_singleton]
      simpa using Nat.le_succ_of_le hlength
    | cons next path =>
      rw [pathText] at hrest
      rw [pathText, String.intercalate_cons_cons, String.utf8ByteSize_append,
        String.utf8ByteSize_append, List.length_cons, Nat.mul_succ]
      omega

/-- How long the path of a file is, by the number of its names. -/
theorem utf8ByteSize_pathBelow_le (directory : String) (h : ∀ n ∈ path, isFileName n = true) :
    (pathBelow directory path).utf8ByteSize ≤
      directory.utf8ByteSize + 1 + (nameLimit + 1) * path.length := by
  have happend := Path.utf8ByteSize_append_le directory (pathText path)
  have htext := utf8ByteSize_pathText_le h
  have hclean := Path.utf8ByteSize_clean_le (Path.append directory (pathText path))
  rw [pathBelow, Path.child]
  omega

/-- Without a link to a long name, the path of a file below a directory is refused only if it is too
long, or the path of the directory is refused. -/
theorem refuses_pathBelow_eq_false {root : FileTree} (hroot : root.hasShortLinks = true)
    {directory : String} (hdirectory : ∀ n ∈ components directory, n.utf8ByteSize ≤ nameLimit)
    (h : ∀ n ∈ path, isFileName n = true) (hshort : isLongPath (pathBelow directory path) = false) :
    root.refuses (pathBelow directory path) = false := by
  refine refuses_eq_false hroot hshort fun n hn ↦ ?_
  obtain ⟨front, hfront, hbelow⟩ := exists_components_pathBelow directory (forall_isName h)
  rw [hbelow, List.mem_append, List.mem_append] at hn
  rcases hn with hn | hn | hn
  · have hidle := hfront n hn
    rw [isIdle, Bool.or_eq_true, beq_iff_eq, beq_iff_eq] at hidle
    rcases hidle with rfl | rfl <;> decide
  · exact hdirectory n (List.mem_of_mem_filter hn)
  · exact (isFileName_iff.1 (h n hn)).2.2

end Scan

end RepoSurvey
