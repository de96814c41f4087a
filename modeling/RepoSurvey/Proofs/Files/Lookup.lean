import Mathlib.Data.List.Induction
import RepoSurvey.Files.Tree
import RepoSurvey.Proofs.Assoc

/-!
# Looking files up

A tree is proper if every directory lists names, and none of them twice. What stands at a place of a
proper tree is proper (`isProper_at?`).

A look-up works from the front of a path to its end. So looking up a path either fails for its
front, whatever follows, or goes on from where the front leads, with the links that are left
(`resolveFrom_append`). Three things follow that hold of every path.

* A look-up does not end at a link (`Stands.resolveFrom`).
* A path to a directory leads on to what the directory holds (`resolveFrom_concat`).
* Components that lead nowhere can be left out (`resolveFrom_filter`).

The path as it is written counts only in so far as it may be too long, or no path at all
(`resolve_eq_some_iff`).
-/

namespace RepoSurvey.FileTree

/-! ### Proper trees -/

/-- Whether a text is a component of a path that leads down: it is not empty, means neither a
directory itself nor the one above, and has no slash. -/
def isName (name : String) : Bool :=
  name != "" && name != "." && name != ".." && !name.toList.contains '/'

/-- Whether a text can be the name of a file: it leads down, has no null character and is not too
long. -/
def isFileName (name : String) : Bool :=
  isName name && isSound name && name.utf8ByteSize ≤ nameLimit

mutual

/-- Whether every directory of a tree lists names, and none of them twice. -/
def isProper : FileTree → Bool
  | .dir entries => decide (entries.map Prod.fst).Nodup && areProper entries
  | _ => true

/-- Whether entries have names and are proper. -/
def areProper : List (String × FileTree) → Bool
  | [] => true
  | (name, t) :: es => isFileName name && isProper t && areProper es

end

/-- Entries are proper one by one. -/
theorem areProper_iff {es : List (String × FileTree)} :
    areProper es = true ↔ ∀ e ∈ es, isFileName e.1 = true ∧ e.2.isProper = true := by
  induction es with
  | nil => simp [areProper]
  | cons e es ih => simp [areProper, ih]

variable {root t u : FileTree} {name : String} {place : List String}

/-- A directory is proper if no name stands in it twice, and its entries are proper. -/
theorem isProper_dir_iff {es : List (String × FileTree)} :
    (dir es).isProper = true ↔
      (es.map Prod.fst).Nodup ∧ ∀ e ∈ es, isFileName e.1 = true ∧ e.2.isProper = true := by
  rw [isProper, Bool.and_eq_true, decide_eq_true_iff, areProper_iff]

/-- Only directories have entries. -/
theorem exists_dir_of_child (h : t.entry? name = some u) :
    ∃ es, t = .dir es ∧ es.lookup name = some u := by
  cases t with
  | file | link => cases h
  | dir es => exact ⟨es, rfl, h⟩

/-- What is found in a proper directory is proper, and its name can be one. -/
theorem isProper_of_lookup {es : List (String × FileTree)} (hes : (dir es).isProper = true)
    (h : es.lookup name = some u) : isFileName name = true ∧ u.isProper = true :=
  (isProper_dir_iff.1 hes).2 (name, u) (Assoc.mem_of_lookup h)

/-! ### Real places -/

@[simp] theorem at?_nil (t : FileTree) : t.at? [] = some t := rfl

/-- What stands at a place below another place stands below what is there. -/
theorem at?_append (t : FileTree) (p q : List String) :
    t.at? (p ++ q) = (t.at? p).bind fun u ↦ u.at? q := by
  induction p generalizing t with
  | nil => rfl
  | cons name p ih =>
    rw [List.cons_append, at?, at?]
    cases t.entry? name with
    | none => rfl
    | some child => exact ih child

/-- The last name of a place is looked up in what stands in front of it. -/
theorem at?_concat (t : FileTree) (p : List String) (name : String) :
    t.at? (p ++ [name]) = (t.at? p).bind fun u ↦ u.entry? name := by
  rw [at?_append]
  congr 1
  funext u
  rw [at?]
  cases u.entry? name <;> rfl

/-- What stands below a place stands below an entry of a directory. -/
theorem exists_dir_of_at?_cons (h : t.at? (name :: place) = some u) :
    ∃ es child, t = .dir es ∧ es.lookup name = some child ∧ child.at? place = some u := by
  rw [at?] at h
  rcases hentry : t.entry? name with - | child
  · simp [hentry] at h
  · rw [hentry] at h
    obtain ⟨es, rfl, hlookup⟩ := exists_dir_of_child hentry
    exact ⟨es, child, rfl, hlookup, h⟩

/-- All that stands in a proper tree is proper, under proper names. -/
theorem isProper_at? (ht : t.isProper = true) (h : t.at? place = some u) :
    (∀ n ∈ place, isFileName n = true) ∧ u.isProper = true := by
  induction place generalizing t with
  | nil =>
    obtain rfl : t = u := by simpa using h
    exact ⟨by simp, ht⟩
  | cons name place ih =>
    obtain ⟨es, child, rfl, hlookup, hbelow⟩ := exists_dir_of_at?_cons h
    obtain ⟨hname, hchild⟩ := isProper_of_lookup ht hlookup
    obtain ⟨hplace, hu⟩ := ih hchild hbelow
    exact ⟨List.forall_mem_cons.2 ⟨hname, hplace⟩, hu⟩

/-- Only directories have something below them. -/
theorem exists_dir_of_at?_concat (h : t.at? (place ++ [name]) = some u) :
    ∃ es, t.at? place = some (.dir es) ∧ es.lookup name = some u := by
  rw [at?_concat] at h
  obtain ⟨v, hv, hentry⟩ := Option.bind_eq_some_iff.1 h
  obtain ⟨es, rfl, hlookup⟩ := exists_dir_of_child hentry
  exact ⟨es, hv, hlookup⟩

/-- Where something stands below, there is a directory. -/
theorem exists_dir_of_at?_append {p q : List String} (hq : q ≠ [])
    (h : t.at? (p ++ q) = some u) : ∃ es, t.at? p = some (.dir es) := by
  rw [at?_append] at h
  obtain ⟨v, hv, hsub⟩ := Option.bind_eq_some_iff.1 h
  obtain ⟨name, rest, rfl⟩ := List.exists_cons_of_ne_nil hq
  obtain ⟨es, -, rfl, -⟩ := exists_dir_of_at?_cons hsub
  exact ⟨es, hv⟩

/-! ### One component -/

/-- Whether a component of a path leads nowhere. -/
def isIdle (name : String) : Bool := name == "" || name == "."

theorem isIdle_eq_false_of_isName (h : isName name = true) : isIdle name = false := by
  simp only [isName, Bool.and_eq_true, bne_iff_ne] at h
  simp [isIdle, h]

theorem ne_dotDot_of_isName (h : isName name = true) : name ≠ ".." := by
  simp only [isName, Bool.and_eq_true, bne_iff_ne] at h
  exact h.1.2

theorem isFileName_iff : isFileName name = true ↔
    isName name = true ∧ isSound name = true ∧ name.utf8ByteSize ≤ nameLimit := by
  rw [isFileName, Bool.and_eq_true, Bool.and_eq_true, decide_eq_true_iff, and_assoc]

section ResolveFrom

variable {links : Nat} {here path : List String} {es : List (String × FileTree)}

@[simp] theorem resolveFrom_nil (root : FileTree) (links : Nat) (here : List String) :
    root.resolveFrom links here [] = .ok here := by
  rw [resolveFrom]

/-- A component that leads nowhere is passed, in a directory. -/
theorem resolveFrom_idle (hdir : root.at? here.reverse = some (.dir es))
    (hname : isIdle name = true) :
    root.resolveFrom links here (name :: path) = root.resolveFrom links here path := by
  have hname : name = "" ∨ name = "." := by simpa [isIdle] using hname
  rw [resolveFrom, hdir]
  exact if_pos hname

/-- The name of an entry that is no link leads to this entry. -/
theorem resolveFrom_entry (hdir : root.at? here.reverse = some (.dir es))
    (hname : isFileName name = true) (hentry : es.lookup name = some u) (hu : u.isLink = false) :
    root.resolveFrom links here (name :: path) =
      root.resolveFrom links (name :: here) path := by
  obtain ⟨hname, -, hshort⟩ := isFileName_iff.1 hname
  have hidle : ¬(name = "" ∨ name = ".") := by
    simpa [isIdle] using isIdle_eq_false_of_isName hname
  rw [resolveFrom, hdir]
  simp only [if_neg hidle, if_neg (ne_dotDot_of_isName hname), if_neg (Nat.not_lt.2 hshort), hentry]
  cases u with
  | file | dir => rfl
  | link => simp [isLink] at hu

/-- Only from a directory does a path lead on. -/
theorem exists_dir_of_resolveFrom {p there : List String} (hp : p ≠ [])
    (h : root.resolveFrom links here p = .ok there) :
    ∃ es, root.at? here.reverse = some (.dir es) := by
  obtain ⟨name, rest, rfl⟩ := List.exists_cons_of_ne_nil hp
  rcases hhere : root.at? here.reverse with - | u
  · rw [resolveFrom, hhere] at h
    cases h
  cases u with
  | file | link =>
    rw [resolveFrom, hhere] at h
    cases h
  | dir es => exact ⟨es, rfl⟩

/-- Something that is not a link stands at a place (latest component first). -/
def Stands (root : FileTree) (here : List String) : Prop :=
  ∃ u, root.at? here.reverse = some u ∧ u.isLink = false

theorem stands_of_dir (hdir : root.at? here.reverse = some (.dir es)) : root.Stands here :=
  ⟨_, hdir, rfl⟩

/-- If anything is there at all, the root is a directory. -/
theorem stands_nil (hdir : root.at? here.reverse = some (.dir es)) : root.Stands [] := by
  by_cases hnil : here = []
  · subst hnil
    exact stands_of_dir hdir
  · rw [← List.nil_append here.reverse] at hdir
    obtain ⟨es, hroot⟩ := exists_dir_of_at?_append (List.reverse_ne_nil_iff.2 hnil) hdir
    exact ⟨_, hroot, rfl⟩

/-- Above a directory there is a directory. -/
theorem stands_tail (hdir : root.at? here.reverse = some (.dir es)) : root.Stands here.tail := by
  cases here with
  | nil => exact stands_of_dir hdir
  | cons name here =>
    rw [List.reverse_cons] at hdir
    obtain ⟨es, hparent, -⟩ := exists_dir_of_at?_concat hdir
    exact stands_of_dir hparent

/-- What a component does to a look-up, whatever follows it: it fails, leads to a place, or is a
link, whose target is put in front of what follows. -/
theorem resolveFrom_cons_cases (root : FileTree) (links : Nat) (here : List String)
    (name : String) :
    (∃ e, ∀ rest, root.resolveFrom links here (name :: rest) = .error e) ∨
    (∃ there, root.Stands there ∧ ∀ rest,
      root.resolveFrom links here (name :: rest) = root.resolveFrom links there rest) ∨
    (∃ left there front, links = left + 1 ∧ root.Stands there ∧ ∀ rest,
      root.resolveFrom links here (name :: rest) =
        root.resolveFrom left there (front ++ rest)) := by
  rcases hhere : root.at? here.reverse with - | u
  · exact Or.inl ⟨.missing, fun rest ↦ by rw [resolveFrom, hhere]⟩
  cases u with
  | file | link => exact Or.inl ⟨.notDirectory, fun rest ↦ by rw [resolveFrom, hhere]⟩
  | dir es =>
    by_cases hidle : name = "" ∨ name = "."
    · refine Or.inr (Or.inl ⟨here, stands_of_dir hhere, fun rest ↦ ?_⟩)
      exact resolveFrom_idle hhere (by simpa [isIdle] using hidle)
    by_cases hup : name = ".."
    · refine Or.inr (Or.inl ⟨here.tail, stands_tail hhere, fun rest ↦ ?_⟩)
      rw [resolveFrom, hhere]
      simp only [if_neg hidle, if_pos hup]
    by_cases hlong : nameLimit < name.utf8ByteSize
    · refine Or.inl ⟨.tooLong, fun rest ↦ ?_⟩
      rw [resolveFrom, hhere]
      simp only [if_neg hidle, if_neg hup, if_pos hlong]
    rcases hentry : es.lookup name with - | u
    · refine Or.inl ⟨.missing, fun rest ↦ ?_⟩
      rw [resolveFrom, hhere]
      simp only [if_neg hidle, if_neg hup, if_neg hlong, hentry]
    -- the entry stands one name further down
    have hplace : root.at? (name :: here).reverse = some u := by
      rw [List.reverse_cons, at?_concat, hhere]
      exact hentry
    cases u with
    | file | dir =>
      refine Or.inr (Or.inl ⟨name :: here, ⟨_, hplace, rfl⟩, fun rest ↦ ?_⟩)
      rw [resolveFrom, hhere]
      simp only [if_neg hidle, if_neg hup, if_neg hlong, hentry]
    -- a link takes one of those that are left, and puts its target in front of the rest
    | link target =>
      cases links with
      | zero =>
        refine Or.inl ⟨.manyLinks, fun rest ↦ ?_⟩
        rw [resolveFrom, hhere]
        simp only [if_neg hidle, if_neg hup, if_neg hlong, hentry]
      | succ left =>
        refine Or.inr (Or.inr ⟨left, if beginsAtRoot target then [] else here,
          components target, rfl, ?_, fun rest ↦ ?_⟩)
        · split
          · exact stands_nil hhere
          · exact stands_of_dir hhere
        · rw [resolveFrom, hhere]
          simp only [if_neg hidle, if_neg hup, if_neg hlong, hentry]

/-! ### Whole paths -/

/-- What the front of a path does to a look-up, whatever follows it. -/
theorem resolveFrom_append (root : FileTree) (links : Nat) (here p : List String) :
    (∃ e, ∀ q, root.resolveFrom links here (p ++ q) = .error e) ∨
      ∃ left there, left ≤ links ∧ (root.Stands here → root.Stands there) ∧
        ∀ q, root.resolveFrom links here (p ++ q) = root.resolveFrom left there q := by
  match p with
  | [] => exact Or.inr ⟨links, here, Nat.le_refl _, id, fun q ↦ rfl⟩
  | name :: p =>
    rcases resolveFrom_cons_cases root links here name with
      ⟨e, he⟩ | ⟨there, hstands, hname⟩ | ⟨left, there, front, rfl, hstands, hname⟩
    · exact Or.inl ⟨e, fun q ↦ he (p ++ q)⟩
    · rcases resolveFrom_append root links there p with ⟨e, he⟩ | ⟨left, last, hle, hlast, hp⟩
      · exact Or.inl ⟨e, fun q ↦ (hname (p ++ q)).trans (he q)⟩
      · exact Or.inr ⟨left, last, hle, fun _ ↦ hlast hstands,
          fun q ↦ (hname (p ++ q)).trans (hp q)⟩
    · have hfront (q : List String) : root.resolveFrom (left + 1) here (name :: p ++ q) =
          root.resolveFrom left there (front ++ p ++ q) := by
        rw [List.append_assoc]
        exact hname (p ++ q)
      rcases resolveFrom_append root left there (front ++ p) with
        ⟨e, he⟩ | ⟨left', last, hle, hlast, hp⟩
      · exact Or.inl ⟨e, fun q ↦ (hfront q).trans (he q)⟩
      · exact Or.inr ⟨left', last, Nat.le_succ_of_le hle, fun _ ↦ hlast hstands,
          fun q ↦ (hfront q).trans (hp q)⟩
termination_by (links, p.length)

/-- The front of a path that leads somewhere leads somewhere. -/
theorem exists_of_resolveFrom_append {p q there : List String}
    (h : root.resolveFrom links here (p ++ q) = .ok there) :
    ∃ left mid, (root.Stands here → root.Stands mid) ∧
      ∀ q, root.resolveFrom links here (p ++ q) = root.resolveFrom left mid q := by
  rcases resolveFrom_append root links here p with ⟨e, he⟩ | ⟨left, mid, -, hmid, hq⟩
  · rw [he q] at h
    cases h
  · exact ⟨left, mid, hmid, hq⟩

/-- A look-up does not end at a link. -/
theorem Stands.resolveFrom (hhere : root.Stands here) {p there : List String}
    (h : root.resolveFrom links here p = .ok there) : root.Stands there := by
  obtain ⟨left, mid, hmid, hq⟩ := exists_of_resolveFrom_append (q := []) (by rwa [List.append_nil])
  have hend := hq []
  rw [List.append_nil, h, resolveFrom_nil] at hend
  rw [Except.ok.inj hend]
  exact hmid hhere

/-- A path that leads to a directory leads on to what the directory holds under a name. -/
theorem resolveFrom_concat {p there : List String} (h : root.resolveFrom links here p = .ok there)
    (hdir : root.at? there.reverse = some (.dir es)) (hname : isFileName name = true)
    (hentry : es.lookup name = some u) (hu : u.isLink = false) :
    root.resolveFrom links here (p ++ [name]) = .ok (name :: there) := by
  obtain ⟨left, mid, -, hq⟩ := exists_of_resolveFrom_append (q := []) (by rwa [List.append_nil])
  have hend := hq []
  rw [List.append_nil, h, resolveFrom_nil] at hend
  obtain rfl := Except.ok.inj hend
  rw [hq, resolveFrom_entry hdir hname hentry hu, resolveFrom_nil]

/-- Through real directories, the names on the way lead to a place. -/
theorem resolveFrom_of_at? (hroot : root.isProper = true) (hplace : root.at? place = some u)
    (hu : u.isLink = false) : root.resolveFrom links [] place = .ok place.reverse := by
  induction place using List.reverseRecOn generalizing u with
  | nil => exact resolveFrom_nil root links []
  | append_singleton place name ih =>
    obtain ⟨es, hdir, hentry⟩ := exists_dir_of_at?_concat hplace
    have hname := (isProper_of_lookup (isProper_at? hroot hdir).2 hentry).1
    rw [List.reverse_concat]
    exact resolveFrom_concat (ih hdir rfl) (by rwa [List.reverse_reverse]) hname hentry hu

/-! ### Components that lead nowhere -/

/-- Without the components that lead nowhere, a path leads to the same place. -/
theorem resolveFrom_filter {p there : List String}
    (h : root.resolveFrom links here p = .ok there) :
    root.resolveFrom links here (p.filter fun n ↦ !isIdle n) = .ok there := by
  induction p generalizing links here with
  | nil => exact h
  | cons name p ih =>
    by_cases hname : isIdle name = true
    · obtain ⟨es, hdir⟩ := exists_dir_of_resolveFrom (List.cons_ne_nil _ _) h
      rw [resolveFrom_idle hdir hname] at h
      rw [List.filter_cons_of_neg (by simp [hname])]
      exact ih h
    · obtain ⟨left, mid, -, hq⟩ := exists_of_resolveFrom_append (p := [name]) h
      rw [List.filter_cons_of_pos (by simp [hname])]
      exact (hq _).trans (ih ((hq p).symm.trans h))

/-- Components at the front that lead nowhere are passed. -/
theorem resolveFrom_idle_append (hdir : root.at? here.reverse = some (.dir es))
    {front : List String} (hfront : ∀ n ∈ front, isIdle n = true) (p : List String) :
    root.resolveFrom links here (front ++ p) = root.resolveFrom links here p := by
  induction front with
  | nil => rfl
  | cons name front ih =>
    obtain ⟨hname, hrest⟩ := List.forall_mem_cons.1 hfront
    rw [List.cons_append, resolveFrom_idle hdir hname, ih hrest]

end ResolveFrom

/-! ### Written paths -/

section Locate

variable {path : String}

/-- A path leads somewhere if it can be looked up at all and its components lead there. -/
theorem resolve_eq_some_iff : root.resolve path = some place ↔
    isSound path = true ∧ isLongPath path = false ∧
      root.resolveFrom linkLimit [] (components path) = .ok place.reverse := by
  rw [resolve, locate]
  by_cases hsound : isSound path = true
  · by_cases hlong : isLongPath path = true
    · simp [hsound, hlong, Except.toOption]
    · rcases root.resolveFrom linkLimit [] (components path) with e | there
      · simp [hsound, hlong, Except.toOption, Except.map]
      · simp only [hsound, hlong, Except.map, Except.toOption, Except.ok.injEq]
        simp [List.reverse_eq_iff]
  · simp [hsound, Except.toOption]

/-- Through real directories, a path that is written with the names of a place leads there. -/
theorem resolve_of_at? (hroot : root.isProper = true) (hplace : root.at? place = some u)
    (hu : u.isLink = false) (hne : place ≠ []) (hsound : isSound path = true)
    (hshort : isLongPath path = false) (hcomponents : components path = "" :: place) :
    root.resolve path = some place := by
  obtain ⟨es, hdir⟩ := exists_dir_of_at?_append (p := []) hne hplace
  have htop : root.at? ([] : List String).reverse = some (.dir es) := hdir
  refine resolve_eq_some_iff.2 ⟨hsound, hshort, ?_⟩
  rw [hcomponents, resolveFrom_idle htop rfl]
  exact resolveFrom_of_at? hroot hplace hu

/-- To locate a path is to resolve it, but for the reason why it leads nowhere. -/
theorem locate_eq_ok_iff : root.locate path = .ok place ↔ root.resolve path = some place := by
  rw [resolve]
  cases root.locate path <;> simp [Except.toOption]

/-- A path is refused if it is too long, or if a name is too long that comes up on its way. -/
theorem refuses_iff : root.refuses path = true ↔ isSound path = true ∧
    (isLongPath path = true ∨
      root.resolveFrom linkLimit [] (components path) = .error .tooLong) := by
  rw [refuses, locate]
  by_cases hsound : isSound path = true
  · by_cases hlong : isLongPath path = true
    · simp [hsound, hlong]
    · rcases root.resolveFrom linkLimit [] (components path) with e | there
      · cases e <;> simp [hsound, hlong, Except.map]
      · simp [hsound, hlong, Except.map]
  · simp [hsound]

/-- What leads somewhere is not refused. -/
theorem refuses_of_resolve (h : root.resolve path = some place) : root.refuses path = false := by
  rw [resolve] at h
  rw [refuses]
  rcases hlocate : root.locate path with e | there
  · rw [hlocate] at h
    cases h
  · rfl

/-- A path leads to a file if a regular file stands at its real place. -/
theorem isFile_iff : root.isFile path = true ↔
    ∃ place bytes, root.resolve path = some place ∧ root.at? place = some (.file bytes) := by
  rw [isFile, find?]
  rcases root.resolve path with - | there
  · simp
  · rcases hthere : root.at? there with - | u
    · simp [hthere]
    · cases u <;> simp [hthere]

end Locate

end RepoSurvey.FileTree
