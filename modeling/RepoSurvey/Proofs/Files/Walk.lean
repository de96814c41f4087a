import Mathlib.Data.Finset.Card
import Mathlib.Data.List.Nodup
import RepoSurvey.Proofs.Files.Components

/-!
# The walk of a scan

`Scope.Walks` is the walk of a scan with no bound on how long it goes on: it ends when no directory
is left to enter, or at a fault. Every directory is marked as visited before it is entered, so the
directories that are not marked become fewer and the walk ends (`walks_walk`).

What a walk has entered is told by three laws. No place is entered twice (`Walks.nodup_places`);
everything that it enters is led to, that is, each step on the way to it was listed and followed
(`Walks.leads`); and if no fault ends the walk, a directory that is listed and followed somewhere
has been visited before, or is entered under the path of a visit that is led to, unless that path is
refused (`Walks.closed`).

All that is listed and is no directory is looked up in turn. So a walk finds the files among that,
as far as the first path that is refused (`Walks.found_eq`), and that path is its fault
(`Walks.fault_eq`).
-/

namespace RepoSurvey

open RepoSurvey.FileTree

/-! ### The directories of a tree -/

namespace FileTree

mutual

/-- The places of the directories of a tree. -/
def directoryPlaces : FileTree → List (List String)
  | .dir entries => [] :: entryPlaces entries
  | _ => []

/-- The places of the directories of several trees, each below its name. -/
def entryPlaces : List (String × FileTree) → List (List String)
  | [] => []
  | (name, t) :: es => (directoryPlaces t).map (name :: ·) ++ entryPlaces es

end

mutual

/-- A tree has as many places of directories as it has directories. -/
theorem length_directoryPlaces : (t : FileTree) → t.directoryPlaces.length = t.directoryCount
  | .dir entries => by
    rw [directoryPlaces, directoryCount, List.length_cons, length_entryPlaces entries, Nat.add_comm]
  | .file _ | .link _ => rfl

theorem length_entryPlaces :
    (es : List (String × FileTree)) → (entryPlaces es).length = directoryCounts es
  | [] => rfl
  | (_, t) :: es => by
    rw [entryPlaces, directoryCounts, List.length_append, List.length_map,
      length_directoryPlaces t, length_entryPlaces es]

end

theorem mem_entryPlaces {es : List (String × FileTree)} {name : String} {t : FileTree}
    {place : List String} (h : (name, t) ∈ es) (hplace : place ∈ t.directoryPlaces) :
    name :: place ∈ entryPlaces es := by
  induction es with
  | nil => cases h
  | cons e es ih =>
    rw [entryPlaces, List.mem_append]
    rcases List.mem_cons.1 h with rfl | h
    · exact Or.inl (List.mem_map_of_mem hplace)
    · exact Or.inr (ih h)

/-- The directories below a place are directories of the tree. -/
theorem append_mem_directoryPlaces {t u : FileTree} {place below : List String}
    (h : t.at? place = some u) (hbelow : below ∈ u.directoryPlaces) :
    place ++ below ∈ t.directoryPlaces := by
  induction place generalizing t with
  | nil =>
    obtain rfl : t = u := by simpa using h
    exact hbelow
  | cons name place ih =>
    obtain ⟨es, child, rfl, hlookup, hchild⟩ := exists_dir_of_at?_cons h
    exact List.mem_cons_of_mem _ (mem_entryPlaces (Assoc.mem_of_lookup hlookup) (ih hchild))

/-- What is a directory stands at one of the places. -/
theorem mem_directoryPlaces {t : FileTree} {place : List String}
    {es : List (String × FileTree)} (h : t.at? place = some (.dir es)) :
    place ∈ t.directoryPlaces := by
  simpa using append_mem_directoryPlaces h (List.mem_cons_self (a := []))

/-- A directory that is an entry of a directory is one of the tree, whichever entry of its name it
is. -/
theorem concat_mem_directoryPlaces {t : FileTree} {place : List String} {name : String}
    {es es' : List (String × FileTree)} (h : t.at? place = some (.dir es))
    (hmem : (name, .dir es') ∈ es) : place ++ [name] ∈ t.directoryPlaces :=
  append_mem_directoryPlaces h
    (List.mem_cons_of_mem _ (mem_entryPlaces hmem (List.mem_cons_self (a := []))))

end FileTree

namespace Scan

namespace Scope

variable {s : Scope} {visited : List (List String)} {path p : List String} {v : Visit} {d : Listed}
  {es : List (String × FileTree)}

/-! ### What a directory lists -/

/-- A directory can be entered if one stands at its place and its path is not refused. -/
theorem entries?_eq_some_iff : s.entries? v = some es ↔
    s.root.refuses (pathBelow s.directory v.path) = false ∧
      s.root.at? v.place = some (.dir es) := by
  rw [entries?]
  by_cases hrefused : s.root.refuses (pathBelow s.directory v.path) = true
  · simp [hrefused]
  · rcases hplace : s.root.at? v.place with - | u
    · simp [hrefused]
    · cases u <;> simp [hrefused]

/-- A link is listed if its path leads to a directory, with the real place of that. -/
theorem listed?_link_eq_some_iff {name target : String} :
    s.listed? v name (.link target) = some d ↔ s.resolve (v.path ++ [name]) = some d.place ∧
      d = ⟨name, true, d.place⟩ ∧ ∃ es, s.root.at? d.place = some (.dir es) := by
  rw [listed?, Option.bind_eq_bind, Option.bind_eq_some_iff]
  constructor
  · rintro ⟨place, hplace, hd⟩
    rcases htarget : s.root.at? place with - | u
    · simp [htarget] at hd
    · cases u with
      | file | link => simp [htarget] at hd
      | dir es =>
        simp only [htarget, Option.some.injEq] at hd
        subst hd
        exact ⟨hplace, rfl, es, htarget⟩
  · rintro ⟨hplace, hd, es, hes⟩
    refine ⟨d.place, hplace, ?_⟩
    rw [hes]
    exact congrArg some hd.symm

/-- A directory is listed under the name of its entry, as a link exactly if the entry is one. -/
theorem listed?_name_linked {name : String} {entry : FileTree}
    (h : s.listed? v name entry = some d) : d.name = name ∧ d.linked = entry.isLink := by
  cases entry with
  | file => cases h
  | dir =>
    obtain rfl := Option.some.inj h
    exact ⟨rfl, rfl⟩
  | link target =>
    obtain ⟨-, hd, -⟩ := listed?_link_eq_some_iff.1 h
    rw [hd]
    exact ⟨rfl, rfl⟩

/-- A directory lists those of its entries that are directories or lead to one. -/
theorem mem_listing : d ∈ s.listing v es ↔
    ∃ entry, (d.name, entry) ∈ es ∧ s.listed? v d.name entry = some d := by
  rw [listing, List.mem_filterMap]
  constructor
  · rintro ⟨⟨name, entry⟩, hmem, hlisted⟩
    obtain rfl := (listed?_name_linked hlisted).1
    exact ⟨entry, hmem, hlisted⟩
  · rintro ⟨entry, hmem, hlisted⟩
    exact ⟨_, hmem, hlisted⟩

/-- Whatever is listed is a directory of the tree. -/
theorem mem_directoryPlaces_of_mem_listing (hes : s.entries? v = some es)
    (hd : d ∈ s.listing v es) : d.place ∈ s.root.directoryPlaces := by
  obtain ⟨entry, hmem, hlisted⟩ := mem_listing.1 hd
  cases entry with
  | file => cases hlisted
  | dir =>
    have hplace : d.place = v.place ++ [d.name] :=
      congrArg Listed.place (Option.some.inj hlisted).symm
    rw [hplace]
    exact concat_mem_directoryPlaces (entries?_eq_some_iff.1 hes).2 hmem
  | link target =>
    obtain ⟨-, -, es', hes'⟩ := listed?_link_eq_some_iff.1 hlisted
    exact mem_directoryPlaces hes'

/-! ### What else a directory holds -/

/-- The paths of the entries of a directory that are no directories, in order. -/
def otherPaths (s : Scope) (v : Visit) : List (List String) :=
  match s.entries? v with
  | some es => (s.otherNames v es).map fun name ↦ v.path ++ [name]
  | none => []

/-- The paths of the other entries are made of their sorted names. -/
theorem otherPaths_eq (hes : s.entries? v = some es) :
    s.otherPaths v = (s.otherNames v es).map fun name ↦ v.path ++ [name] := by
  rw [otherPaths, hes]

/-- The other entries are those that are not listed. -/
theorem mem_otherPaths : p ∈ s.otherPaths v ↔ ∃ es name entry, s.entries? v = some es ∧
    (name, entry) ∈ es ∧ s.listed? v name entry = none ∧ p = v.path ++ [name] := by
  rcases hes : s.entries? v with - | es
  · simp [otherPaths, hes]
  · rw [otherPaths_eq hes]
    simp only [otherNames, Text.sortStrings, List.mem_map, List.mem_mergeSort, List.mem_filter,
      Option.isNone_iff_eq_none, Option.some.injEq]
    constructor
    · rintro ⟨name, ⟨⟨_, entry⟩, ⟨hmem, hlisted⟩, rfl⟩, rfl⟩
      exact ⟨es, _, entry, rfl, hmem, hlisted, rfl⟩
    · rintro ⟨_, name, entry, rfl, hmem, hlisted, rfl⟩
      exact ⟨name, ⟨_, ⟨hmem, hlisted⟩, rfl⟩, rfl⟩

/-- A path that is not left out, and is refused where it is looked up. -/
def refuses (s : Scope) (p : List String) : Bool :=
  !s.ignores p && s.root.refuses (pathBelow s.directory p)

/-- A path that is not left out, and leads to a file. -/
def accepts (s : Scope) (p : List String) : Bool :=
  !s.ignores p && s.root.isFile (pathBelow s.directory p)

/-- The files among some names are those in front of the first path that is refused, and that path
is the fault. -/
theorem filesAmong_eq (s : Scope) (path names : List String) :
    s.filesAmong path names =
      (((names.map fun name ↦ path ++ [name]).takeWhile fun p ↦ !s.refuses p).filter s.accepts,
        ((names.map fun name ↦ path ++ [name]).find? s.refuses).map
          fun p ↦ ⟨pathBelow s.directory p⟩) := by
  induction names with
  | nil => rfl
  | cons name names ih =>
    rw [filesAmong, ih, List.map_cons, List.takeWhile_cons, List.find?_cons]
    by_cases hignored : s.ignores (path ++ [name]) = true
    · simp [refuses, accepts, hignored]
    by_cases hrefused : s.root.refuses (pathBelow s.directory (path ++ [name])) = true
    · simp [refuses, hignored, hrefused, checkFile, unlessRefused]
    · cases hfile : s.root.isFile (pathBelow s.directory (path ++ [name])) <;>
        simp [refuses, accepts, hignored, hrefused, hfile, checkFile, unlessRefused]

/-! ### What is entered next -/

/-- A scan enters a directory that is listed, unless it has been visited. -/
def Follows (s : Scope) (path : List String) (d : Listed) : Prop :=
  s.ignores (path ++ [d.name]) = false ∧ ¬(d.linked = true ∧ s.top <+: d.place)

/-- What is selected of some directories: those that are followed and have not been visited, each
place once; and they are visited then. -/
structure Selects (s : Scope) (path : List String) (visited : List (List String))
    (ds : List Listed) (visited' : List (List String)) (visits : List Visit) : Prop where
  visited_iff : ∀ p, p ∈ visited' ↔ p ∈ visited ∨ p ∈ visits.map Visit.place
  nodup : (visits.map Visit.place).Nodup
  not_visited : ∀ v ∈ visits, v.place ∉ visited
  exists_listed : ∀ v ∈ visits, ∃ d ∈ ds, s.Follows path d ∧ v = ⟨d.place, path ++ [d.name]⟩
  complete : ∀ d ∈ ds, s.Follows path d → d.place ∈ visited'

/-- A directory that is not followed, or has been visited, is left out. -/
theorem Selects.skip {ds : List Listed} {visited' : List (List String)} {visits : List Visit}
    (h : s.Selects path visited ds visited' visits) (hd : s.Follows path d → d.place ∈ visited) :
    s.Selects path visited (d :: ds) visited' visits where
  visited_iff := h.visited_iff
  nodup := h.nodup
  not_visited := h.not_visited
  exists_listed v hv := by
    obtain ⟨d', hd', hfollows⟩ := h.exists_listed v hv
    exact ⟨d', List.mem_cons_of_mem d hd', hfollows⟩
  complete := by
    refine List.forall_mem_cons.2 ⟨fun hfollows ↦ ?_, h.complete⟩
    exact (h.visited_iff _).2 (Or.inl (hd hfollows))

/-- A directory that is followed, and is new, is entered first and is visited from then on. -/
theorem Selects.take {ds : List Listed} {visited' : List (List String)} {visits : List Visit}
    (h : s.Selects path (d.place :: visited) ds visited' visits) (hd : s.Follows path d)
    (hnew : d.place ∉ visited) :
    s.Selects path visited (d :: ds) visited' (⟨d.place, path ++ [d.name]⟩ :: visits) where
  visited_iff p := by
    rw [h.visited_iff, List.map_cons, List.mem_cons, List.mem_cons, or_assoc, or_left_comm]
  nodup := by
    rw [List.map_cons, List.nodup_cons]
    refine ⟨fun hmem ↦ ?_, h.nodup⟩
    obtain ⟨v, hv, heq⟩ := List.mem_map.1 hmem
    exact h.not_visited v hv (heq ▸ List.mem_cons_self)
  not_visited := by
    refine List.forall_mem_cons.2 ⟨hnew, fun v hv hmem ↦ ?_⟩
    exact h.not_visited v hv (List.mem_cons_of_mem _ hmem)
  exists_listed := by
    refine List.forall_mem_cons.2 ⟨⟨d, List.mem_cons_self, hd, rfl⟩, fun v hv ↦ ?_⟩
    obtain ⟨d', hd', hfollows⟩ := h.exists_listed v hv
    exact ⟨d', List.mem_cons_of_mem d hd', hfollows⟩
  complete := by
    refine List.forall_mem_cons.2 ⟨fun _ ↦ ?_, h.complete⟩
    exact (h.visited_iff _).2 (Or.inl List.mem_cons_self)

/-- What is selected is what should be, by induction on what is listed. -/
theorem selects_select (s : Scope) (path : List String) (visited : List (List String))
    (ds : List Listed) :
    s.Selects path visited ds (s.select path visited ds).1 (s.select path visited ds).2.1 := by
  induction ds generalizing visited with
  | nil => exact ⟨by simp [select], List.nodup_nil, by simp [select], by simp [select], by simp⟩
  | cons d ds ih =>
    rw [select]
    by_cases hignored : s.ignores (path ++ [d.name]) = true
    · simp only [if_pos hignored]
      exact (ih visited).skip fun hd ↦ by simp [hd.1] at hignored
    · simp only [if_neg hignored]
      by_cases hinner : d.linked = true ∧ s.top <+: d.place
      · simp only [if_pos hinner]
        exact (ih visited).skip fun hd ↦ absurd hinner hd.2
      · simp only [if_neg hinner]
        by_cases hvisited : d.place ∈ visited
        · simp only [if_pos hvisited]
          exact (ih visited).skip fun _ ↦ hvisited
        · simp only [if_neg hvisited]
          exact (ih _).take ⟨by simpa using hignored, hinner⟩ hvisited

/-- The directories that are left out are no files. -/
theorem filterMap_file?_select (s : Scope) (path : List String) (visited : List (List String))
    (ds : List Listed) : (s.select path visited ds).2.2.filterMap Event.file? = [] := by
  induction ds generalizing visited with
  | nil => rfl
  | cons d ds ih =>
    rw [select]
    split
    · exact ih visited
    · split
      · exact ih visited
      · split
        · exact ih visited
        · exact ih _

/-- To enter a directory selects from all that it lists. Sorting does not matter for which places
are selected. -/
theorem selects_enter (s : Scope) (visited : List (List String)) (v : Visit)
    (es : List (String × FileTree)) :
    s.Selects v.path visited (s.listing v es) (s.enter visited v es).visited
      (s.enter visited v es).visits := by
  have h := selects_select s v.path visited ((s.listing v es).mergeSort leListed)
  exact ⟨h.visited_iff, h.nodup, h.not_visited,
    fun u hu ↦ by simpa only [List.mem_mergeSort] using h.exists_listed u hu,
    fun d hd ↦ h.complete d (List.mem_mergeSort.2 hd)⟩

/-- The first path that is refused among the other entries is the fault. -/
theorem fault_enter (hes : s.entries? v = some es) : (s.enter visited v es).fault =
    ((s.otherPaths v).find? s.refuses).map fun p ↦ ⟨pathBelow s.directory p⟩ := by
  rw [enter, filesAmong_eq, otherPaths_eq hes]

/-- The files that are come across are those in front of the first path that is refused. -/
theorem filterMap_file?_enter (hes : s.entries? v = some es) :
    (s.enter visited v es).events.filterMap Event.file? =
      ((s.otherPaths v).takeWhile fun p ↦ !s.refuses p).filter s.accepts := by
  rw [enter, filesAmong_eq, otherPaths_eq hes, List.filterMap_append, filterMap_file?_select,
    List.nil_append, List.filterMap_map]
  exact List.filterMap_some

/-! ### Directories that are led to -/

/-- A directory is led to if each step on the way to it was listed and followed, and none led back
to the scanned directory itself. -/
inductive Leads (s : Scope) : Visit → Prop
  | top : Leads s ⟨s.top, []⟩
  | sub {v : Visit} {es : List (String × FileTree)} {d : Listed} (hv : Leads s v)
    (hes : s.entries? v = some es) (hd : d ∈ s.listing v es) (hfollows : s.Follows v.path d)
    (htop : d.place ≠ s.top) : Leads s ⟨d.place, v.path ++ [d.name]⟩

/-- Whatever is entered from a directory that is led to is led to. -/
theorem leads_of_mem_visits {u : Visit} (hv : s.Leads v) (hes : s.entries? v = some es)
    (htop : s.top ∈ visited) (hu : u ∈ (s.enter visited v es).visits) : s.Leads u := by
  have hselects := selects_enter s visited v es
  obtain ⟨d, hd, hfollows, rfl⟩ := hselects.exists_listed u hu
  refine .sub hv hes hd hfollows fun heq ↦ ?_
  exact hselects.not_visited _ hu (heq ▸ htop)

/-! ### The walk without a bound -/

/-- What the directories on a stack and all that is found in them come to, one after the other,
until none is left or a fault ends it. -/
inductive Walks (s : Scope) :
    (visited : List (List String)) → (stack : List Visit) → Course → Prop
  | done (visited : List (List String)) : Walks s visited [] {}
  | skip {visited : List (List String)} {v : Visit} {stack : List Visit} {rest : Course}
    (hes : s.entries? v = none) (hrest : Walks s visited stack rest) :
    Walks s visited (v :: stack) rest
  | cut {visited : List (List String)} {v : Visit} {es : List (String × FileTree)}
    {fault : LongPath} (stack : List Visit) (hes : s.entries? v = some es)
    (hfault : (s.enter visited v es).fault = some fault) :
    Walks s visited (v :: stack) ⟨[(v, (s.enter visited v es).events)], some fault⟩
  | enter {visited : List (List String)} {v : Visit} {es : List (String × FileTree)}
    {stack : List Visit} {rest : Course} (hes : s.entries? v = some es)
    (hfault : (s.enter visited v es).fault = none)
    (hrest : Walks s (s.enter visited v es).visited ((s.enter visited v es).visits ++ stack)
      rest) :
    Walks s visited (v :: stack)
      ⟨(v, (s.enter visited v es).events) :: rest.visits, rest.fault⟩

/-- The number of directories that have not been visited. -/
def remaining (s : Scope) (visited : List (List String)) : Nat :=
  (s.root.directoryPlaces.toFinset \ visited.toFinset).card

/-- Whatever is to be entered is a directory that was not visited and is visited now. -/
theorem remaining_enter (visited : List (List String)) (hes : s.entries? v = some es) :
    s.remaining (s.enter visited v es).visited + (s.enter visited v es).visits.length ≤
      s.remaining visited := by
  have h := selects_enter s visited v es
  set visits := (s.enter visited v es).visits
  have hcard : (visits.map Visit.place).toFinset.card = visits.length := by
    rw [List.toFinset_card_of_nodup h.nodup, List.length_map]
  rw [remaining, remaining, ← hcard, ← Finset.card_union_of_disjoint]
  · refine Finset.card_le_card fun p hp ↦ ?_
    simp only [Finset.mem_union, Finset.mem_sdiff, List.mem_toFinset] at hp ⊢
    rcases hp with ⟨hdir, hnot⟩ | hvisit
    · exact ⟨hdir, fun hmem ↦ hnot ((h.visited_iff p).2 (Or.inl hmem))⟩
    · obtain ⟨u, hu, rfl⟩ := List.mem_map.1 hvisit
      obtain ⟨d, hd, -, rfl⟩ := h.exists_listed u hu
      exact ⟨mem_directoryPlaces_of_mem_listing hes hd, h.not_visited _ hu⟩
  · rw [Finset.disjoint_left]
    intro p hp hvisit
    simp only [Finset.mem_sdiff, List.mem_toFinset] at hp hvisit
    exact hp.2 ((h.visited_iff p).2 (Or.inr hvisit))

/-- With fuel for every directory that has not been visited, a walk goes on until it ends. -/
theorem walks_walk (s : Scope) {fuel : Nat} {visited : List (List String)} {stack : List Visit}
    (h : s.remaining visited + stack.length ≤ fuel) :
    s.Walks visited stack (s.walk fuel visited stack) := by
  induction fuel generalizing visited stack with
  | zero =>
    have hnil : stack = [] := List.length_eq_zero_iff.1 (by omega)
    subst hnil
    exact .done visited
  | succ fuel ih =>
    cases stack with
    | nil => exact .done visited
    | cons v stack =>
      rw [List.length_cons] at h
      rcases hes : s.entries? v with - | es
      · simp only [walk, hes]
        exact .skip hes (ih (by omega))
      · rcases hfault : (s.enter visited v es).fault with - | fault
        · have hremaining := remaining_enter visited hes
          simp only [walk, hes, hfault]
          exact .enter hes hfault (ih (by rw [List.length_append]; omega))
        · simp only [walk, hes, hfault]
          exact .cut stack hes hfault

/-! ### What a walk enters -/

namespace Walks

variable {stack : List Visit} {c : Course}

/-- Whatever is visited can be entered. -/
theorem exists_entries (h : s.Walks visited stack c) (hv : v ∈ c.visits.map Prod.fst) :
    ∃ es, s.entries? v = some es := by
  induction h with
  | done => cases hv
  | skip _ _ ih => exact ih hv
  | cut _ hes =>
    obtain rfl := List.mem_singleton.1 hv
    exact ⟨_, hes⟩
  | enter hes _ _ ih =>
    rcases List.mem_cons.1 hv with rfl | hv
    · exact ⟨_, hes⟩
    · exact ih hv

/-- Without a fault, all that waits to be entered is entered, unless its path is refused. -/
theorem mem_of_mem_stack (h : s.Walks visited stack c) (hfault : c.fault = none)
    (hv : v ∈ stack) : s.entries? v = none ∨ v ∈ c.visits.map Prod.fst := by
  induction h with
  | done => cases hv
  | skip hes _ ih =>
    rcases List.mem_cons.1 hv with rfl | hv
    · exact Or.inl hes
    · exact ih hfault hv
  | cut => cases hfault
  | enter _ _ _ ih =>
    rcases List.mem_cons.1 hv with rfl | hv
    · exact Or.inr List.mem_cons_self
    · exact (ih hfault (List.mem_append_right _ hv)).imp_right (List.mem_cons_of_mem _)

/-- The places on the stack are visited, each once. -/
structure Marked (visited : List (List String)) (stack : List Visit) : Prop where
  visited : ∀ v ∈ stack, v.place ∈ visited
  nodup : (stack.map Visit.place).Nodup

theorem Marked.tail (h : Marked visited (v :: stack)) : Marked visited stack :=
  ⟨(List.forall_mem_cons.1 h.visited).2, (List.nodup_cons.1 h.nodup).2⟩

/-- Marks are kept when a directory is entered: what is to be entered next is new, and is marked. -/
theorem Marked.enter (h : Marked visited (v :: stack)) (s : Scope)
    (es : List (String × FileTree)) :
    Marked (s.enter visited v es).visited ((s.enter visited v es).visits ++ stack) := by
  have hselects := selects_enter s visited v es
  obtain ⟨hvisited, hnodup⟩ := h.tail
  refine ⟨fun u hu ↦ (hselects.visited_iff _).2 ?_, ?_⟩
  · rcases List.mem_append.1 hu with hu | hu
    · exact Or.inr (List.mem_map_of_mem hu)
    · exact Or.inl (hvisited u hu)
  · rw [List.map_append]
    refine List.nodup_append.2 ⟨hselects.nodup, hnodup, ?_⟩
    rintro p hp q hq rfl
    obtain ⟨u, hu, rfl⟩ := List.mem_map.1 hp
    obtain ⟨u', hu', heq⟩ := List.mem_map.1 hq
    exact hselects.not_visited u hu (heq ▸ hvisited u' hu')

/-- What is entered was on the stack, or had not been visited. -/
theorem mem_stack_or_not_visited (h : s.Walks visited stack c) (hv : v ∈ c.visits.map Prod.fst) :
    v ∈ stack ∨ v.place ∉ visited := by
  induction h with
  | done => cases hv
  | skip _ _ ih => exact (ih hv).imp_left (List.mem_cons_of_mem _)
  | cut => exact Or.inl (List.mem_singleton.1 hv ▸ List.mem_cons_self)
  | @enter visited u es stack rest _ _ _ ih =>
    have hselects := selects_enter s visited u es
    rcases List.mem_cons.1 hv with rfl | hv
    · exact Or.inl List.mem_cons_self
    · rcases ih hv with hmem | hnot
      · rcases List.mem_append.1 hmem with hmem | hmem
        · exact Or.inr (hselects.not_visited v hmem)
        · exact Or.inl (List.mem_cons_of_mem u hmem)
      · exact Or.inr fun hmem ↦ hnot ((hselects.visited_iff _).2 (Or.inl hmem))

/-- No place is entered twice. -/
theorem nodup_places (h : s.Walks visited stack c) (hmarked : Marked visited stack) :
    (c.visits.map fun e ↦ e.1.place).Nodup := by
  induction h with
  | done => exact List.nodup_nil
  | skip _ _ ih => exact ih hmarked.tail
  | cut => exact List.nodup_singleton _
  | @enter visited u es stack rest _ _ hrest ih =>
    rw [List.map_cons, List.nodup_cons]
    refine ⟨fun hmem ↦ ?_, ih (hmarked.enter s es)⟩
    obtain ⟨e, he, heq⟩ := List.mem_map.1 hmem
    have hvisited : u.place ∈ visited := hmarked.visited u List.mem_cons_self
    have hselects := selects_enter s visited u es
    -- whatever is entered later stands on the stack by another place, or was not visited
    rcases hrest.mem_stack_or_not_visited (List.mem_map_of_mem he) with hstack | hnot
    · rcases List.mem_append.1 hstack with hvisit | hstack
      · exact hselects.not_visited _ hvisit (heq ▸ hvisited)
      · have hnodup := (List.nodup_cons.1 hmarked.nodup).1
        exact hnodup (List.mem_map.2 ⟨e.1, hstack, heq⟩)
    · exact hnot (heq ▸ (hselects.visited_iff _).2 (Or.inl hvisited))

/-- The scanned directory is visited, and all that waits to be entered is led to. -/
structure Led (s : Scope) (visited : List (List String)) (stack : List Visit) : Prop where
  top : s.top ∈ visited
  leads : ∀ v ∈ stack, s.Leads v

theorem Led.tail (h : Led s visited (v :: stack)) : Led s visited stack :=
  ⟨h.top, (List.forall_mem_cons.1 h.leads).2⟩

/-- What is to be entered next is led to. -/
theorem Led.enter (h : Led s visited (v :: stack)) (hes : s.entries? v = some es) :
    Led s (s.enter visited v es).visited ((s.enter visited v es).visits ++ stack) := by
  obtain ⟨hv, hstack⟩ := List.forall_mem_cons.1 h.leads
  refine ⟨((selects_enter s visited v es).visited_iff _).2 (Or.inl h.top),
    List.forall_mem_append.2 ⟨fun u hu ↦ ?_, hstack⟩⟩
  exact leads_of_mem_visits hv hes h.top hu

/-- All that a walk enters is led to. -/
theorem leads (h : s.Walks visited stack c) (hled : Led s visited stack)
    (hv : v ∈ c.visits.map Prod.fst) : s.Leads v := by
  induction h with
  | done => cases hv
  | skip _ _ ih => exact ih hled.tail hv
  | cut => exact List.mem_singleton.1 hv ▸ hled.leads _ List.mem_cons_self
  | enter hes _ _ ih =>
    rcases List.mem_cons.1 hv with rfl | hv
    · exact hled.leads _ List.mem_cons_self
    · exact ih (hled.enter hes) hv

/-- Without a fault, a directory that is listed and followed has been visited before, or there is a
visit to its place that is led to, which is entered unless its path is refused. -/
theorem closed (h : s.Walks visited stack c) (hfault : c.fault = none)
    (hled : Led s visited stack) (hv : v ∈ c.visits.map Prod.fst)
    (hes : s.entries? v = some es) (hd : d ∈ s.listing v es) (hfollows : s.Follows v.path d) :
    d.place ∈ visited ∨ ∃ w, w.place = d.place ∧ s.Leads w ∧
      (s.entries? w = none ∨ w ∈ c.visits.map Prod.fst) := by
  induction h with
  | done => cases hv
  | skip _ _ ih => exact ih hfault hled.tail hv
  | cut => cases hfault
  | @enter visited u es' stack rest hes' _ hrest ih =>
    have hselects := selects_enter s visited u es'
    have hled' := hled.enter hes'
    have hplace : d.place ∈ (s.enter visited u es').visited ∨ ∃ w, w.place = d.place ∧
        s.Leads w ∧ (s.entries? w = none ∨ w ∈ rest.visits.map Prod.fst) := by
      rcases List.mem_cons.1 hv with rfl | hv
      · obtain rfl := Option.some.inj (hes.symm.trans hes')
        exact Or.inl (hselects.complete d hd hfollows)
      · exact ih hfault hled' hv
    -- a directory that is listed here has been visited before, or it waits on the stack
    rcases hplace with hmem | ⟨w, hw, hleads, hentered⟩
    · rcases (hselects.visited_iff _).1 hmem with hmem | hmem
      · exact Or.inl hmem
      · obtain ⟨w, hw, heq⟩ := List.mem_map.1 hmem
        have hstack := List.mem_append_left stack hw
        exact Or.inr ⟨w, heq, hled'.leads w hstack,
          (hrest.mem_of_mem_stack hfault hstack).imp_right (List.mem_cons_of_mem _)⟩
    · exact Or.inr ⟨w, hw, hleads, hentered.imp_right (List.mem_cons_of_mem _)⟩

/-- A walk enters no more directories than there are. -/
theorem length_visits_le (h : s.Walks visited stack c) (hmarked : Marked visited stack) :
    c.visits.length ≤ s.root.directoryCount := by
  have hplaces : (c.visits.map fun e ↦ e.1.place) ⊆ s.root.directoryPlaces := by
    intro place hplace
    obtain ⟨e, he, rfl⟩ := List.mem_map.1 hplace
    obtain ⟨es, hes⟩ := h.exists_entries (List.mem_map_of_mem he)
    exact mem_directoryPlaces (entries?_eq_some_iff.1 hes).2
  have hle := (List.subperm_of_subset (h.nodup_places hmarked) hplaces).length_le
  rwa [List.length_map, length_directoryPlaces] at hle

/-- A directory is entered from one that has been entered before. So the way to it has fewer steps
than there are directories that are entered. -/
theorem length_path_lt (h : s.Walks visited stack c) {n : Nat}
    (hstack : ∀ v ∈ stack, v.path.length ≤ n) (hv : v ∈ c.visits.map Prod.fst) :
    v.path.length < n + c.visits.length := by
  induction h generalizing n with
  | done => cases hv
  | skip _ _ ih => exact ih (List.forall_mem_cons.1 hstack).2 hv
  | cut =>
    obtain rfl := List.mem_singleton.1 hv
    exact Nat.lt_succ_of_le (hstack _ List.mem_cons_self)
  | @enter visited u es stack rest _ _ _ ih =>
    obtain ⟨hu, hstack⟩ := List.forall_mem_cons.1 hstack
    rw [List.length_cons]
    rcases List.mem_cons.1 hv with rfl | hv
    · exact Nat.lt_of_le_of_lt hu (by omega)
    -- directories that are entered from here stand one step further down
    · have hnext : ∀ w ∈ (s.enter visited u es).visits ++ stack, w.path.length ≤ n + 1 := by
        refine List.forall_mem_append.2 ⟨fun w hw ↦ ?_, fun w hw ↦ Nat.le_succ_of_le (hstack w hw)⟩
        obtain ⟨d, -, -, rfl⟩ := (selects_enter s visited u es).exists_listed w hw
        rw [List.length_append, List.length_singleton]
        exact Nat.succ_le_succ hu
      have hlt := ih hnext hv
      omega

/-! ### What a walk finds -/

/-- All that is no directory in the directories that a walk enters, in order. -/
def others (s : Scope) (c : Course) : List (List String) :=
  (c.visits.map Prod.fst).flatMap s.otherPaths

/-- The fault of a walk is the first path that is refused, over all directories. -/
theorem fault_eq (h : s.Walks visited stack c) :
    c.fault = ((others s c).find? s.refuses).map fun p ↦ ⟨pathBelow s.directory p⟩ := by
  induction h with
  | done => rfl
  | skip _ _ ih => exact ih
  | cut _ hes hfault =>
    rw [fault_enter hes] at hfault
    rw [others, List.map_singleton, List.flatMap_singleton, hfault]
  | enter hes hfault _ ih =>
    rw [fault_enter hes, Option.map_eq_none_iff] at hfault
    rw [others, List.map_cons, List.flatMap_cons, List.find?_append, hfault, Option.none_or]
    exact ih

/-- What a walk finds are the files among all that is no directory, up to the first path that is
refused. -/
theorem found_eq (h : s.Walks visited stack c) :
    (c.visits.flatMap Prod.snd).filterMap Event.file? =
      ((others s c).takeWhile fun p ↦ !s.refuses p).filter s.accepts := by
  induction h with
  | done => rfl
  | skip _ _ ih => exact ih
  | cut _ hes =>
    rw [others, List.map_singleton, List.flatMap_singleton, List.flatMap_singleton,
      filterMap_file?_enter hes]
  | enter hes hfault _ ih =>
    rw [fault_enter hes, Option.map_eq_none_iff, List.find?_eq_none] at hfault
    have hfree : ∀ p ∈ s.otherPaths _, (!s.refuses p) = true := fun p hp ↦ by
      simpa using hfault p hp
    rw [List.flatMap_cons, List.filterMap_append, filterMap_file?_enter hes, ih, others, others,
      List.map_cons, List.flatMap_cons, List.takeWhile_append_of_pos hfree, List.filter_append,
      List.takeWhile_eq_self_iff.2 hfree]

end Walks

end Scope

end Scan

end RepoSurvey
