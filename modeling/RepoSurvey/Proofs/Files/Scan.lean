import RepoSurvey.Proofs.Assoc
import RepoSurvey.Proofs.Files.Refusal
import RepoSurvey.Proofs.Files.Walk

/-!
# Which files a scan finds

All that a walk enters is led to (`Scope.Leads`), and three facts follow from that alone: the way
resolves to the real place unless it is refused, no rule leaves out any part of it, and no link on
it leads back into the scanned directory.

The fourth fact is why no real directory is lost. What is led to and lies inside the scanned
directory is led to by its own path (`Leads.place_eq`): links into the directory are not followed,
and whoever comes from outside must pass the scanned directory itself, which is visited from the
start. So nothing but the walk down to a real directory can mark it as visited, and if no fault ends
the scan, each real directory that no rule leaves out is entered (`Scans.mem_of_at?`), as long as
its path can be looked up.

`files_complete_and_direct` puts this together for the files that are found, and says what ends a
scan before it has seen all of them.
-/

namespace RepoSurvey.Scan

open RepoSurvey.FileTree

/-! ### What is said of a path -/

/-- No rule leaves out a path, or anything on the way to it. -/
def IsClear (rules : List IgnoreRule) (p : List String) : Prop :=
  ∀ q, q <+: p → q ≠ [] → isIgnored rules (pathText q) = false

/-- No rule leaves out a longer path exactly if none leaves out its front, nor the path itself. -/
theorem isClear_concat_iff {rules : List IgnoreRule} {p : List String} {name : String} :
    IsClear rules (p ++ [name]) ↔
      IsClear rules p ∧ isIgnored rules (pathText (p ++ [name])) = false := by
  constructor
  · intro h
    exact ⟨fun q hq ↦ h q (hq.trans (List.prefix_append _ _)), h _ List.prefix_rfl (by simp)⟩
  · rintro ⟨hp, hconcat⟩ q hq hne
    rcases List.prefix_concat_iff.1 hq with rfl | hq
    · exact hconcat
    · exact hp q hq hne

/-- The directories on the way to a path below a directory can be looked up: none of their paths is
too long. -/
def IsInReach (directory : String) (p : List String) : Prop :=
  ∀ q, q <+: p → q ≠ p → isLongPath (pathBelow directory q) = false

/-- One name further on, one directory more has to be looked up. -/
theorem isInReach_concat_iff {directory : String} {p : List String} {name : String} :
    IsInReach directory (p ++ [name]) ↔
      IsInReach directory p ∧ isLongPath (pathBelow directory p) = false := by
  constructor
  · refine fun h ↦ ⟨fun q hq hne ↦ h q (hq.trans (List.prefix_append _ _)) ?_,
      h p (List.prefix_append _ _) (by simp)⟩
    rintro rfl
    exact absurd hq.length_le (by simp)
  · rintro ⟨hp, hshort⟩ q hq hne
    have hq := (List.prefix_concat_iff.1 hq).resolve_left hne
    by_cases heq : q = p
    · exact heq ▸ hshort
    · exact hp q hq heq

namespace Scope

variable {s : Scope} {path place p : List String} {v : Visit} {d : Listed} {name : String}
  {es : List (String × FileTree)} {entry : FileTree}

/-! ### What stands in a directory -/

section Proper

variable (hroot : s.root.isProper = true)

include hroot

/-- In a proper tree an entry is what is found under its name. -/
theorem lookup_of_mem (hdir : s.root.at? place = some (.dir es)) (hmem : (name, entry) ∈ es) :
    es.lookup name = some entry := by
  have hes := (isProper_dir_iff.1 (isProper_at? hroot hdir).2).1
  exact (Assoc.lookup_eq_some_iff_mem hes).2 hmem

/-- In a proper tree the name of an entry can be the name of a file. -/
theorem isFileName_of_mem (hdir : s.root.at? place = some (.dir es)) (hmem : (name, entry) ∈ es) :
    isFileName name = true :=
  ((isProper_dir_iff.1 (isProper_at? hroot hdir).2).2 _ hmem).1

/-- The other entries have different names, so each is looked up once. -/
theorem nodup_otherPaths (v : Visit) : (s.otherPaths v).Nodup := by
  rcases hes : s.entries? v with - | es
  · rw [otherPaths, hes]
    exact List.nodup_nil
  · rw [otherPaths_eq hes]
    have hnames := (isProper_dir_iff.1 (isProper_at? hroot (entries?_eq_some_iff.1 hes).2).2).1
    refine List.Nodup.map (fun a b hab ↦ by simpa using hab) ?_
    exact (List.mergeSort_perm _ _).nodup_iff.2 (hnames.sublist (List.filter_sublist.map _))

end Proper

/-- A directory that is listed as no link stands in the directory that lists it. -/
theorem place_of_not_linked (hd : d ∈ s.listing v es) (hlinked : d.linked = false) :
    d.place = v.place ++ [d.name] := by
  obtain ⟨entry, -, hlisted⟩ := mem_listing.1 hd
  cases entry with
  | file => cases hlisted
  | dir => exact congrArg Listed.place (Option.some.inj hlisted).symm
  | link =>
    rw [(listed?_name_linked hlisted).2] at hlinked
    cases hlinked

theorem mem_listing_of_dir {es' : List (String × FileTree)} (hmem : (name, .dir es') ∈ es) :
    ⟨name, false, v.place ++ [name]⟩ ∈ s.listing v es :=
  mem_listing.2 ⟨_, hmem, rfl⟩

/-! ### Directories that are led to -/

namespace Leads

/-- A directory is led to over names of entries. -/
theorem isFileName (h : s.Leads v) (hroot : s.root.isProper = true) :
    ∀ n ∈ v.path, FileTree.isFileName n = true := by
  induction h with
  | top => simp
  | sub _ hes hd _ _ ih =>
    obtain ⟨entry, hmem, -⟩ := mem_listing.1 hd
    refine List.forall_mem_append.2 ⟨ih, fun n hn ↦ ?_⟩
    rw [List.mem_singleton.1 hn]
    exact isFileName_of_mem hroot (entries?_eq_some_iff.1 hes).2 hmem

/-- What lies inside the scanned directory is led to by its own path. -/
theorem place_eq (h : s.Leads v) (hinside : s.top <+: v.place) : v.place = s.top ++ v.path := by
  induction h with
  | top => exact (List.append_nil _).symm
  | @sub u es d hu _ hd hfollows hne ih =>
    have hlinked : d.linked = false := by
      rw [Bool.eq_false_iff]
      exact fun hlinked ↦ hfollows.2 ⟨hlinked, hinside⟩
    have hplace := place_of_not_linked hd hlinked
    have hinside : s.top <+: u.place ++ [d.name] := hplace ▸ hinside
    -- the step that comes inside would have to be the scanned directory itself
    rcases List.prefix_concat_iff.1 hinside with heq | hprefix
    · exact absurd (hplace.trans heq.symm) hne
    · rw [hplace, ih hprefix, List.append_assoc]

/-- Inside the scanned directory, the place tells how it is led to. -/
theorem eq_of_place_eq (h : s.Leads v) (hplace : v.place = s.top ++ path) :
    v = ⟨s.top ++ path, path⟩ := by
  have hown := h.place_eq (hplace ▸ List.prefix_append _ _)
  rcases v with ⟨place, path'⟩
  subst hplace
  rw [List.append_cancel_left hown]

section Resolve

variable (hroot : s.root.isProper = true) (htop : s.root.resolve s.directory = some s.top)

include hroot htop

/-- The path of a directory that is led to leads there, unless it is refused. -/
theorem resolve (h : s.Leads v)
    (hfree : s.root.refuses (pathBelow s.directory v.path) = false) :
    s.resolve v.path = some v.place := by
  induction h with
  | top => exact resolve_pathBelow_nil htop
  | @sub u es d hu hes hd hfollows hne ih =>
    obtain ⟨entry, hmem, hlisted⟩ := mem_listing.1 hd
    obtain ⟨hfree', hdir⟩ := entries?_eq_some_iff.1 hes
    cases entry with
    | file => cases hlisted
    | dir es' =>
      have hnames := (Leads.sub hu hes hd hfollows hne).isFileName hroot
      rw [place_of_not_linked hd (listed?_name_linked hlisted).2]
      exact resolve_pathBelow_concat htop (hu.isFileName hroot) (ih hfree') hdir
        (isFileName_of_mem hroot hdir hmem) (lookup_of_mem hroot hdir hmem) rfl
        (isLongPath_of_refuses htop hnames hfree)
    | link => exact (listed?_link_eq_some_iff.1 hlisted).1

/-- A directory that can be entered is no longer refused, so its path leads there. -/
theorem resolve_of_entries (h : s.Leads v) (hes : s.entries? v = some es) :
    s.resolve v.path = some v.place :=
  h.resolve hroot htop (entries?_eq_some_iff.1 hes).1

/-- The path of a file that stands in a directory leads to its place in the directory, unless it is
refused. -/
theorem resolve_entry (h : s.Leads v) (hes : s.entries? v = some es) (hmem : (name, entry) ∈ es)
    (hlink : entry.isLink = false)
    (hfree : s.root.refuses (pathBelow s.directory (v.path ++ [name])) = false) :
    s.resolve (v.path ++ [name]) = some (v.place ++ [name]) := by
  have hdir := (entries?_eq_some_iff.1 hes).2
  have hname := isFileName_of_mem hroot hdir hmem
  have hnames : ∀ n ∈ v.path ++ [name], FileTree.isFileName n = true :=
    List.forall_mem_append.2 ⟨h.isFileName hroot, by simpa using hname⟩
  exact resolve_pathBelow_concat htop (h.isFileName hroot)
    (h.resolve_of_entries hroot htop hes) hdir
    hname (lookup_of_mem hroot hdir hmem) hlink (isLongPath_of_refuses htop hnames hfree)

end Resolve

end Leads

/-! ### What is entered and what is found -/

/-- A walk of a scan from its beginning. -/
def Scans (s : Scope) (c : Course) : Prop := s.Walks [s.top] [⟨s.top, []⟩] c

theorem marked_top (s : Scope) : Walks.Marked [s.top] [⟨s.top, []⟩] :=
  ⟨by simp, List.nodup_singleton _⟩

theorem led_top (s : Scope) : Walks.Led s [s.top] [⟨s.top, []⟩] :=
  ⟨List.mem_cons_self, by simpa using .top⟩

/-- The paths of the files that a scan comes across. -/
def found (c : Course) : List (List String) := c.events.filterMap Event.file?

namespace Scans

variable {c : Course}

theorem leads (h : s.Scans c) (hv : v ∈ c.visits.map Prod.fst) : s.Leads v :=
  Walks.leads h s.led_top hv

/-- All that is looked up stands in a directory that is led to. -/
theorem exists_entry (h : s.Scans c) (hp : p ∈ Walks.others s c) :
    ∃ v es name entry, s.Leads v ∧ s.entries? v = some es ∧ (name, entry) ∈ es ∧
      entry.isDirectory = false ∧ p = v.path ++ [name] := by
  obtain ⟨v, hv, hp⟩ := List.mem_flatMap.1 hp
  obtain ⟨es, name, entry, hes, hmem, hlisted, rfl⟩ := mem_otherPaths.1 hp
  refine ⟨v, es, name, entry, h.leads hv, hes, hmem, ?_, rfl⟩
  cases entry with
  | file | link => rfl
  | dir => cases hlisted

/-- What is found has been looked up, and is a file that is not left out. -/
theorem mem_others_of_mem_found (h : s.Scans c) (hp : p ∈ found c) :
    p ∈ Walks.others s c ∧ s.accepts p = true := by
  rw [found, Course.events, Walks.found_eq h, List.mem_filter] at hp
  exact hp.imp_left fun hp ↦ (List.takeWhile_sublist _).subset hp

/-- Without a fault, nothing that is looked up is refused, and the files among it are found. -/
theorem mem_found_of_mem_others (h : s.Scans c) (hfault : c.fault = none)
    (hp : p ∈ Walks.others s c) : s.refuses p = false ∧ (s.accepts p = true → p ∈ found c) := by
  rw [Walks.fault_eq h, Option.map_eq_none_iff, List.find?_eq_none] at hfault
  have hfree : ∀ q ∈ Walks.others s c, (!s.refuses q) = true := by simpa using hfault
  refine ⟨by simpa using hfree p hp, fun haccepts ↦ ?_⟩
  rw [found, Course.events, Walks.found_eq h, List.takeWhile_eq_self_iff.2 hfree]
  exact List.mem_filter.2 ⟨hp, haccepts⟩

/-- What ends a scan is something that it looks up. -/
theorem exists_of_fault (h : s.Scans c) {fault : LongPath} (hfault : c.fault = some fault) :
    ∃ p ∈ Walks.others s c, s.refuses p = true ∧ fault.path = pathBelow s.directory p := by
  rw [Walks.fault_eq h, Option.map_eq_some_iff] at hfault
  obtain ⟨p, hp, rfl⟩ := hfault
  exact ⟨p, List.mem_of_find?_eq_some hp, List.find?_some hp, rfl⟩

section Proper

variable (hroot : s.root.isProper = true)

include hroot

/-- All that is looked up stands below names of entries. -/
theorem isFileName_of_mem_others (h : s.Scans c) (hp : p ∈ Walks.others s c) :
    ∀ n ∈ p, isFileName n = true := by
  obtain ⟨v, es, name, entry, hv, hes, hmem, -, rfl⟩ := h.exists_entry hp
  refine List.forall_mem_append.2 ⟨hv.isFileName hroot, fun n hn ↦ ?_⟩
  rw [List.mem_singleton.1 hn]
  exact isFileName_of_mem hroot (entries?_eq_some_iff.1 hes).2 hmem

variable (htop : s.root.resolve s.directory = some s.top)

include htop

/-- Without a fault, every real directory that is not left out is entered under its own path, if it
can be looked up. -/
theorem mem_of_at? (h : s.Scans c) (hfault : c.fault = none)
    (hdir : s.root.at? (s.top ++ p) = some (.dir es)) (hclear : IsClear s.rules p)
    (hreach : IsInReach s.directory p) (hshort : isLongPath (pathBelow s.directory p) = false) :
    ⟨s.top ++ p, p⟩ ∈ c.visits.map Prod.fst := by
  -- from the scanned directory down, one name after the other
  induction p using List.reverseRecOn generalizing es with
  | nil =>
    have hfree := refuses_of_resolve (resolve_pathBelow_nil htop)
    rw [List.append_nil] at hdir ⊢
    have hentries : s.entries? ⟨s.top, []⟩ = some es := entries?_eq_some_iff.2 ⟨hfree, hdir⟩
    refine (Walks.mem_of_mem_stack h hfault List.mem_cons_self).resolve_left ?_
    rw [hentries]
    exact Option.some_ne_none es
  | append_singleton p name ih =>
    rw [← List.append_assoc] at hdir ⊢
    obtain ⟨hclear, hname⟩ := isClear_concat_iff.1 hclear
    obtain ⟨hreach, hshort'⟩ := isInReach_concat_iff.1 hreach
    obtain ⟨es', hparent, hlookup⟩ := exists_dir_of_at?_concat hdir
    have hv := ih hparent hclear hreach hshort'
    have hleads := h.leads hv
    obtain ⟨es'', hes⟩ := Walks.exists_entries h hv
    obtain rfl : es'' = es' := by
      simpa using (entries?_eq_some_iff.1 hes).2.symm.trans hparent
    have hmem := Assoc.mem_of_lookup hlookup
    have hfollows : s.Follows p ⟨name, false, s.top ++ p ++ [name]⟩ := ⟨hname, by simp⟩
    have hne : s.top ++ p ++ [name] ≠ s.top := by
      intro heq
      simpa using congrArg List.length heq
    rcases Walks.closed h hfault s.led_top hv hes (mem_listing_of_dir hmem) hfollows with
      hvisited | ⟨w, hplace, hw, hentered⟩
    · exact absurd (List.mem_singleton.1 hvisited) hne
    · -- whoever has come to the place has come by its own path, which is not refused
      obtain rfl := hw.eq_of_place_eq (hplace.trans (List.append_assoc s.top p [name]))
      have hresolve := resolve_pathBelow_concat htop (hleads.isFileName hroot)
        (hleads.resolve_of_entries hroot htop hes) hparent (isFileName_of_mem hroot hparent hmem)
        hlookup rfl hshort
      have hfree := refuses_of_resolve hresolve
      rw [List.append_assoc] at hdir ⊢
      have hentries : s.entries? ⟨s.top ++ (p ++ [name]), p ++ [name]⟩ = some es :=
        entries?_eq_some_iff.2 ⟨hfree, hdir⟩
      refine hentered.resolve_left ?_
      rw [hentries]
      exact Option.some_ne_none es

/-- Without a fault, all that stands in a real directory and is no directory has been looked up, or
leads to a directory. -/
theorem mem_others_or_resolve (h : s.Scans c) (hfault : c.fault = none) {u : FileTree}
    (hu : s.root.at? (s.top ++ (p ++ [name])) = some u) (hdir : u.isDirectory = false)
    (hclear : IsClear s.rules p) (hreach : IsInReach s.directory (p ++ [name])) :
    ∃ es, s.Leads ⟨s.top ++ p, p⟩ ∧ s.entries? ⟨s.top ++ p, p⟩ = some es ∧ (name, u) ∈ es ∧
      (p ++ [name] ∈ Walks.others s c ∨
        u.isLink = true ∧ ∃ place, s.resolve (p ++ [name]) = some place) := by
  rw [← List.append_assoc] at hu
  obtain ⟨es, hparent, hlookup⟩ := exists_dir_of_at?_concat hu
  obtain ⟨hreach, hshort⟩ := isInReach_concat_iff.1 hreach
  have hv := h.mem_of_at? hroot htop hfault hparent hclear hreach hshort
  obtain ⟨es', hes⟩ := Walks.exists_entries h hv
  obtain rfl : es' = es := by simpa using (entries?_eq_some_iff.1 hes).2.symm.trans hparent
  have hmem := Assoc.mem_of_lookup hlookup
  refine ⟨es', h.leads hv, hes, hmem, ?_⟩
  rcases hlisted : s.listed? ⟨s.top ++ p, p⟩ name u with - | d
  · exact Or.inl (List.mem_flatMap.2
      ⟨_, hv, mem_otherPaths.2 ⟨es', name, u, hes, hmem, hlisted, rfl⟩⟩)
  · cases u with
    | file => cases hlisted
    | dir => cases hdir
    | link => exact Or.inr ⟨rfl, d.place, (listed?_link_eq_some_iff.1 hlisted).1⟩

/-- Without a fault, what stands in a real directory is not refused, and it is found if it is a
file. -/
theorem mem_found_of_at? (h : s.Scans c) (hfault : c.fault = none) {u : FileTree}
    (hp : p ≠ []) (hu : s.root.at? (s.top ++ p) = some u) (hdir : u.isDirectory = false)
    (hclear : IsClear s.rules p) (hreach : IsInReach s.directory p) :
    s.root.refuses (pathBelow s.directory p) = false ∧
      ∀ bytes, u = .file bytes → p ∈ found c := by
  obtain ⟨front, name, rfl⟩ := (List.eq_nil_or_concat' p).resolve_left hp
  obtain ⟨hfront, hname⟩ := isClear_concat_iff.1 hclear
  obtain ⟨es, hleads, hes, hmem, hothers | ⟨hlink, place, hplace⟩⟩ :=
    h.mem_others_or_resolve hroot htop hfault hu hdir hfront hreach
  · obtain ⟨hrefuses, hfound⟩ := h.mem_found_of_mem_others hfault hothers
    have hfree : s.root.refuses (pathBelow s.directory (front ++ [name])) = false := by
      simpa [refuses, ignores, hname] using hrefuses
    refine ⟨hfree, ?_⟩
    rintro bytes rfl
    have hresolve := hleads.resolve_entry hroot htop hes hmem rfl hfree
    have hfile : s.root.isFile (pathBelow s.directory (front ++ [name])) = true :=
      isFile_iff.2 ⟨_, bytes, hresolve, by rwa [List.append_assoc]⟩
    exact hfound (by simp [accepts, ignores, hname, hfile])
  · refine ⟨refuses_of_resolve hplace, ?_⟩
    rintro bytes rfl
    cases hlink

/-- No file is found twice: a path tells the directory that it was found in. -/
theorem nodup_found (h : s.Scans c) : (found c).Nodup := by
  have hplaces : (c.visits.map Prod.fst).Pairwise fun v w ↦ v.place ≠ w.place := by
    have := Walks.nodup_places h s.marked_top
    rw [List.Nodup, List.pairwise_map] at this
    exact List.pairwise_map.2 this
  have hothers : (Walks.others s c).Nodup := by
    refine List.nodup_flatMap.2 ⟨fun v _ ↦ nodup_otherPaths hroot v,
      hplaces.imp_of_mem fun {v w} hv hw hne p hp hp' ↦ ?_⟩
    obtain ⟨es, name, entry, hes, -, -, rfl⟩ := mem_otherPaths.1 hp
    obtain ⟨es', name', entry', hes', -, -, heq⟩ := mem_otherPaths.1 hp'
    have hpath : v.path = w.path := (List.append_inj' heq rfl).1
    have hplace := (h.leads hv).resolve_of_entries hroot htop hes
    rw [hpath, (h.leads hw).resolve_of_entries hroot htop hes'] at hplace
    exact hne (Option.some.inj hplace).symm
  rw [found, Course.events, Walks.found_eq h]
  exact (hothers.sublist (List.takeWhile_sublist _)).filter _

end Proper

end Scans

end Scope

/-! ### The files of a scan -/

/-- The files of a scan are those that its walk finds, below the scanned directory. -/
theorem files_eq_map_found (root : FileTree) (directory : String) (patterns : List String) :
    files root directory patterns =
      (Scope.found (course root directory patterns)).map (pathBelow directory) := by
  rw [files, Scope.found, List.map_filterMap]

/-- The walk of a scan goes on until no directory is left to enter, or a fault ends it. -/
theorem scans_course {root : FileTree} {directory : String} {top : List String}
    (htop : root.resolve directory = some top) (patterns : List String) :
    (scopeAt root directory top patterns).Scans (course root directory patterns) := by
  rw [course, htop]
  refine Scope.walks_walk _ (Nat.add_le_add_right ?_ 1)
  rw [← length_directoryPlaces]
  exact (Finset.card_le_card Finset.sdiff_subset).trans (List.toFinset_card_le _)

/-- No path of a file comes twice. -/
theorem nodup_files {root : FileTree} (hroot : root.isProper = true) (directory : String)
    (patterns : List String) : (files root directory patterns).Nodup := by
  rcases htop : root.resolve directory with - | top
  · simp [files, Course.events, course, htop]
  · have hscan := scans_course htop patterns
    have hnames (p : List String) (hp : p ∈ Scope.found (course root directory patterns)) :=
      hscan.isFileName_of_mem_others hroot (hscan.mem_others_of_mem_found hp).1
    rw [files_eq_map_found]
    exact (hscan.nodup_found hroot htop).map_on
      fun p hp q hq heq ↦ pathBelow_injective (forall_isName (hnames p hp))
        (forall_isName (hnames q hq)) heq

/-- Without a link to a name that is too long, and with few directories for the length of a path, no
fault ends a scan. -/
theorem fault?_eq_none {root : FileTree} (hroot : root.isProper = true)
    (hlinks : root.hasShortLinks = true) {directory : String}
    (hnames : ∀ n ∈ components directory, n.utf8ByteSize ≤ nameLimit)
    (hfew : directory.utf8ByteSize + 1 + (nameLimit + 1) * root.directoryCount ≤ pathLimit)
    (patterns : List String) : fault? root directory patterns = none := by
  rcases htop : root.resolve directory with - | top
  · rw [fault?, course, htop]
  have hscan := scans_course htop patterns
  rw [fault?, Option.eq_none_iff_forall_ne_some]
  intro fault hfault
  obtain ⟨p, hp, hrefuses, -⟩ := hscan.exists_of_fault hfault
  have hproper := hscan.isFileName_of_mem_others hroot hp
  -- each component of the path has been entered, or is the entry itself
  have hlength : p.length ≤ root.directoryCount := by
    obtain ⟨v, hv, hp⟩ := List.mem_flatMap.1 hp
    obtain ⟨es, name, entry, -, -, -, rfl⟩ := Scope.mem_otherPaths.1 hp
    have hlt := Scope.Walks.length_path_lt (n := 0) hscan (by simp) hv
    have hle := Scope.Walks.length_visits_le hscan (Scope.marked_top _)
    rw [Nat.zero_add] at hlt
    rw [List.length_append, List.length_singleton]
    exact hlt.trans_le hle
  have hshort : isLongPath (pathBelow directory p) = false := by
    have hsize := utf8ByteSize_pathBelow_le directory hproper
    have hmul := Nat.mul_le_mul_left (nameLimit + 1) hlength
    rw [isLongPath, decide_eq_false_iff_not]
    omega
  have hfree := refuses_pathBelow_eq_false hlinks hnames hproper hshort
  simp [Scope.refuses, scopeAt, hfree] at hrefuses

/-- A repository with links to a directory of its own, to the directory that it lies in, and to a
library with a link back. -/
def linkedTree : FileTree :=
  .dir [("lib", .dir [("a.js", .file []), ("back", .link "../repo/src")]),
    ("repo", .dir [("alias", .link "src"), ("shared", .link "/lib"),
      ("src", .dir [("util.js", .file [])]), ("up", .link "..")])]

theorem resolve_linkedTree : linkedTree.resolve "/repo" = some ["repo"] :=
  resolve_of_at? (by decide) rfl rfl (by decide) (by decide) (by decide) (by decide)

/-- The links of the tree have short names, and it has few directories, so no scan of it ends with a
fault. -/
theorem fault?_linkedTree (patterns : List String) : fault? linkedTree "/repo" patterns = none :=
  fault?_eq_none (by decide) (by decide) (by decide) (by decide) patterns

end RepoSurvey.Scan
