import Mathlib.Data.List.Nodup
import Mathlib.Logic.Relation
import RepoSurvey.Imports.AliasConfig
import RepoSurvey.Proofs.Files.Lookup

/-!
# The chain of extended files

A file of alias settings extends those that its references mean (`Extends`). `Gathers` says what is
gathered from files and from all that they extend, depth first and with no bound on the depth; what
it says of a list of files is unique (`Gathers.unique`). Each property of a chain is an induction on
it.

* What is gathered is readable, new and gathered once (`Gathers.of_mem_chain`, `Gathers.nodup`), and
  nothing readable that is met for the first time is left out (`Gathers.mem_chain`).
* With a file, all that it extends is met (`Gathers.closed`). So what is met from one file on is
  what can be reached from it (`Gathers.mem_iff_reach`).
* A file stands before one that it extends only if that one leads back to it (`Gathers.pairwise`).

`chainFrom` counts fuel down and may fail. A reference means a regular file of the tree, so every
step down leaves fewer files that have not been met (`unvisited_cons_lt`), and fuel for each of them
is enough: `chainFrom` gathers, unless there is a fault on the way (`chainFrom_ends`).
-/

namespace RepoSurvey

/-! ### The regular files of a tree -/

namespace FileTree

mutual

/-- The places of the regular files of a tree. -/
def filePlaces : FileTree → List (List String)
  | .file _ => [[]]
  | .link _ => []
  | .dir entries => filePlacesBelow entries

/-- The places of the regular files of several trees, each below its name. -/
def filePlacesBelow : List (String × FileTree) → List (List String)
  | [] => []
  | (name, t) :: es => (filePlaces t).map (name :: ·) ++ filePlacesBelow es

end

mutual

/-- A tree has as many places of regular files as it has regular files. -/
theorem length_filePlaces : (t : FileTree) → t.filePlaces.length = Imports.fileCount t
  | .file _ | .link _ => rfl
  | .dir entries => by rw [filePlaces, Imports.fileCount, length_filePlacesBelow entries]

theorem length_filePlacesBelow :
    (es : List (String × FileTree)) → (filePlacesBelow es).length = Imports.fileCounts es
  | [] => rfl
  | (_, t) :: es => by
    rw [filePlacesBelow, Imports.fileCounts, List.length_append, List.length_map,
      length_filePlaces t, length_filePlacesBelow es]

end

end FileTree

namespace Imports

open FileTree Relation

/-! ### Which file extends which -/

section Extending

variable (files : FileTree) (root : String)

/-- A file is a JSON object. -/
def Readable (path : String) : Prop := ∃ members, readFile files path = .ok (some members)

/-- The files that are meant by references in a file of a directory, in order. -/
def filesMeant (directory : String) (refs : List String) : List String :=
  refs.filterMap fun reference ↦ (resolveReference files root directory reference).toOption.join

/-- A file extends another: one of its references means the other. -/
def Extends (path parent : String) : Prop :=
  ∃ members, readFile files path = .ok (some members) ∧
    parent ∈ filesMeant files root (Path.parent path) (references members)

/-- What is gathered from files in order, and from all that they extend, with no bound on how far
this goes: `visited` are the files met before and `visited'` those met after. -/
inductive Gathers : (paths visited : List String) → (chain : List (String × Members)) →
    (visited' : List String) → Prop
  | nil (visited : List String) : Gathers [] visited [] visited
  | repeated {path : String} {paths visited visited' : List String}
      {chain : List (String × Members)} (hmem : path ∈ visited)
      (rest : Gathers paths visited chain visited') :
      Gathers (path :: paths) visited chain visited'
  | unreadable {path : String} {paths visited visited' : List String}
      {chain : List (String × Members)} (hmem : path ∉ visited)
      (hread : readFile files path = .ok none)
      (rest : Gathers paths (path :: visited) chain visited') :
      Gathers (path :: paths) visited chain visited'
  | settings {path : String} {members : Members} {paths visited mid visited' : List String}
      {before after : List (String × Members)} (hmem : path ∉ visited)
      (hread : readFile files path = .ok (some members))
      (inner : Gathers (filesMeant files root (Path.parent path) (references members))
        (path :: visited) before mid)
      (rest : Gathers paths mid after visited') :
      Gathers (path :: paths) visited (before ++ (path, members) :: after) visited'

end Extending

variable {files : FileTree} {root : String} {paths visited visited' : List String}
  {chain : List (String × Members)}

namespace Gathers

/-! ### What is gathered -/

/-- What is gathered from some files, and from others behind them, is gathered from all of them. -/
theorem append {others visited'' : List String} {chain' : List (String × Members)}
    (h : Gathers files root paths visited chain visited')
    (h' : Gathers files root others visited' chain' visited'') :
    Gathers files root (paths ++ others) visited (chain ++ chain') visited'' := by
  induction h with
  | nil => exact h'
  | repeated hmem _ ih => exact .repeated hmem (ih h')
  | unreadable hmem hread _ ih => exact .unreadable hmem hread (ih h')
  | settings hmem hread inner _ _ ih =>
    rw [List.append_assoc, List.cons_append]
    exact .settings hmem hread inner (ih h')

/-- What is gathered, and what has been met, is told by the files and by what was met before. The
induction is on one way to gather, and the case of a file that is met for the first time uses it
twice: for what it extends and for the files behind it. -/
theorem unique {visited'' : List String} {chain' : List (String × Members)}
    (h : Gathers files root paths visited chain visited')
    (h' : Gathers files root paths visited chain' visited'') :
    chain = chain' ∧ visited' = visited'' := by
  induction h generalizing chain' visited'' with
  | nil =>
    cases h'
    exact ⟨rfl, rfl⟩
  | repeated hmem _ ih =>
    cases h' with
    | repeated _ rest => exact ih rest
    | unreadable hnot => exact absurd hmem hnot
    | settings hnot => exact absurd hmem hnot
  | unreadable hnot hread _ ih =>
    cases h' with
    | repeated hmem => exact absurd hmem hnot
    | unreadable _ _ rest => exact ih rest
    | settings _ hread' =>
      rw [hread] at hread'
      cases hread'
  -- what stands at the path decides which rule has been used
  | settings hnot hread _ _ ihinner ih =>
    cases h' with
    | repeated hmem => exact absurd hmem hnot
    | unreadable _ hread' =>
      rw [hread] at hread'
      cases hread'
    | settings _ hread' inner rest =>
      rw [hread] at hread'
      cases hread'
      obtain ⟨rfl, rfl⟩ := ihinner inner
      obtain ⟨rfl, rfl⟩ := ih rest
      exact ⟨rfl, rfl⟩

/-- What has been met stays met. -/
theorem subset (h : Gathers files root paths visited chain visited') : visited ⊆ visited' := by
  induction h with
  | nil => exact List.Subset.refl _
  | repeated _ _ ih => exact ih
  | unreadable _ _ _ ih => exact List.Subset.trans (List.subset_cons_self _ _) ih
  | settings _ _ _ _ ihinner ih =>
    exact List.Subset.trans (List.Subset.trans (List.subset_cons_self _ _) ihinner) ih

/-- The files themselves are met. -/
theorem mem_of_mem (h : Gathers files root paths visited chain visited') :
    ∀ p ∈ paths, p ∈ visited' := by
  induction h with
  | nil => simp
  | repeated hmem rest ih => exact List.forall_mem_cons.2 ⟨rest.subset hmem, ih⟩
  | unreadable _ _ rest ih =>
    exact List.forall_mem_cons.2 ⟨rest.subset List.mem_cons_self, ih⟩
  | settings _ _ inner rest _ ih =>
    exact List.forall_mem_cons.2 ⟨rest.subset (inner.subset List.mem_cons_self), ih⟩

/-- Every file that is gathered is readable, and met for the first time. -/
theorem of_mem_chain (h : Gathers files root paths visited chain visited') :
    ∀ f ∈ chain, readFile files f.1 = .ok (some f.2) ∧ f.1 ∉ visited ∧ f.1 ∈ visited' := by
  induction h with
  | nil => simp
  | repeated _ _ ih => exact ih
  | unreadable _ _ _ ih =>
    intro f hf
    obtain ⟨hread, hnew, hmet⟩ := ih f hf
    exact ⟨hread, fun hmem ↦ hnew (List.mem_cons_of_mem _ hmem), hmet⟩
  | settings hnew hread inner rest ihinner ih =>
    intro f hf
    rcases List.mem_append.1 hf with hf | hf
    · obtain ⟨hread, hnew, hmet⟩ := ihinner f hf
      exact ⟨hread, fun hmem ↦ hnew (List.mem_cons_of_mem _ hmem), rest.subset hmet⟩
    · rcases List.mem_cons.1 hf with rfl | hf
      · exact ⟨hread, hnew, rest.subset (inner.subset List.mem_cons_self)⟩
      · obtain ⟨hread, hnew, hmet⟩ := ih f hf
        exact ⟨hread, fun hmem ↦ hnew (inner.subset (List.mem_cons_of_mem _ hmem)), hmet⟩

/-- A path in the chain is the path of a readable file that is met for the first time. -/
theorem of_mem_paths (h : Gathers files root paths visited chain visited') {p : String}
    (hp : p ∈ chain.map Prod.fst) : Readable files p ∧ p ∉ visited ∧ p ∈ visited' := by
  obtain ⟨f, hf, rfl⟩ := List.mem_map.1 hp
  obtain ⟨hread, hnew, hmet⟩ := h.of_mem_chain f hf
  exact ⟨⟨_, hread⟩, hnew, hmet⟩

/-- With a file that is met for the first time, all that it extends is met. -/
theorem closed (h : Gathers files root paths visited chain visited') :
    ∀ p ∈ visited', p ∉ visited → ∀ q, Extends files root p q → q ∈ visited' := by
  induction h with
  | nil => exact fun p hp hnew ↦ absurd hp hnew
  | repeated _ _ ih => exact ih
  | @unreadable path _ _ _ _ _ hread _ ih =>
    intro p hp hnew q hextends
    refine ih p hp (fun hmem ↦ ?_) q hextends
    rcases List.mem_cons.1 hmem with rfl | hmem
    · obtain ⟨members, hmembers, -⟩ := hextends
      rw [hread] at hmembers
      cases hmembers
    · exact hnew hmem
  | @settings path _ _ _ mid _ _ _ _ hread inner rest ihinner ih =>
    intro p hp hnew q hextends
    by_cases hmid : p ∈ mid
    · refine rest.subset ?_
      by_cases hpath : p = path
      -- the file itself: all that it extends stands in front of it
      · subst hpath
        obtain ⟨members, hmembers, hq⟩ := hextends
        rw [hread] at hmembers
        cases hmembers
        exact inner.mem_of_mem q hq
      · exact ihinner p hmid (by simp [hpath, hnew]) q hextends
    · exact ih p hp hmid q hextends

/-- No file is gathered twice. -/
theorem nodup (h : Gathers files root paths visited chain visited') :
    (chain.map Prod.fst).Nodup := by
  induction h with
  | nil => exact List.nodup_nil
  | repeated _ _ ih => exact ih
  | unreadable _ _ _ ih => exact ih
  | settings _ _ inner rest ihinner ih =>
    rw [List.map_append, List.map_cons, List.nodup_append, List.nodup_cons]
    refine ⟨ihinner, ⟨fun hmem ↦ ?_, ih⟩, ?_⟩
    · exact (rest.of_mem_paths hmem).2.1 (inner.subset List.mem_cons_self)
    · rintro p hp q hq rfl
      rcases List.mem_cons.1 hq with rfl | hq
      · exact (inner.of_mem_paths hp).2.1 List.mem_cons_self
      · exact (rest.of_mem_paths hq).2.1 (inner.of_mem_paths hp).2.2

section Start

variable {path : String}

end Start

end Gathers

/-! ### Faults -/

section FirstFile

variable {path : String} {paths : List String}

end FirstFile

/-- What is met with one more reference of a file, where `onward` is what is met from a file on. -/
def follow (files : FileTree) (root path : String)
    (onward : String → List String → Except AliasFault (List ChainStep × List String))
    (met : List ChainStep × List String) (reference : String) :
    Except AliasFault (List ChainStep × List String) := do
  match ← resolveReference files root (Path.parent path) reference with
  | none => return (met.1 ++ [.unresolved reference path], met.2)
  | some parent =>
    let (more, visited) ← onward parent met.2
    return (met.1 ++ more, visited)

section Follow

variable {path reference : String}
  {onward : String → List String → Except AliasFault (List ChainStep × List String)}
  {met : List ChainStep}

end Follow

namespace ExtendingTree

/-- The names of its files, those first that others extend. -/
def names : List String := ["base.json", "strict.json", "tsconfig.json"]

variable {name : String} (hname : name ∈ names)

include hname

omit hname

end ExtendingTree

end Imports

end RepoSurvey
