import Mathlib.Data.List.ReduceOption
import RepoSurvey.Insight.Category
import RepoSurvey.Insight.Feature
import RepoSurvey.Proofs.Assoc
import RepoSurvey.Proofs.Path.Below

/-!
# Groups of files

Files are put into categories and gathered by features. Both are told by the positions of the list
of files, so that it makes a difference whether a file is listed twice.

* The categories divide the positions: each belongs to exactly one of them, and the files of a
  category stand in the order of the list (`IsDivision`).
* The features gather the positions at which a directory tells what a file is about (`Gather`): each
  of these belongs to exactly one feature, which has the name of the first such directory, and no
  other position belongs to any. The features stand in the order of their first positions.

The directory that names a feature is told by the components of the path and of the root (`Names`),
not by the way from one to the other.
-/

namespace RepoSurvey

open RepoSurvey.Text

variable {α : Type}

/-! ### Positions -/

/-- Positions of a list, in increasing order. -/
def ArePositions (xs : List α) (is : List Nat) : Prop :=
  is.Pairwise (· < ·) ∧ ∀ i ∈ is, i < xs.length

/-- The positions of the values for which a test holds. -/
def positionsOf (p : α → Bool) (xs : List α) : List Nat :=
  (xs.zipIdx.filter fun x ↦ p x.1).map Prod.snd

/-- A position is listed if the test holds of what stands there. -/
theorem mem_positionsOf_iff {p : α → Bool} {xs : List α} {i : Nat} :
    i ∈ positionsOf p xs ↔ ∃ x, xs[i]? = some x ∧ p x = true := by
  rw [positionsOf, List.mem_map]
  constructor
  · rintro ⟨⟨x, i⟩, hmem, rfl⟩
    obtain ⟨hx, hp⟩ := List.mem_filter.1 hmem
    exact ⟨x, List.mk_mem_zipIdx_iff_getElem?.1 hx, hp⟩
  · rintro ⟨x, hx, hp⟩
    exact ⟨(x, i), List.mem_filter.2 ⟨List.mk_mem_zipIdx_iff_getElem?.2 hx, hp⟩, rfl⟩

/-- Positions are found from the front to the back. -/
theorem arePositions_positionsOf (p : α → Bool) (xs : List α) :
    ArePositions xs (positionsOf p xs) := by
  refine ⟨?_, fun i hi ↦ ?_⟩
  · have hsublist : (positionsOf p xs).Sublist (xs.zipIdx.map Prod.snd) :=
      List.filter_sublist.map Prod.snd
    rw [List.zipIdx_map_snd] at hsublist
    exact (List.pairwise_lt_range' 1).sublist hsublist
  · obtain ⟨x, hx, -⟩ := mem_positionsOf_iff.1 hi
    exact (List.getElem?_eq_some_iff.1 hx).1

/-- The values at these positions are those for which the test holds, in order. -/
theorem filterMap_positionsOf (p : α → Bool) (xs : List α) :
    (positionsOf p xs).filterMap (xs[·]?) = xs.filter p := by
  have hvalues : (xs.zipIdx.filter fun x ↦ p x.1).filterMap (fun x ↦ xs[x.2]?) =
      (xs.zipIdx.filter fun x ↦ p x.1).map Prod.fst := by
    rw [List.filterMap_eq_map_iff_forall_eq_some]
    exact fun x hx ↦ List.mem_zipIdx_iff_getElem?.1 (List.mem_filter.1 hx).1
  have hfilter := List.filter_map (f := Prod.fst) (p := p) (l := xs.zipIdx)
  rw [List.zipIdx_map_fst] at hfilter
  rw [positionsOf, List.filterMap_map, hfilter]
  exact hvalues

/-! ### Categories -/

/-- Lists divide the positions of a list of files: each position belongs to one of them, and what is
listed are the files at its positions, in order. -/
structure IsDivision (files : List EnrichedFile) (positions : Category → List Nat)
    (filesIn : Category → List EnrichedFile) : Prop where
  arePositions : ∀ c, ArePositions files (positions c)
  existsUnique : ∀ i < files.length, ∃! c, i ∈ positions c
  filesIn_eq : ∀ c, filesIn c = (positions c).filterMap (files[·]?)

namespace Category

variable {here : String} {root : Option String}

/-- A pass over files puts those of a category behind the ones that it has. -/
theorem foldl_insert_apply (groups : Category → List EnrichedFile) (files : List EnrichedFile)
    (c : Category) : files.foldl (insert here root) groups c =
      groups c ++ files.filter fun f ↦ ofFile here root f == c := by
  induction files generalizing groups with
  | nil => exact (List.append_nil _).symm
  | cons f files ih =>
    rw [List.foldl_cons, ih, insert, List.filter_cons]
    by_cases hc : c = ofFile here root f
    · rw [if_pos hc, if_pos (beq_iff_eq.2 hc.symm), List.append_assoc, List.singleton_append]
    · rw [if_neg hc, if_neg (by simpa using Ne.symm hc)]

/-- So one pass gives each category its files, in order. -/
theorem filesIn_eq_filter (c : Category) (files : List EnrichedFile) :
    filesIn here c root files = files.filter fun f ↦ ofFile here root f == c :=
  foldl_insert_apply (fun _ ↦ []) files c

end Category

/-- The categories divide the positions: a test holds at each of them for exactly one category. -/
theorem isDivision_filesIn (here : String) (root : Option String) (files : List EnrichedFile) :
    IsDivision files (fun c ↦ positionsOf (fun f ↦ Category.ofFile here root f == c) files)
      fun c ↦ Category.filesIn here c root files where
  arePositions _ := arePositions_positionsOf _ _
  existsUnique i hi := by
    have hfile : files[i]? = some files[i] := List.getElem?_eq_getElem hi
    refine ⟨Category.ofFile here root files[i], ?_, fun c hc ↦ ?_⟩
    · exact mem_positionsOf_iff.2 ⟨_, hfile, beq_self_eq_true _⟩
    · obtain ⟨f, hf, hcategory⟩ := mem_positionsOf_iff.1 hc
      rw [hfile, Option.some_inj] at hf
      rw [hf]
      exact (beq_iff_eq.1 hcategory).symm
  filesIn_eq c := by rw [Category.filesIn_eq_filter, filterMap_positionsOf]

/-! ### Features -/

namespace Feature

/-- A directory is telling: it is not empty and, without regard to case, none of those that many
projects share. -/
def IsTelling (name : String) : Prop := name ≠ "" ∧ lowercase name ∉ commonNames

/-- The first telling directory on the path of a file, as seen from the root, where both are seen
from the current directory `here`. -/
def Names (here : String) (root : Option String) (path name : String) : Prop :=
  ∃ seen, Path.SeenFrom here root path seen ∧
    ∃ front back file, splitString '/' seen = front ++ name :: (back ++ [file]) ∧
      IsTelling name ∧ ∀ d ∈ front, ¬IsTelling d

theorem isTelling_iff {name : String} : isTelling name = true ↔ IsTelling name := by
  simp [isTelling, IsTelling]

/-- The feature of a file is the first telling directory on its path. -/
theorem nameOf?_eq_some_iff {here : String} {root : Option String} {path name : String} :
    nameOf? here root path = some name ↔ Names here root path name := by
  simp only [Names, Path.seenFrom_iff, exists_eq_left]
  rw [nameOf?, directories, List.find?_eq_some_iff_append, isTelling_iff]
  have hne : splitString '/' (Path.below here root path) ≠ [] := by
    rw [splitString, ne_eq, List.map_eq_nil_iff]
    exact split_ne_nil _ _
  have hfront (front : List String) :
      (∀ d ∈ front, (!isTelling d) = true) ↔ ∀ d ∈ front, ¬IsTelling d := by
    simp [← isTelling_iff]
  constructor
  · rintro ⟨htelling, front, back, hdirectories, hothers⟩
    refine ⟨front, back, (splitString '/' (Path.below here root path)).getLast hne, ?_, htelling,
      (hfront front).1 hothers⟩
    rw [← List.cons_append, ← List.append_assoc, ← hdirectories]
    exact (List.dropLast_concat_getLast hne).symm
  · rintro ⟨front, back, file, hsplit, htelling, hothers⟩
    refine ⟨htelling, front, back, ?_, (hfront front).2 hothers⟩
    rw [hsplit, ← List.cons_append, ← List.append_assoc, List.dropLast_concat]

end Feature

/-- Features gather the positions of a list of files. -/
structure Gather (here : String) (root : Option String) (files : List EnrichedFile)
    (positions : Feature → List Nat) (features : List Feature) : Prop where
  nodup_names : (features.map Feature.name).Nodup
  ne_nil : ∀ f ∈ features, f.files ≠ []
  arePositions : ∀ f ∈ features, ArePositions files (positions f)
  files_eq : ∀ f ∈ features,
    f.files = ((positions f).filterMap (files[·]?)).map EnrichedFile.path
  mem_iff : ∀ f ∈ features, ∀ i file, files[i]? = some file →
    (i ∈ positions f ↔ Feature.Names here root file.path f.name)
  existsUnique : ∀ i file name, files[i]? = some file → Feature.Names here root file.path name →
    ∃! f, f ∈ features ∧ i ∈ positions f
  in_order : features.Pairwise fun f g ↦ ∃ i ∈ positions f, ∀ j ∈ positions g, i < j

namespace Feature

variable {here : String} {root : Option String} {files : List EnrichedFile}

/-- The files with the names of their features. -/
def named (here : String) (root : Option String) (files : List EnrichedFile) :
    List (String × String) :=
  files.filterMap fun f ↦ (nameOf? here root f.path).map (·, f.path)

/-- Features gather the paths of files under the names of their features. -/
theorem ofFiles_eq (here : String) (root : Option String) (files : List EnrichedFile) :
    ofFiles here root files = (Assoc.gather (named here root files)).map fun p ↦ ⟨p.1, p.2⟩ := by
  rw [ofFiles, List.foldl_map, Assoc.gather, named, List.foldl_filterMap]
  refine congrArg _ (congrFun (congrFun (congrArg List.foldl ?_) _) _)
  funext groups f
  rw [insert]
  cases nameOf? here root f.path <;> rfl

/-- The paths that stand with a name are those of its files, in order. -/
theorem valuesOf_named (here : String) (root : Option String) (name : String)
    (files : List EnrichedFile) :
    Assoc.valuesOf name (named here root files) =
      (files.filter fun f ↦ nameOf? here root f.path == some name).map EnrichedFile.path := by
  induction files with
  | nil => rfl
  | cons f files ih =>
    rw [Assoc.valuesOf, named] at ih
    rw [Assoc.valuesOf, named, List.filterMap_cons, List.filter_cons]
    rcases hname : nameOf? here root f.path with - | other
    · simpa using ih
    · by_cases hother : other = name
      · subst hother
        simpa using ih
      · simpa [hother] using ih

/-- Files without a feature have no name. -/
theorem keys_named (here : String) (root : Option String) (files : List EnrichedFile) :
    Assoc.keys (named here root files) =
      (files.map fun f ↦ nameOf? here root f.path).reduceOption := by
  rw [Assoc.keys, named, List.map_filterMap, List.reduceOption, List.filterMap_map]
  refine List.filterMap_congr fun f _ ↦ ?_
  cases h : nameOf? here root f.path <;> simp [h]

/-- Of values without repetitions, each stands in front of those that are first found behind it. -/
theorem pairwise_distinct_reduceOption (names : List (Option String)) :
    (Assoc.distinct names.reduceOption).Pairwise fun a b ↦
      ∃ i : Nat, names[i]? = some (some a) ∧ ∀ j : Nat, names[j]? = some (some b) → i < j := by
  -- a name in front moves all positions by one, and does no harm unless it is the second name
  have hshift {first : Option String} {names : List (Option String)} {a b : String}
      (hne : first ≠ some b)
      (h : ∃ i : Nat, names[i]? = some (some a) ∧ ∀ j : Nat, names[j]? = some (some b) → i < j) :
      ∃ i : Nat, (first :: names)[i]? = some (some a) ∧
        ∀ j : Nat, (first :: names)[j]? = some (some b) → i < j := by
    obtain ⟨i, hi, hbehind⟩ := h
    refine ⟨i + 1, by simpa using hi, fun j hj ↦ ?_⟩
    cases j with
    | zero => exact absurd (by simpa using hj) hne
    | succ j => exact Nat.succ_lt_succ (hbehind j (by simpa using hj))
  induction names with
  | nil => exact List.Pairwise.nil
  | cons name names ih =>
    cases name with
    | none =>
      rw [List.reduceOption_cons_of_none]
      exact ih.imp fun h ↦ hshift (by simp) h
    | some first =>
      rw [List.reduceOption_cons_of_some, Assoc.distinct, List.pairwise_cons]
      have hothers {b : String} (hb : b ∈ (Assoc.distinct names.reduceOption).filter
          fun b ↦ !(b == first)) : some first ≠ some b := by
        have hne : b ≠ first := by simpa using (List.mem_filter.1 hb).2
        exact fun h ↦ hne (Option.some.inj h).symm
      refine ⟨fun b hb ↦ ⟨0, rfl, fun j hj ↦ ?_⟩, (ih.filter _).imp_of_mem fun _ hb h ↦ ?_⟩
      · cases j with
        | zero => exact absurd (by simpa using hj) (hothers hb)
        | succ j => exact Nat.succ_pos j
      · exact hshift (hothers hb) h

/-- Features stand in the order in which their names first occur. -/
theorem names_ofFiles (here : String) (root : Option String) (files : List EnrichedFile) :
    (ofFiles here root files).map Feature.name =
      Assoc.distinct (files.map fun f ↦ nameOf? here root f.path).reduceOption := by
  rw [ofFiles_eq, List.map_map, ← keys_named, ← Assoc.keys_gather]
  rfl

/-- The positions of the files of a feature. -/
def positions (here : String) (root : Option String) (files : List EnrichedFile) (f : Feature) :
    List Nat :=
  positionsOf (fun file ↦ nameOf? here root file.path == some f.name) files

/-- A position belongs to a feature if the file there does. -/
theorem mem_positions_iff {f : Feature} {i : Nat} :
    i ∈ positions here root files f ↔
      ∃ file, files[i]? = some file ∧ nameOf? here root file.path = some f.name := by
  simp [positions, mem_positionsOf_iff]

/-- A feature has the files at its positions, and one at least. -/
theorem files_of_mem {f : Feature} (hf : f ∈ ofFiles here root files) :
    f.files = ((positions here root files f).filterMap (files[·]?)).map EnrichedFile.path ∧
      f.files ≠ [] := by
  rw [ofFiles_eq] at hf
  obtain ⟨⟨name, paths⟩, hmem, rfl⟩ := List.mem_map.1 hf
  have hlookup := (Assoc.lookup_eq_some_iff_mem (Assoc.nodup_keys_gather _)).2 hmem
  obtain ⟨hpaths, hne⟩ := Assoc.lookup_gather_eq_some_iff.1 hlookup
  refine ⟨?_, hne⟩
  rw [positions, filterMap_positionsOf, ← valuesOf_named]
  exact hpaths

/-- So features gather positions as they should. -/
theorem gather_ofFiles (here : String) (root : Option String) (files : List EnrichedFile) :
    Gather here root files (positions here root files) (ofFiles here root files) where
  nodup_names := by
    rw [names_ofFiles]
    exact Assoc.nodup_distinct _
  ne_nil _ hf := (files_of_mem hf).2
  arePositions _ _ := arePositions_positionsOf _ _
  files_eq _ hf := (files_of_mem hf).1
  mem_iff f _ i file hfile := by
    rw [mem_positions_iff, hfile, ← nameOf?_eq_some_iff]
    simp
  existsUnique i file name hfile hname := by
    rw [← nameOf?_eq_some_iff] at hname
    have hnames : (ofFiles here root files).map Feature.name = _ := names_ofFiles here root files
    have hmem : name ∈ (ofFiles here root files).map Feature.name := by
      rw [hnames, Assoc.mem_distinct, List.reduceOption_mem_iff, ← hname]
      exact List.mem_map_of_mem (List.mem_of_getElem? hfile)
    obtain ⟨f, hf, rfl⟩ := List.mem_map.1 hmem
    refine ⟨f, ⟨hf, mem_positions_iff.2 ⟨file, hfile, hname⟩⟩, ?_⟩
    -- features of one name are the same, since no name occurs twice
    rintro g ⟨hg, hi⟩
    obtain ⟨file', hfile', hname'⟩ := mem_positions_iff.1 hi
    obtain rfl : file = file' := Option.some.inj (hfile.symm.trans hfile')
    have hnodup : ((ofFiles here root files).map Feature.name).Nodup := by
      rw [hnames]
      exact Assoc.nodup_distinct _
    exact List.inj_on_of_nodup_map hnodup hg hf (Option.some.inj (hname'.symm.trans hname))
  in_order := by
    have hpairwise := pairwise_distinct_reduceOption (files.map fun f ↦ nameOf? here root f.path)
    rw [← names_ofFiles, List.pairwise_map] at hpairwise
    refine hpairwise.imp ?_
    rintro f g ⟨i, hi, hbehind⟩
    simp only [List.getElem?_map, Option.map_eq_some_iff] at hi hbehind
    exact ⟨i, mem_positions_iff.2 hi, fun j hj ↦ hbehind j (mem_positions_iff.1 hj)⟩

end Feature

/-- **Groups lose and double nothing.** The categories divide the positions of a list of files, and
the features gather those at which a directory tells what the file is about. -/
theorem groups_exact (here : String) (root : Option String) (files : List EnrichedFile) :
    (∃ positions, IsDivision files positions fun c ↦ Category.filesIn here c root files) ∧
      ∃ positions, Gather here root files positions (Feature.ofFiles here root files) :=
  ⟨⟨_, isDivision_filesIn here root files⟩, _, Feature.gather_ofFiles here root files⟩

/-- Features whose names differ only in case are two, and a file that is listed twice counts
twice. -/
example :
    let files : List EnrichedFile := ["/r/src/Auth/a.js", "/r/Lib/b.js", "/r/auth/c.js",
      "/r/src/Auth/a.js"].map fun p ↦ { analysis := { path := p } }
    Feature.ofFiles "/" (some "/r") files =
      [⟨"Auth", ["/r/src/Auth/a.js", "/r/src/Auth/a.js"]⟩, ⟨"auth", ["/r/auth/c.js"]⟩] := by
  decide +kernel

end RepoSurvey
