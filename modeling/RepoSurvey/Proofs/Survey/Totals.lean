import Mathlib.Data.Finset.Card
import RepoSurvey.Proofs.Assoc
import RepoSurvey.Proofs.Ranking
import RepoSurvey.Survey.Totals

/-!
# Totals add up

`LanguageTotals.AreTotals` and `ContributorTotals.AreTotals` say what totals are apart from how they
are gathered: each language and each author stands once, with sums over those files and entries that
are theirs, and these sums together are the sums over all files. `totals_exact` says that both
aggregations meet this, that a limit only cuts the ranking of authors, and that no total depends on
the order of the files.

Both are one accumulation under keys (`Assoc.accumulate_eq`). For languages each file is one pair.
For authors a file is as many pairs as it has contributors, and one more for its owner; as a pair
adds commits, or a file owned, and leaves the other number alone, the two numbers of an author can
be read off the pairs one by one (`commits_sharesIn`, `owned_sharesIn`).
-/

namespace RepoSurvey

open RepoSurvey.Assoc

/-! ### Languages -/

namespace LanguageTotals

/-- The languages of files, one for each file. -/
def languagesOf (files : List EnrichedFile) : List String := files.map fun f ↦ f.analysis.language

/-- The files in a language. -/
def filesIn (language : String) (files : List EnrichedFile) : List EnrichedFile :=
  files.filter fun f ↦ f.analysis.language = language

/-- What the totals of languages are. -/
structure AreTotals (files : List EnrichedFile) (totals : List (String × LanguageTotals)) :
    Prop where
  /-- Each language has one entry, in the order of their first files. -/
  languages : IsFirstOccurrences (languagesOf files) (keys totals)
  count : ∀ l ∈ totals, l.2.count = (filesIn l.1 files).length
  lines : ∀ l ∈ totals, l.2.lines = ((filesIn l.1 files).map fun f ↦ f.analysis.lines).sum
  size : ∀ l ∈ totals, l.2.size = ((filesIn l.1 files).map fun f ↦ f.analysis.size).sum
  sum_count : (totals.map fun l ↦ l.2.count).sum = files.length
  sum_lines : (totals.map fun l ↦ l.2.lines).sum = (files.map fun f ↦ f.analysis.lines).sum
  sum_size : (totals.map fun l ↦ l.2.size).sum = (files.map fun f ↦ f.analysis.size).sum

variable {files files' : List EnrichedFile}

/-- The sums over the files in a language. -/
def sumsIn (language : String) (files : List EnrichedFile) : LanguageTotals where
  count := (filesIn language files).length
  lines := ((filesIn language files).map fun f ↦ f.analysis.lines).sum
  size := ((filesIn language files).map fun f ↦ f.analysis.size).sum

/-- Adding files one after the other adds up their number, lines and sizes. -/
theorem foldl_add (t : LanguageTotals) (as : List FileAnalysis) :
    as.foldl add t = ⟨t.count + as.length, t.lines + (as.map FileAnalysis.lines).sum,
      t.size + (as.map FileAnalysis.size).sum⟩ := by
  induction as generalizing t with
  | nil => rfl
  | cons a as ih =>
    rw [List.foldl_cons, ih]
    simp only [add, List.length_cons, List.map_cons, List.sum_cons, mk.injEq]
    omega

/-- The totals of languages are accumulated under the languages of files. -/
theorem ofFiles_eq_accumulate (files : List EnrichedFile) :
    ofFiles files =
      accumulate (fun _ ↦ {}) add (files.map fun f ↦ (f.analysis.language, f.analysis)) := by
  rw [ofFiles, accumulate, List.foldl_map]

/-- Each language has its sums, and stands where its first file does. -/
theorem ofFiles_eq (files : List EnrichedFile) :
    ofFiles files = (distinct (languagesOf files)).map fun l ↦ (l, sumsIn l files) := by
  have hkeys : keys (files.map fun f ↦ (f.analysis.language, f.analysis)) = languagesOf files := by
    rw [keys, List.map_map]
    rfl
  have hvalues (l : String) : valuesOf l (files.map fun f ↦ (f.analysis.language, f.analysis)) =
      (filesIn l files).map EnrichedFile.analysis :=
    valuesOf_map l _ files
  rw [ofFiles_eq_accumulate, accumulate_eq, hkeys]
  refine List.map_congr_left fun l _ ↦ ?_
  rw [hvalues, foldl_add, sumsIn]
  simp [Function.comp_def]

/-- A measure of which each file adds its own part adds up over all languages. -/
theorem sum_ofFiles (μ : LanguageTotals → Nat) (ν : FileAnalysis → Nat) (hzero : μ {} = 0)
    (hadd : ∀ t a, μ (t.add a) = μ t + ν a) (files : List EnrichedFile) :
    ((ofFiles files).map fun p ↦ μ p.2).sum = (files.map fun f ↦ ν f.analysis).sum := by
  rw [ofFiles_eq_accumulate, sum_accumulate _ _ (fun _ ↦ hzero) hadd, List.map_map]
  rfl

/-- The totals of languages are what they should be. -/
theorem areTotals_ofFiles (files : List EnrichedFile) : AreTotals files (ofFiles files) := by
  have hentry : ∀ l ∈ ofFiles files, l.2 = sumsIn l.1 files := by
    intro l hl
    rw [ofFiles_eq] at hl
    obtain ⟨language, -, rfl⟩ := List.mem_map.1 hl
    rfl
  have hkeys : keys (ofFiles files) = distinct (languagesOf files) := by
    rw [ofFiles_eq, keys, List.map_map]
    exact List.map_id _
  exact {
    languages := by
      rw [hkeys]
      exact isFirstOccurrences_distinct _
    count := fun l hl ↦ by rw [hentry l hl]; rfl
    lines := fun l hl ↦ by rw [hentry l hl]; rfl
    size := fun l hl ↦ by rw [hentry l hl]; rfl
    sum_count := by
      have hsum := sum_ofFiles LanguageTotals.count (fun _ ↦ 1) rfl (fun _ _ ↦ rfl) files
      simpa using hsum
    sum_lines := sum_ofFiles LanguageTotals.lines FileAnalysis.lines rfl (fun _ _ ↦ rfl) files
    sum_size := sum_ofFiles LanguageTotals.size FileAnalysis.size rfl (fun _ _ ↦ rfl) files }

/-- Sums do not depend on the order of files. -/
theorem sumsIn_eq_of_perm (h : files.Perm files') (language : String) :
    sumsIn language files = sumsIn language files' := by
  have hthose : (filesIn language files).Perm (filesIn language files') := h.filter _
  rw [sumsIn, sumsIn, hthose.length_eq, (hthose.map _).sum_nat, (hthose.map _).sum_nat]

/-- In another order of files the same totals are found, in another order perhaps. -/
theorem ofFiles_perm (h : files.Perm files') : (ofFiles files).Perm (ofFiles files') := by
  have hlanguages : (distinct (languagesOf files)).Perm (distinct (languagesOf files')) :=
    distinct_perm (h.map _)
  rw [ofFiles_eq, ofFiles_eq]
  simp only [sumsIn_eq_of_perm h]
  exact hlanguages.map _

end LanguageTotals

/-! ### Contributors -/

namespace ContributorTotals

open RepoSurvey.History RepoSurvey.Ranking

/-- The authors whom files name, in the order in which they are met: the contributors to a file, and
behind them its owner if known. -/
def metIn (files : List EnrichedFile) : List String :=
  files.flatMap fun f ↦ f.ownership.contributors.map Contributor.author ++
    if isKnown f.ownership.primary then [f.ownership.primary] else []

/-- The commits that the contributors to files have under the name of an author. -/
def commitsOf (author : String) (files : List EnrichedFile) : Nat :=
  (((files.flatMap fun f ↦ f.ownership.contributors).filter fun c ↦ c.author = author).map
    Contributor.commits).sum

/-- The number of files that an author owns. Nobody owns files under an empty name, nor under the
name of those who are not known. -/
def ownedBy (author : String) (files : List EnrichedFile) : Nat :=
  (files.filter fun f ↦ f.ownership.primary = author ∧ author ≠ "" ∧ author ≠ "Unknown").length

/-- What the totals of all authors are. -/
structure AreTotals (files : List EnrichedFile) (totals : List ContributorTotals) : Prop where
  nodup : (totals.map author).Nodup
  mem_iff : ∀ a, a ∈ totals.map author ↔ a ∈ metIn files
  commits : ∀ t ∈ totals, t.commits = commitsOf t.author files
  filesOwned : ∀ t ∈ totals, t.filesOwned = ownedBy t.author files
  /-- More commits come first, and of those with as many comes first who is met first. -/
  ranked : totals.Pairwise fun s t ↦ t.commits < s.commits ∨
    s.commits = t.commits ∧ (metIn files).idxOf s.author < (metIn files).idxOf t.author
  sum_commits : (totals.map ContributorTotals.commits).sum =
    ((files.flatMap fun f ↦ f.ownership.contributors).map Contributor.commits).sum
  sum_filesOwned : (totals.map ContributorTotals.filesOwned).sum =
    (files.filter fun f ↦ isKnown f.ownership.primary).length

variable {files files' : List EnrichedFile}

/-- What a file adds to an author: commits, and files owned. -/
abbrev Share := Nat × Nat

/-- The totals of an author with one more share. -/
def addShare (t : ContributorTotals) (s : Share) : ContributorTotals :=
  { t with commits := t.commits + s.1, filesOwned := t.filesOwned + s.2 }

/-- The shares that the ownership of a file adds, with their authors. -/
def sharesOf (o : Ownership) : List (String × Share) :=
  o.contributors.map (fun c ↦ (c.author, c.commits, 0)) ++
    if isKnown o.primary then [(o.primary, 0, 1)] else []

/-- The shares that files add. -/
def sharesIn (files : List EnrichedFile) : List (String × Share) :=
  files.flatMap fun f ↦ sharesOf f.ownership

/-- A file adds its shares one after the other. -/
theorem addFile_eq (totals : List (String × ContributorTotals)) (o : Ownership) :
    addFile totals o = (sharesOf o).foldl
      (fun m p ↦ modify p.1 (fun t ↦ addShare (t.getD { author := p.1 }) p.2) m) totals := by
  rw [sharesOf, List.foldl_append, List.foldl_map, addFile]
  split <;> rfl

/-- The totals of authors are accumulated from the shares of all files. -/
theorem gathered_eq_accumulate (files : List EnrichedFile) :
    gathered files =
      (accumulate (fun a ↦ { author := a }) addShare (sharesIn files)).map Prod.snd := by
  rw [gathered, accumulate, sharesIn, List.foldl_flatMap]
  simp only [addFile_eq]

/-- Authors have shares where they are met. -/
theorem keys_sharesIn (files : List EnrichedFile) : keys (sharesIn files) = metIn files := by
  rw [keys, sharesIn, List.map_flatMap, metIn]
  refine List.flatMap_congr fun f _ ↦ ?_
  rw [sharesOf, List.map_append, List.map_map]
  split <;> rfl

/-- Adding shares one after the other adds up commits and files. -/
theorem foldl_addShare (t : ContributorTotals) (shares : List Share) :
    shares.foldl addShare t = ⟨t.author, t.filesOwned + (shares.map Prod.snd).sum,
      t.commits + (shares.map Prod.fst).sum⟩ := by
  induction shares generalizing t with
  | nil => rfl
  | cons s shares ih =>
    rw [List.foldl_cons, ih]
    simp only [addShare, List.map_cons, List.sum_cons, mk.injEq, true_and]
    omega

/-- Known are all names but the empty one and the name for those who are not. -/
theorem isKnown_iff {author : String} :
    isKnown author = true ↔ author ≠ "" ∧ author ≠ "Unknown" := by
  rw [isKnown, Bool.and_eq_true, bne_iff_ne, bne_iff_ne]

/-- Who contributes to a file has its commits, and who owns it the file. -/
theorem valuesOf_sharesOf (author : String) (o : Ownership) :
    valuesOf author (sharesOf o) =
      ((o.contributors.filter fun c ↦ c.author = author).map fun c ↦ (c.commits, 0)) ++
        if o.primary = author ∧ author ≠ "" ∧ author ≠ "Unknown" then [(0, 1)] else [] := by
  have howner :
      valuesOf author (if isKnown o.primary then [(o.primary, ((0, 1) : Share))] else []) =
        if o.primary = author ∧ author ≠ "" ∧ author ≠ "Unknown" then [(0, 1)] else [] := by
    by_cases hprimary : o.primary = author
    · subst hprimary
      simp only [isKnown_iff, true_and]
      split
      · exact valuesOf_concat_self [] (o.primary, (0, 1))
      · rfl
    · have hnot : ¬(o.primary = author ∧ author ≠ "" ∧ author ≠ "Unknown") :=
        fun h ↦ hprimary h.1
      rw [if_neg hnot]
      split
      · simp [valuesOf, hprimary]
      · rfl
  rw [sharesOf, valuesOf_append, valuesOf_map, howner]
  rfl

theorem sharesIn_cons (f : EnrichedFile) (files : List EnrichedFile) :
    sharesIn (f :: files) = sharesOf f.ownership ++ sharesIn files :=
  List.flatMap_cons

/-- The shares of an author hold their commits. -/
theorem commits_sharesIn (author : String) (files : List EnrichedFile) :
    ((valuesOf author (sharesIn files)).map Prod.fst).sum = commitsOf author files := by
  induction files with
  | nil => rfl
  | cons f files ih =>
    have howner (p : Prop) [Decidable p] :
        ((if p then [((0, 1) : Share)] else []).map Prod.fst).sum = 0 := by
      split <;> rfl
    rw [sharesIn_cons, valuesOf_append, valuesOf_sharesOf, List.map_append, List.map_append,
      List.map_map, List.sum_append, List.sum_append, howner, ih, commitsOf, commitsOf,
      List.flatMap_cons, List.filter_append, List.map_append, List.sum_append]
    rfl

/-- The shares of an author hold the files that they own. -/
theorem owned_sharesIn (author : String) (files : List EnrichedFile) :
    ((valuesOf author (sharesIn files)).map Prod.snd).sum = ownedBy author files := by
  induction files with
  | nil => rfl
  | cons f files ih =>
    have hcontributors (cs : List Contributor) :
        ((cs.map fun c ↦ ((c.commits, 0) : Share)).map Prod.snd).sum = 0 := by
      simp [Function.comp_def]
    rw [sharesIn_cons, valuesOf_append, valuesOf_sharesOf, List.map_append, List.map_append,
      List.sum_append, List.sum_append, hcontributors, ih, ownedBy, ownedBy, List.filter_cons]
    by_cases howns : f.ownership.primary = author ∧ author ≠ "" ∧ author ≠ "Unknown"
    · simp [howns, Nat.add_comm]
    · simp [howns]

/-- What is gathered has each author where first met, with the commits and the files that are
theirs. -/
theorem gathered_eq (files : List EnrichedFile) :
    gathered files = (distinct (metIn files)).map fun a ↦
      { author := a, filesOwned := ownedBy a files, commits := commitsOf a files } := by
  rw [gathered_eq_accumulate, accumulate_eq, keys_sharesIn, List.map_map]
  refine List.map_congr_left fun a _ ↦ ?_
  show (valuesOf a (sharesIn files)).foldl addShare { author := a } = _
  rw [foldl_addShare, commits_sharesIn, owned_sharesIn, Nat.zero_add, Nat.zero_add]

/-! ### Ranked within a limit -/

/-- Each author is gathered where first met. -/
theorem authors_gathered (files : List EnrichedFile) :
    (gathered files).map author = distinct (metIn files) := by
  rw [gathered_eq, List.map_map]
  exact List.map_id _

/-- As many authors are gathered as there are. -/
theorem length_gathered (files : List EnrichedFile) :
    (gathered files).length = (metIn files).toFinset.card := by
  have hset : (distinct (metIn files)).toFinset = (metIn files).toFinset := by
    ext a
    rw [List.mem_toFinset, List.mem_toFinset, mem_distinct]
  rw [← hset, List.toFinset_card_of_nodup (nodup_distinct _), ← authors_gathered, List.length_map]

/-- The authors, those with more commits first. -/
def ranking (files : List EnrichedFile) : List ContributorTotals :=
  (gathered files).mergeSort fun s t ↦ t.commits ≤ s.commits

theorem ranking_perm (files : List EnrichedFile) : (ranking files).Perm (gathered files) :=
  List.mergeSort_perm _ _

theorem ofFiles_natCast (n : Nat) (files : List EnrichedFile) :
    ofFiles n files = (ranking files).take n := rfl

/-- A limit that is not below the number of authors leaves nobody out. -/
theorem ofFiles_of_card_le {limit : Int} (h : ((metIn files).toFinset.card : Int) ≤ limit) :
    ofFiles limit files = ranking files := by
  obtain ⟨n, rfl⟩ := Int.eq_ofNat_of_zero_le (le_trans (Int.natCast_nonneg _) h)
  refine List.take_of_length_le ?_
  show (ranking files).length ≤ n
  rw [(ranking_perm files).length_eq, length_gathered]
  exact Int.ofNat_le.1 h

/-- More commits go first; among authors with as many, the one who was met first. -/
theorem pairwise_ranking (files : List EnrichedFile) :
    (ranking files).Pairwise fun s t ↦ t.commits < s.commits ∨
      s.commits = t.commits ∧ (metIn files).idxOf s.author < (metIn files).idxOf t.author := by
  refine pairwise_mergeSort_of_pairwise ContributorTotals.commits ?_
  have hfirst := (isFirstOccurrences_distinct (metIn files)).2
  rw [← authors_gathered, List.pairwise_map] at hfirst
  exact hfirst

/-- The shares of all authors hold the commits of all contributors. -/
theorem sum_commits_sharesIn (files : List EnrichedFile) :
    ((sharesIn files).map fun p ↦ p.2.1).sum =
      ((files.flatMap fun f ↦ f.ownership.contributors).map Contributor.commits).sum := by
  induction files with
  | nil => rfl
  | cons f files ih =>
    have howner : ((if isKnown f.ownership.primary then
        [(f.ownership.primary, ((0, 1) : Share))] else []).map fun p ↦ p.2.1).sum = 0 := by
      split <;> rfl
    rw [sharesIn_cons, sharesOf, List.map_append, List.map_append, List.map_map, List.sum_append,
      List.sum_append, howner, ih, List.flatMap_cons, List.map_append, List.sum_append]
    rfl

/-- The shares of all authors hold the files whose owners are known. -/
theorem sum_owned_sharesIn (files : List EnrichedFile) :
    ((sharesIn files).map fun p ↦ p.2.2).sum =
      (files.filter fun f ↦ isKnown f.ownership.primary).length := by
  induction files with
  | nil => rfl
  | cons f files ih =>
    have hcontributors : ((f.ownership.contributors.map fun c ↦
        (c.author, ((c.commits, 0) : Share))).map fun p ↦ p.2.2).sum = 0 := by
      simp [Function.comp_def]
    rw [sharesIn_cons, sharesOf, List.map_append, List.map_append, List.sum_append,
      List.sum_append, hcontributors, ih, List.filter_cons]
    split
    · simp [Nat.add_comm]
    · simp

/-- The ranked totals of authors are what they should be. -/
theorem areTotals_ranking (files : List EnrichedFile) : AreTotals files (ranking files) := by
  have hperm := ranking_perm files
  -- what is said of an author is told by the files alone, not by the order
  have hentry : ∀ t ∈ ranking files, t =
      { author := t.author, filesOwned := ownedBy t.author files
        commits := commitsOf t.author files } := by
    intro t ht
    rw [hperm.mem_iff, gathered_eq] at ht
    obtain ⟨a, -, rfl⟩ := List.mem_map.1 ht
    rfl
  have hauthors : ((ranking files).map author).Perm (distinct (metIn files)) := by
    rw [← authors_gathered]
    exact hperm.map _
  exact {
    nodup := hauthors.nodup_iff.2 (nodup_distinct _)
    mem_iff := fun a ↦ hauthors.mem_iff.trans mem_distinct
    commits := fun t ht ↦ congrArg ContributorTotals.commits (hentry t ht)
    filesOwned := fun t ht ↦ congrArg ContributorTotals.filesOwned (hentry t ht)
    ranked := pairwise_ranking files
    sum_commits := by
      have hstep (t : ContributorTotals) (s : Share) : (addShare t s).commits = t.commits + s.1 :=
        rfl
      rw [(hperm.map _).sum_nat, gathered_eq_accumulate, List.map_map, ← sum_commits_sharesIn]
      exact sum_accumulate (fun a ↦ { author := a }) addShare (fun _ ↦ rfl) hstep (sharesIn files)
    sum_filesOwned := by
      have hstep (t : ContributorTotals) (s : Share) :
          (addShare t s).filesOwned = t.filesOwned + s.2 := rfl
      rw [(hperm.map _).sum_nat, gathered_eq_accumulate, List.map_map, ← sum_owned_sharesIn]
      exact sum_accumulate (fun a ↦ { author := a }) addShare (fun _ ↦ rfl) hstep (sharesIn files) }

/-! ### In any order -/

/-- The same authors are met in any order of files. -/
theorem metIn_perm (h : files.Perm files') : (metIn files).Perm (metIn files') :=
  h.flatMap_right _

/-- The commits of an author do not depend on the order of files. -/
theorem commitsOf_eq_of_perm (h : files.Perm files') (author : String) :
    commitsOf author files = commitsOf author files' :=
  (((h.flatMap_right _).filter _).map _).sum_nat

/-- Neither does the number of files that an author owns. -/
theorem ownedBy_eq_of_perm (h : files.Perm files') (author : String) :
    ownedBy author files = ownedBy author files' :=
  (h.filter _).length_eq

/-- In another order of files the same totals are ranked, and ties perhaps in another order. -/
theorem ranking_perm_of_perm (h : files.Perm files') : (ranking files).Perm (ranking files') := by
  have hgathered : (gathered files).Perm (gathered files') := by
    rw [gathered_eq, gathered_eq]
    simp only [commitsOf_eq_of_perm h, ownedBy_eq_of_perm h]
    exact (distinct_perm (metIn_perm h)).map _
  exact (ranking_perm files).trans (hgathered.trans (ranking_perm files').symm)

end ContributorTotals

/-! ### Both -/

open ContributorTotals in
/-- **Aggregation conserves totals.** The totals of languages, and those of authors within every
limit that is not below the number of authors, are what they should be; a smaller limit keeps the
first of these authors; and files in another order have the same totals. -/
theorem totals_exact (files : List EnrichedFile) :
    LanguageTotals.AreTotals files (LanguageTotals.ofFiles files) ∧
    (∀ limit : Int, ((metIn files).toFinset.card : Int) ≤ limit →
      ContributorTotals.AreTotals files (ContributorTotals.ofFiles limit files) ∧
        ∀ n : Nat, ContributorTotals.ofFiles n files =
          (ContributorTotals.ofFiles limit files).take n) ∧
    ∀ files', files.Perm files' →
      (LanguageTotals.ofFiles files).Perm (LanguageTotals.ofFiles files') ∧
        ∀ limit : Int, ((metIn files).toFinset.card : Int) ≤ limit →
          (ContributorTotals.ofFiles limit files).Perm
            (ContributorTotals.ofFiles limit files') := by
  refine ⟨LanguageTotals.areTotals_ofFiles files, fun limit hlimit ↦ ?_, fun files' h ↦
    ⟨LanguageTotals.ofFiles_perm h, fun limit hlimit ↦ ?_⟩⟩
  · rw [ofFiles_of_card_le hlimit]
    exact ⟨areTotals_ranking files, fun n ↦ ofFiles_natCast n files⟩
  · have hset : (metIn files).toFinset = (metIn files').toFinset := by
      ext a
      rw [List.mem_toFinset, List.mem_toFinset, (metIn_perm h).mem_iff]
    rw [ofFiles_of_card_le hlimit, ofFiles_of_card_le (hset ▸ hlimit)]
    exact ranking_perm_of_perm h

/-- Three files in two languages. Two authors have three commits each, somebody has one under the
name of those who are not known, and the last file is owned by an author without commits. -/
def threeFiles : List EnrichedFile :=
  [{ analysis := { path := "/srv/a.js", lines := 3, size := 40 }
     ownership := { primary := "Ada", contributors := [⟨"Ada", 2⟩, ⟨"Ben", 1⟩] } },
    { analysis := { path := "/srv/b.py", language := "python", lines := 5, size := 60 }
      ownership := { contributors := [⟨"Ben", 2⟩, ⟨"Unknown", 1⟩] } },
    { analysis := { path := "/srv/c.js", lines := 4, size := 50 }
      ownership := { primary := "Cy", contributors := [⟨"Ada", 1⟩] } }]

open ContributorTotals in
theorem totals_exact_of_three :
    (metIn threeFiles).toFinset.card = 4 ∧ threeFiles.Perm threeFiles.reverse ∧
      LanguageTotals.ofFiles threeFiles = [("javascript", ⟨2, 7, 90⟩), ("python", ⟨1, 5, 60⟩)] ∧
      ContributorTotals.ofFiles 4 threeFiles =
        [⟨"Ada", 1, 3⟩, ⟨"Ben", 0, 3⟩, ⟨"Unknown", 0, 1⟩, ⟨"Cy", 1, 0⟩] ∧
      ContributorTotals.AreTotals threeFiles (ContributorTotals.ofFiles 4 threeFiles) ∧
      ContributorTotals.ofFiles 2 threeFiles = [⟨"Ada", 1, 3⟩, ⟨"Ben", 0, 3⟩] ∧
      (LanguageTotals.ofFiles threeFiles).Perm (LanguageTotals.ofFiles threeFiles.reverse) ∧
      (ContributorTotals.ofFiles 4 threeFiles).Perm
        (ContributorTotals.ofFiles 4 threeFiles.reverse) := by
  have hcard : (metIn threeFiles).toFinset.card = 4 := by decide
  have hlimit : ((metIn threeFiles).toFinset.card : Int) ≤ 4 := by rw [hcard]; decide
  have hreverse : threeFiles.Perm threeFiles.reverse := threeFiles.reverse_perm.symm
  have hranked : ContributorTotals.ofFiles 4 threeFiles =
      [⟨"Ada", 1, 3⟩, ⟨"Ben", 0, 3⟩, ⟨"Unknown", 0, 1⟩, ⟨"Cy", 1, 0⟩] := by
    have hgathered : gathered threeFiles =
        [⟨"Ada", 1, 3⟩, ⟨"Ben", 0, 3⟩, ⟨"Unknown", 0, 1⟩, ⟨"Cy", 1, 0⟩] := by decide
    rw [ofFiles_of_card_le hlimit, ranking, hgathered]
    exact List.mergeSort_of_pairwise (by decide)
  obtain ⟨-, hauthors, horder⟩ := totals_exact threeFiles
  obtain ⟨hexact, hcut⟩ := hauthors 4 hlimit
  obtain ⟨hlanguages, hpeople⟩ := horder threeFiles.reverse hreverse
  refine ⟨hcard, hreverse, by decide, hranked, hexact, ?_, hlanguages, hpeople 4 hlimit⟩
  have htwo := hcut 2
  rw [hranked] at htwo
  exact htwo

end RepoSurvey
