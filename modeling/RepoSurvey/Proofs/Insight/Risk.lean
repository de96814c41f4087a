import Mathlib.Data.List.Forall2
import Mathlib.Data.List.Perm.Subperm
import RepoSurvey.Insight.Risk
import RepoSurvey.Proofs.Ranking

/-!
# The order of risk

The list of risky files is a ranking (`Ranks`): it holds the files whose score reaches the
threshold, each with its score, higher scores first and equal ones in the order of the list. A file
may stand in a list more than once, so what is ranked are the places of a list and not the files
themselves.

Scores have a bound, and bands give no fewer points to a larger value (`points_mono`); so a file
that grows keeps its score at least. That it is not moved back either (`Ranks.idxOf_le`) is a matter
of counting: a place stands behind as many others as go ahead of it
(`Ranking.idxOf_eq_length_filter`), and whatever goes ahead of the larger file went ahead of the
smaller one.
-/

namespace RepoSurvey

namespace Risk

open RepoSurvey.Ranking

/-! ### Points -/

/-- No value is given more points than the best band has. -/
theorem points_le {α : Type} [LT α] [DecidableLT α] {bands : List (α × Nat)} {most : Nat}
    (h : ∀ band ∈ bands, band.2 ≤ most) (value : α) : points bands value ≤ most := by
  rw [points]
  split
  · rename_i band hband
    exact h band (List.mem_of_find?_eq_some hband)
  · exact Nat.zero_le most

/-- The first band whose bound a value exceeds gives its points. -/
theorem points_cons (band : Nat × Nat) (bands : List (Nat × Nat)) (value : Nat) :
    points (band :: bands) value = if band.1 < value then band.2 else points bands value := by
  rw [points, List.find?_cons]
  by_cases h : band.1 < value
  · simp [h]
  · simp [h, points]

/-- Where earlier bands give no fewer points, a larger value is given no fewer. -/
theorem points_mono {bands : List (Nat × Nat)} (h : bands.Pairwise fun a b ↦ b.2 ≤ a.2)
    {v w : Nat} (hvw : v ≤ w) : points bands v ≤ points bands w := by
  induction bands with
  | nil => exact Nat.le_refl _
  | cons band bands ih =>
    obtain ⟨hband, hbands⟩ := List.pairwise_cons.1 h
    rw [points_cons, points_cons]
    by_cases hw : band.1 < w
    · rw [if_pos hw]
      split
      · exact Nat.le_refl _
      · exact points_le hband v
    · have hv : ¬band.1 < v := fun hv ↦ hw (Nat.lt_of_lt_of_le hv hvw)
      rw [if_neg hw, if_neg hv]
      exact ih hbands

/-! ### Scores -/

/-- The second file is at least as complex and as long as the first, as many people change it and as
many files depend on it, and it changes as often. -/
structure Grown (f g : EnrichedFile) : Prop where
  complexity : f.analysis.complexity ≤ g.analysis.complexity
  lines : f.analysis.lines ≤ g.analysis.lines
  contributors : f.ownership.contributors.length ≤ g.ownership.contributors.length
  dependents : f.dependents ≤ g.dependents
  frequency : g.frequency = f.frequency

/-- The scores of all five measures add up to fourteen at most. -/
theorem score_le (f : EnrichedFile) : score f ≤ 14 := by
  have hcomplexity : points complexityBands f.analysis.complexity ≤ 3 := points_le (by decide) _
  have hlines : points lineBands f.analysis.lines ≤ 3 := points_le (by decide) _
  have hfrequency : points frequencyBands f.frequency ≤ 3 :=
    points_le (by simp [frequencyBands]) _
  have hcontributors : points contributorBands f.ownership.contributors.length ≤ 2 :=
    points_le (by decide) _
  have hdependents : points dependentBands f.dependents ≤ 3 := points_le (by decide) _
  rw [score]
  omega

/-- Each measure is given no fewer points when a file has grown, so neither is the file. -/
theorem Grown.score_le {f g : EnrichedFile} (h : Grown f g) : score f ≤ score g := by
  have hcomplexity : points complexityBands f.analysis.complexity ≤
      points complexityBands g.analysis.complexity := points_mono (by decide) h.complexity
  have hlines : points lineBands f.analysis.lines ≤ points lineBands g.analysis.lines :=
    points_mono (by decide) h.lines
  have hcontributors : points contributorBands f.ownership.contributors.length ≤
      points contributorBands g.ownership.contributors.length :=
    points_mono (by decide) h.contributors
  have hdependents : points dependentBands f.dependents ≤ points dependentBands g.dependents :=
    points_mono (by decide) h.dependents
  rw [score, score, h.frequency]
  omega

/-! ### Places -/

/-- The score of the file at a place of a list. -/
def scoreAt (files : List EnrichedFile) (i : Nat) : Nat := files[i]?.elim 0 score

/-- The file at one place goes ahead of that at another: its score is higher, or it is as high and
the place comes first. -/
def Ahead (files : List EnrichedFile) (i j : Nat) : Prop :=
  scoreAt files j < scoreAt files i ∨ scoreAt files i = scoreAt files j ∧ i < j

instance (files : List EnrichedFile) : DecidableRel (Ahead files) := fun i j ↦
  inferInstanceAs (Decidable (scoreAt files j < scoreAt files i ∨ _))

/-- The files at the given places of a list, in this order, are its risky files. -/
structure Ranks (threshold : Int) (files : List EnrichedFile) (places : List Nat)
    (ranked : List RiskyFile) : Prop where
  entries : List.Forall₂ (fun i r ↦ files[i]? = some r.file ∧ r.score = score r.file) places ranked
  mem_iff : ∀ i, i ∈ places ↔ ∃ f, files[i]? = some f ∧ threshold ≤ score f
  ordered : places.Pairwise (Ahead files)

variable {threshold : Int} {files : List EnrichedFile}

theorem scoreAt_eq {f : EnrichedFile} {i : Nat} (h : files[i]? = some f) :
    scoreAt files i = score f := by
  rw [scoreAt, h, Option.elim_some]

theorem Ahead.asymm {i j : Nat} (h : Ahead files i j) : ¬Ahead files j i := by
  rw [Ahead] at h ⊢
  omega

/-- The places that are ranked, with their files. -/
def rankedPlaces (threshold : Int) (files : List EnrichedFile) : List (EnrichedFile × Nat) :=
  (files.zipIdx.filter fun p ↦ threshold ≤ score p.1).mergeSort fun p q ↦ score q.1 ≤ score p.1

/-- A place is ranked if the file there reaches the threshold. -/
theorem mem_rankedPlaces {p : EnrichedFile × Nat} :
    p ∈ rankedPlaces threshold files ↔ files[p.2]? = some p.1 ∧ threshold ≤ score p.1 := by
  rw [rankedPlaces, (List.mergeSort_perm _ _).mem_iff, List.mem_filter,
    List.mem_zipIdx_iff_getElem?, decide_eq_true_eq]

/-- A list is ranked as its places are. -/
theorem rank_eq (threshold : Int) (files : List EnrichedFile) :
    rank threshold files = (rankedPlaces threshold files).map fun p ↦ ⟨p.1, score p.1⟩ := by
  have hfiles : files.map (fun f ↦ (⟨f, score f⟩ : RiskyFile)) =
      files.zipIdx.map fun p ↦ ⟨p.1, score p.1⟩ := by
    conv_lhs => rw [← List.zipIdx_map_fst 0 files, List.map_map]
    rfl
  rw [rank, hfiles, List.filter_map, rankedPlaces]
  symm
  apply List.map_mergeSort
  intro p _ q _
  rfl

/-- Places are ranked by score, and by place where the scores are equal. -/
theorem pairwise_rankedPlaces (threshold : Int) (files : List EnrichedFile) :
    (rankedPlaces threshold files).Pairwise fun p q ↦
      score q.1 < score p.1 ∨ score p.1 = score q.1 ∧ p.2 < q.2 := by
  have hplaces : files.zipIdx.Pairwise fun p q ↦ p.2 < q.2 := by
    rw [← List.pairwise_map, List.zipIdx_map_snd]
    exact List.pairwise_lt_range'
  exact pairwise_mergeSort_of_pairwise (fun p : EnrichedFile × Nat ↦ score p.1)
    (hplaces.filter _)

/-- The list of risky files is ranked as it should be. -/
theorem ranks_rank (threshold : Int) (files : List EnrichedFile) :
    Ranks threshold files ((rankedPlaces threshold files).map Prod.snd) (rank threshold files) where
  entries := by
    rw [rank_eq, List.forall₂_map_left_iff, List.forall₂_map_right_iff, List.forall₂_same]
    exact fun p hp ↦ ⟨(mem_rankedPlaces.1 hp).1, rfl⟩
  mem_iff := by
    intro i
    rw [List.mem_map]
    constructor
    · rintro ⟨p, hp, rfl⟩
      exact ⟨p.1, mem_rankedPlaces.1 hp⟩
    · rintro ⟨f, hf⟩
      exact ⟨(f, i), mem_rankedPlaces.2 hf, rfl⟩
  ordered := by
    rw [List.pairwise_map]
    refine (pairwise_rankedPlaces threshold files).imp_of_mem fun {p q} hp hq h ↦ ?_
    rw [Ahead, scoreAt_eq (mem_rankedPlaces.1 hp).1, scoreAt_eq (mem_rankedPlaces.1 hq).1]
    exact h

/-! ### A file that has grown -/

variable {places places' : List Nat} {ranked ranked' : List RiskyFile} {i : Nat}
  {f g : EnrichedFile}

/-- No place is ranked twice. -/
theorem Ranks.nodup (h : Ranks threshold files places ranked) : places.Nodup := by
  refine h.ordered.imp fun hahead heq ↦ ?_
  subst heq
  exact hahead.asymm hahead

theorem scoreAt_set_of_ne {j : Nat} (hj : j ≠ i) (g : EnrichedFile) :
    scoreAt (files.set i g) j = scoreAt files j := by
  rw [scoreAt, scoreAt, List.getElem?_set_ne (Ne.symm hj)]

/-- What goes ahead of a file that has grown went ahead of it before. -/
theorem ahead_of_ahead_set (hi : files[i]? = some f) (hg : (files.set i g)[i]? = some g)
    (hscore : score f ≤ score g) {j : Nat} (hj : Ahead (files.set i g) j i) : Ahead files j i := by
  have hne : j ≠ i := by
    rintro rfl
    exact hj.asymm hj
  rw [Ahead, scoreAt_set_of_ne hne, scoreAt_eq hg] at hj
  rw [Ahead, scoreAt_eq hi]
  omega

/-- A file that is replaced by one with no lower score is still ranked, and not behind where it
stood. -/
theorem Ranks.idxOf_le (h : Ranks threshold files places ranked)
    (h' : Ranks threshold (files.set i g) places' ranked') (hi : files[i]? = some f)
    (hscore : score f ≤ score g) (hmem : i ∈ places) :
    i ∈ places' ∧ places'.idxOf i ≤ places.idxOf i := by
  have hg : (files.set i g)[i]? = some g :=
    List.getElem?_set_self (List.getElem?_eq_some_iff.1 hi).1
  have hmem' : i ∈ places' := by
    obtain ⟨f', hf', hthreshold⟩ := (h.mem_iff i).1 hmem
    obtain rfl : f' = f := Option.some.inj (hf'.symm.trans hi)
    exact (h'.mem_iff i).2 ⟨g, hg, by omega⟩
  -- no file comes to go ahead of the one whose score has risen
  have hahead : ∀ j ∈ places', Ahead (files.set i g) j i → j ∈ places ∧ Ahead files j i := by
    intro j hj hji
    have hne : j ≠ i := by
      rintro rfl
      exact hji.asymm hji
    obtain ⟨f', hf', hthreshold⟩ := (h'.mem_iff j).1 hj
    rw [List.getElem?_set_ne (Ne.symm hne)] at hf'
    exact ⟨(h.mem_iff j).2 ⟨f', hf', hthreshold⟩, ahead_of_ahead_set hi hg hscore hji⟩
  have hsubset : (places'.filter fun j ↦ Ahead (files.set i g) j i) ⊆
      places.filter fun j ↦ Ahead files j i := by
    intro j hj
    obtain ⟨hj, hji⟩ := List.mem_filter.1 hj
    obtain ⟨hj, hji⟩ := hahead j hj (of_decide_eq_true hji)
    exact List.mem_filter.2 ⟨hj, decide_eq_true hji⟩
  refine ⟨hmem', ?_⟩
  rw [idxOf_eq_length_filter (fun _ _ ↦ Ahead.asymm) h'.ordered hmem',
    idxOf_eq_length_filter (fun _ _ ↦ Ahead.asymm) h.ordered hmem]
  exact (List.Nodup.subperm (h'.nodup.filter _) hsubset).length_le

/-- **The order of risk is sound and monotone.** Under every threshold the risky files of a list are
those that reach it, each with its score, higher scores first and equal ones in the order of the
list; scores go up to 14. If a file of the list is replaced by one that has grown, its score does
not go down, and if it was risky it still is and does not move back. -/
theorem rank_sound_and_monotone (threshold : Int) (files : List EnrichedFile) :
    (∃ places, Ranks threshold files places (rank threshold files)) ∧ (∀ f, score f ≤ 14) ∧
      ∀ i f g, files[i]? = some f → Grown f g →
        score f ≤ score g ∧
          ∀ places places', Ranks threshold files places (rank threshold files) →
            Ranks threshold (files.set i g) places' (rank threshold (files.set i g)) →
            i ∈ places → i ∈ places' ∧ places'.idxOf i ≤ places.idxOf i :=
  ⟨⟨_, ranks_rank threshold files⟩, score_le, fun _ _ _ hi hgrown ↦
    ⟨hgrown.score_le, fun _ _ h h' ↦ h.idxOf_le h' hi hgrown.score_le⟩⟩

/-- A file of the given complexity and length. -/
def plainFile (complexity lines : Nat) : EnrichedFile :=
  { analysis := { path := "/srv/a.js", complexity, lines } }

/-- Of three files that are equally complex the second becomes longer, which takes it to the
front. -/
theorem rank_sound_and_monotone_of_longer :
    let files := [plainFile 25 100, plainFile 25 100, plainFile 3 100]
    let longer := plainFile 25 400
    files[1]? = some (plainFile 25 100) ∧ Grown (plainFile 25 100) longer ∧
      (score (plainFile 25 100) = 3 ∧ score longer = 5 ∧ score (plainFile 3 100) = 0) ∧
      ∃ places places', Ranks 2 files places (rank 2 files) ∧
        Ranks 2 (files.set 1 longer) places' (rank 2 (files.set 1 longer)) ∧
        1 ∈ places ∧ 1 ∈ places' ∧ places'.idxOf 1 ≤ places.idxOf 1 := by
  intro files longer
  have hfile : files[1]? = some (plainFile 25 100) := rfl
  have hgrown : Grown (plainFile 25 100) longer :=
    ⟨by decide, by decide, by decide, by decide, rfl⟩
  have hscores : score (plainFile 25 100) = 3 ∧ score longer = 5 ∧ score (plainFile 3 100) = 0 := by
    decide +kernel
  obtain ⟨⟨places, h⟩, -, hreplaced⟩ := rank_sound_and_monotone 2 files
  obtain ⟨⟨places', h'⟩, -, -⟩ := rank_sound_and_monotone 2 (files.set 1 longer)
  obtain ⟨-, hplaces⟩ := hreplaced 1 _ longer hfile hgrown
  have hrisky : 1 ∈ places := (h.mem_iff 1).2 ⟨_, hfile, by rw [hscores.1]; decide⟩
  obtain ⟨hstill, hidx⟩ := hplaces places places' h h' hrisky
  exact ⟨hfile, hgrown, hscores, places, places', h, h', hrisky, hstill, hidx⟩

end Risk

end RepoSurvey
