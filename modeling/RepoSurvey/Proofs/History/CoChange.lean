import Mathlib.Algebra.Order.Field.Basic
import Mathlib.Algebra.Order.Field.Rat
import Mathlib.Data.Finset.Card
import RepoSurvey.Proofs.Decimal.Nearest
import RepoSurvey.Proofs.History.Key
import RepoSurvey.Proofs.History.WholeLog
import RepoSurvey.Proofs.Ranking

/-!
# Files that change together

Which files change together with a file is told by the sets of hashes whose commits touch a file
(`LogIndex.touching`). `LogIndex.together` is the number of hashes that touch two files; it does not
matter which of them is asked for (`LogIndex.together_comm`). `IsCoChanges` says by these sets alone
what a list of co-changes is. A correlation is the double that is nearest to the exact portion of
the hashes (`IsNearest`), whatever way it is computed in, and a threshold is compared with that
double.

An index comes to its answer in another way. It walks the commits of the file, counts all files that
stand under their hashes, and ranks them by the quotients of the counts. Since the maps of the index
are dual, it walks each hash once (`LogIndex.Dual.touching_eq`) and meets a file as often as both
are touched (`LogIndex.Dual.count_met`), so its ranking is that of the files by their portions
(`relatedOf_eq`). The ranking is stable: among equals it keeps the order in which they were met
(`Ranking.pairwise_mergeSort_of_pairwise`). Rounding keeps the order of the portions, and as long as
the hashes are fewer than `2 ^ 53` it makes no two of them equal, so that the files are then ranked
by the exact portions.
-/

namespace RepoSurvey.History

open RepoSurvey.Assoc RepoSurvey.Decimal RepoSurvey.Ranking RepoSurvey.Text

/-! ### Hashes that touch a file -/

namespace LogIndex

variable {x : LogIndex} {key file hash : String}

/-- The hashes whose commits touch a file. -/
def touching (x : LogIndex) (file : String) : Finset String :=
  (x.commits.map Commit.hash).toFinset.filter fun h ↦ file ∈ x.filesOf h

/-- In how many of the hashes that touch a file another one is touched too. -/
def together (x : LogIndex) (key file : String) : Nat :=
  ((x.touching key).filter fun h ↦ file ∈ x.filesOf h).card

/-- The part of the hashes of a file in which another one is touched too. -/
def portion (x : LogIndex) (key file : String) : ℚ :=
  x.together key file / (x.touching key).card

/-- The files that are met on a walk through the commits of a file. -/
def met (x : LogIndex) (key : String) : List String :=
  ((x.commitsOf key).map Commit.hash).flatMap x.filesOf

/-- Of two files it does not matter which one is asked for. -/
theorem together_comm (x : LogIndex) (key file : String) :
    x.together key file = x.together file key := by
  rw [together, together, touching, touching, Finset.filter_filter, Finset.filter_filter]
  simp only [and_comm]

/-- Two files are touched together no more often than one of them is touched. -/
theorem together_le_card (x : LogIndex) (key file : String) :
    x.together key file ≤ (x.touching key).card :=
  Finset.card_filter_le _ _

/-- Two files are touched together at all if one of them stands under a hash that touches the other.
-/
theorem together_pos_iff :
    0 < x.together key file ↔ ∃ h ∈ x.touching key, file ∈ x.filesOf h := by
  rw [together, Finset.card_pos]
  constructor
  · rintro ⟨h, hmem⟩
    obtain ⟨htouch, hfile⟩ := Finset.mem_filter.1 hmem
    exact ⟨h, htouch, hfile⟩
  · rintro ⟨h, htouch, hfile⟩
    exact ⟨h, Finset.mem_filter.2 ⟨htouch, hfile⟩⟩

namespace Dual

/-- The hashes that touch a file are those of its commits. -/
theorem touching_eq (hx : x.Dual) (file : String) :
    x.touching file = ((x.commitsOf file).map Commit.hash).toFinset := by
  ext h
  rw [touching, Finset.mem_filter, List.mem_toFinset, List.mem_toFinset, hx.mem_hashes_commitsOf]
  refine ⟨And.right, fun hfile ↦ ⟨?_, hfile⟩⟩
  exact ((hx.sublist_commits file).map Commit.hash).subset (hx.mem_hashes_commitsOf.2 hfile)

/-- The commits of a file have as many hashes as touch it, since no hash stands there twice. -/
theorem hashesOf_commitsOf (hx : x.Dual) (file : String) :
    hashesOf (x.commitsOf file) = (x.commitsOf file).map Commit.hash ∧
      (hashesOf (x.commitsOf file)).length = (x.touching file).card := by
  have hnodup := hx.nodup_hashes_commitsOf file
  have hhashes : hashesOf (x.commitsOf file) = (x.commitsOf file).map Commit.hash :=
    distinct_of_nodup hnodup
  rw [hhashes, hx.touching_eq, List.toFinset_card_of_nodup hnodup]
  exact ⟨rfl, rfl⟩

/-- A file is met as often as it is touched together with the other one. -/
theorem count_met (hx : x.Dual) (key file : String) :
    (x.met key).count file = x.together key file := by
  have hnodup := hx.nodup_hashes_commitsOf key
  have hset : ((x.touching key).filter fun h ↦ file ∈ x.filesOf h) =
      (((x.commitsOf key).map Commit.hash).filter fun h ↦ file ∈ x.filesOf h).toFinset := by
    rw [hx.touching_eq, List.toFinset_filter]
    simp only [decide_eq_true_eq]
  rw [together, hset, List.toFinset_card_of_nodup (hnodup.filter _), met,
    count_flatMap_of_nodup hx.nodup_filesOf]

end Dual

end LogIndex

/-! ### The answer of an index -/

/-- The files that change together with `key`, by the hashes that touch them: those other than `key`
whose portion of the hashes of `key`, rounded to the nearest double, reaches the threshold. A
threshold that is a number is reached by portions that reach it exactly, and by those that are
rounded to it. Larger correlations come first, and equal ones in the order in which the files are
met in the commits of `key`; that is the order of the exact portions as long as doubles tell them
of one another. -/
structure IsCoChanges (x : LogIndex) (key : String) (threshold : Float) (cs : List CoChange) :
    Prop where
  nodup : (cs.map CoChange.file).Nodup
  ne_key : ∀ c ∈ cs, c.file ≠ key
  mem_iff : ∀ file, file ≠ key → ((∃ c ∈ cs, c.file = file) ↔
    (∃ h ∈ x.touching key, file ∈ x.filesOf h) ∧
      ∃ r, IsNearest r (x.portion key file) ∧ threshold ≤ r)
  mem_iff_of_finite : ∀ t, valueOf? threshold = some t → ∀ file, file ≠ key →
    ((∃ c ∈ cs, c.file = file) ↔ (∃ h ∈ x.touching key, file ∈ x.filesOf h) ∧
      (t ≤ x.portion key file ∨ ∃ r, IsNearest r (x.portion key file) ∧ valueOf? r = some t))
  counts : ∀ c ∈ cs, c.count = x.together key c.file ∧
    IsNearest c.correlation (x.portion key c.file)
  ordered : cs.Pairwise fun a b ↦ b.correlation < a.correlation ∨
    (a.correlation == b.correlation) = true ∧
      (x.met key).idxOf a.file < (x.met key).idxOf b.file
  ordered_exactly : (x.touching key).card < 2 ^ 53 → cs.Pairwise fun a b ↦
    x.portion key b.file < x.portion key a.file ∨
      x.portion key a.file = x.portion key b.file ∧
        (x.met key).idxOf a.file < (x.met key).idxOf b.file

/-! ### Correlations -/

section Correlation

variable {x : LogIndex} {key file file' : String} {threshold : Float}

/-- The correlation of a file with `key`. -/
def correlationOf (x : LogIndex) (key file : String) : Float :=
  share (x.together key file) (x.touching key).card

/-- The number that a correlation stands for. -/
def correlationValue (x : LogIndex) (key file : String) : ℚ :=
  (valueOf? (correlationOf x key file)).getD 0

/-- A portion is one at most, so it is far from the largest doubles. -/
theorem portion_lt_two_zpow (h : 0 < x.together key file) :
    x.portion key file < 2 ^ (1023 : ℤ) := by
  have hcard : (0 : ℚ) < (x.touching key).card := by
    exact_mod_cast h.trans_le (x.together_le_card key file)
  calc x.portion key file ≤ 1 :=
        (div_le_one hcard).2 (by exact_mod_cast x.together_le_card key file)
    _ = 2 ^ (0 : ℤ) := (zpow_zero 2).symm
    _ < 2 ^ (1023 : ℤ) := zpow_lt_zpow_right₀ one_lt_two (by decide)

/-- A correlation is the nearest double to the exact portion, and there is no other one. -/
theorem isNearest_correlationOf (h : 0 < x.together key file) :
    IsNearest (correlationOf x key file) (x.portion key file) ∧
      ∀ r, IsNearest r (x.portion key file) → valueOf? r = some (correlationValue x key file) := by
  have hcard : 0 < (x.touching key).card := h.trans_le (x.together_le_card key file)
  have hsmall := portion_lt_two_zpow h
  have hnearest : IsNearest (correlationOf x key file) (x.portion key file) := by
    obtain ⟨r, hratio, hnearest⟩ := exists_isNearest_ratio? h hcard hsmall
    rw [correlationOf, share, hratio]
    exact hnearest
  refine ⟨hnearest, fun r hr ↦ ?_⟩
  obtain ⟨v, hv⟩ := hnearest.exists_valueOf?
  rw [hr.valueOf?_eq_of_fraction hnearest h hcard hsmall, correlationValue, hv]
  rfl

theorem valueOf?_correlationOf (h : 0 < x.together key file) :
    valueOf? (correlationOf x key file) = some (correlationValue x key file) :=
  (isNearest_correlationOf h).2 _ (isNearest_correlationOf h).1

/-- A correlation reaches a threshold if the nearest double to the portion does. -/
theorem le_correlationOf_iff (h : 0 < x.together key file) :
    threshold ≤ correlationOf x key file ↔
      ∃ r, IsNearest r (x.portion key file) ∧ threshold ≤ r := by
  obtain ⟨hnearest, hunique⟩ := isNearest_correlationOf h
  refine ⟨fun hle ↦ ⟨_, hnearest, hle⟩, ?_⟩
  rintro ⟨r, hr, hle⟩
  exact (le_congr_of_valueOf? (hunique r hr) (valueOf?_correlationOf h)).1 hle

/-- A correlation reaches a threshold that is a number if the portion does, or by being it. -/
theorem le_correlationOf_iff_of_finite {t : ℚ} (h : 0 < x.together key file)
    (ht : valueOf? threshold = some t) :
    threshold ≤ correlationOf x key file ↔ t ≤ x.portion key file ∨
      ∃ r, IsNearest r (x.portion key file) ∧ valueOf? r = some t := by
  obtain ⟨hnearest, hunique⟩ := isNearest_correlationOf h
  rw [hnearest.le_iff (valueOf?_correlationOf h) ht]
  refine or_congr_right ⟨?_, ?_⟩
  · rintro rfl
    exact ⟨_, hnearest, valueOf?_correlationOf h⟩
  · rintro ⟨r, hr, hvalue⟩
    exact Option.some.inj (hvalue.symm.trans (hunique r hr))

/-- The file of the larger correlation has the larger portion. -/
theorem portion_lt_of_correlationValue_lt (h : 0 < x.together key file)
    (h' : 0 < x.together key file')
    (hlt : correlationValue x key file < correlationValue x key file') :
    x.portion key file < x.portion key file' := by
  by_contra hge
  rcases (not_lt.1 hge).lt_or_eq with hless | heq
  · exact hlt.not_ge ((isNearest_correlationOf h').1.le_of_lt (isNearest_correlationOf h).1
      (valueOf?_correlationOf h') (valueOf?_correlationOf h) hless)
  · have hvalue := (isNearest_correlationOf h).2 _ (heq ▸ (isNearest_correlationOf h').1)
    exact hlt.ne' (Option.some.inj ((valueOf?_correlationOf h').symm.trans hvalue))

/-- Unless there are very many hashes, files of one correlation have one portion. -/
theorem portion_eq_of_correlationValue_eq (h : 0 < x.together key file)
    (h' : 0 < x.together key file') (hbits : (x.touching key).card < 2 ^ 53)
    (heq : correlationValue x key file = correlationValue x key file') :
    x.portion key file = x.portion key file' := by
  have hne : ∀ {f f' : String}, 0 < x.together key f → 0 < x.together key f' →
      x.together key f < x.together key f' →
        correlationValue x key f ≠ correlationValue x key f' := fun hf hf' hlt ↦
    ((isNearest_correlationOf hf).1.lt_of_fractions (isNearest_correlationOf hf').1
      (valueOf?_correlationOf hf) (valueOf?_correlationOf hf') hf hlt
      (x.together_le_card key _) hbits).ne
  rcases lt_trichotomy (x.together key file) (x.together key file') with hlt | hcount | hlt
  · exact absurd heq (hne h h' hlt)
  · rw [LogIndex.portion, LogIndex.portion, hcount]
  · exact absurd heq.symm (hne h' h hlt)

end Correlation

section Related

variable {x : LogIndex} {key : String} {threshold : Float}

/-- Whether a file is touched often enough together with `key`. -/
def Reaches (x : LogIndex) (key : String) (threshold : Float) (file : String) : Prop :=
  threshold ≤ correlationOf x key file

instance : DecidablePred (Reaches x key threshold) := fun file ↦
  inferInstanceAs (Decidable (threshold ≤ correlationOf x key file))

/-- The files that are ranked, in the order in which they are met. -/
def rankedFiles (x : LogIndex) (key : String) (threshold : Float) : List String :=
  ((distinct (x.met key)).filter fun f ↦ f != key).filter (Reaches x key threshold)

/-- What is said of a file that changes together with `key`. -/
def coChangeOf (x : LogIndex) (key file : String) : CoChange :=
  ⟨file, x.together key file, correlationOf x key file⟩

/-- The companions of a file are those that are met in its commits, with the numbers of hashes. -/
theorem companionCounts_eq (hx : x.Dual) :
    companionCounts x key (hashesOf (x.commitsOf key)) =
      ((distinct (x.met key)).filter fun f ↦ f != key).map fun f ↦ (f, x.together key f) := by
  rw [companionCounts, (hx.hashesOf_commitsOf key).1, foldl_modify_succ, ← LogIndex.met,
    distinct_filter]
  refine List.map_congr_left fun f hf ↦ ?_
  have hne : (fun f ↦ f != key) f = true := (List.mem_filter.1 hf).2
  rw [List.count_filter (p := fun f ↦ f != key) hne, hx.count_met]

/-- Those files are ranked that are touched together with the file, other than this, and often
enough. -/
theorem mem_rankedFiles (hx : x.Dual) {file : String} :
    file ∈ rankedFiles x key threshold ↔
      file ≠ key ∧ (∃ h ∈ x.touching key, file ∈ x.filesOf h) ∧ Reaches x key threshold file := by
  have hmet : file ∈ x.met key ↔ ∃ h ∈ x.touching key, file ∈ x.filesOf h := by
    rw [LogIndex.met, List.mem_flatMap, hx.touching_eq]
    simp only [List.mem_toFinset]
  rw [rankedFiles, List.mem_filter, List.mem_filter, mem_distinct, hmet, bne_iff_ne,
    decide_eq_true_eq, and_assoc, and_left_comm]

/-- A file that is ranked is touched together with the file at least once. -/
theorem together_pos_of_mem_rankedFiles (hx : x.Dual) {file : String}
    (h : file ∈ rankedFiles x key threshold) : 0 < x.together key file :=
  LogIndex.together_pos_iff.2 ((mem_rankedFiles hx).1 h).2.1

/-- The answer of an index is a ranking of files by the numbers that their correlations stand for.
-/
theorem relatedOf_eq (hx : x.Dual) :
    relatedOf x key (x.commitsOf key) threshold =
      ((rankedFiles x key threshold).mergeSort fun a b ↦
        correlationValue x key b ≤ correlationValue x key a).map (coChangeOf x key) := by
  rw [relatedOf, companionCounts_eq hx, (hx.hashesOf_commitsOf key).2]
  simp only [List.filter_map, List.map_map]
  symm
  refine List.map_mergeSort fun a ha b hb ↦ ?_
  have ha' := valueOf?_correlationOf (together_pos_of_mem_rankedFiles hx ha)
  have hb' := valueOf?_correlationOf (together_pos_of_mem_rankedFiles hx hb)
  exact decide_eq_decide.2 (le_iff_of_valueOf? hb' ha').symm

/-- The answer of an index to a question about a file and its commits is the right one. -/
theorem isCoChanges_relatedOf (hx : x.Dual) :
    IsCoChanges x key threshold (relatedOf x key (x.commitsOf key) threshold) := by
  rw [relatedOf_eq hx]
  have hperm := List.mergeSort_perm (rankedFiles x key threshold) fun a b ↦
    correlationValue x key b ≤ correlationValue x key a
  -- the files stand in the order in which they are met, and the sort keeps it where it can
  have hmet : (rankedFiles x key threshold).Pairwise fun a b ↦
      (x.met key).idxOf a < (x.met key).idxOf b :=
    ((isFirstOccurrences_distinct (x.met key)).2.filter _).filter _
  have hranked := pairwise_mergeSort_of_pairwise (correlationValue x key) hmet
  set ranked := (rankedFiles x key threshold).mergeSort fun a b ↦
    correlationValue x key b ≤ correlationValue x key a
  have hmem : ∀ file, (∃ c ∈ ranked.map (coChangeOf x key), c.file = file) ↔ file ≠ key ∧
      (∃ h ∈ x.touching key, file ∈ x.filesOf h) ∧ Reaches x key threshold file := by
    intro file
    rw [← mem_rankedFiles hx, ← hperm.mem_iff]
    constructor
    · rintro ⟨c, hc, rfl⟩
      obtain ⟨f, hf, rfl⟩ := List.mem_map.1 hc
      exact hf
    · exact fun hfile ↦ ⟨_, List.mem_map_of_mem hfile, rfl⟩
  have hpos : ∀ file ∈ ranked, 0 < x.together key file := fun file hfile ↦
    together_pos_of_mem_rankedFiles hx (hperm.mem_iff.1 hfile)
  refine ⟨?_, fun c hc ↦ ((hmem _).1 ⟨c, hc, rfl⟩).1, fun file hfile ↦ ?_,
    fun t ht file hfile ↦ ?_, fun c hc ↦ ?_, ?_, fun hbits ↦ ?_⟩
  · rw [List.map_map]
    show (ranked.map id).Nodup
    rw [List.map_id]
    exact hperm.nodup_iff.2 (((nodup_distinct _).filter _).filter _)
  · rw [hmem, and_iff_right hfile]
    exact and_congr_right fun h ↦ le_correlationOf_iff (LogIndex.together_pos_iff.2 h)
  · rw [hmem, and_iff_right hfile]
    exact and_congr_right fun h ↦ le_correlationOf_iff_of_finite (LogIndex.together_pos_iff.2 h) ht
  · obtain ⟨file, hfile, rfl⟩ := List.mem_map.1 hc
    exact ⟨rfl, (isNearest_correlationOf (hpos file hfile)).1⟩
  · rw [List.pairwise_map]
    refine hranked.imp_of_mem fun {a b} ha hb hab ↦ ?_
    have hvalue := valueOf?_correlationOf (hpos a ha)
    have hvalue' := valueOf?_correlationOf (hpos b hb)
    exact hab.imp (lt_iff_of_valueOf? hvalue' hvalue).2
      (And.imp_left (beq_iff_of_valueOf? hvalue hvalue').2)
  · rw [List.pairwise_map]
    refine hranked.imp_of_mem fun {a b} ha hb hab ↦ ?_
    exact hab.imp (portion_lt_of_correlationValue_lt (hpos b hb) (hpos a ha))
      (And.imp_left (portion_eq_of_correlationValue_eq (hpos a ha) (hpos b hb) hbits))

end Related

namespace IsCoChanges

variable {x : LogIndex} {key file : String} {threshold threshold' : Float} {cs cs' : List CoChange}

/-- A count lies between one and the number of hashes that touch the file. -/
theorem count_bounds (h : IsCoChanges x key threshold cs) {c : CoChange} (hc : c ∈ cs) :
    1 ≤ c.count ∧ c.count ≤ (x.touching key).card := by
  rw [(h.counts c hc).1]
  refine ⟨LogIndex.together_pos_iff.2 ?_, x.together_le_card key c.file⟩
  exact ((h.mem_iff c.file (h.ne_key c hc)).1 ⟨c, hc, rfl⟩).1

/-- What two files are told of each other is the same number. -/
theorem count_eq (h : IsCoChanges x key threshold cs) (h' : IsCoChanges x file threshold' cs')
    {c c' : CoChange} (hc : c ∈ cs) (hc' : c' ∈ cs') (hfile : c.file = file)
    (hfile' : c'.file = key) : c.count = c'.count := by
  rw [(h.counts c hc).1, (h'.counts c' hc').1, hfile, hfile', x.together_comm]

end IsCoChanges

/-! ### In the course of a run -/

/-- A path has a key that neither begins nor stops with a blank. -/
def HasKey (repo path key : String) : Prop :=
  keyOf repo path = key ∧ key ≠ "" ∧ strip key = key

instance (repo path key : String) : Decidable (HasKey repo path key) :=
  inferInstanceAs (Decidable (keyOf repo path = key ∧ key ≠ "" ∧ strip key = key))

/-- **Co-changes are exact and symmetric.** Let the directory be found and the whole log be read,
with threads taking turns in any way, and let `x` be the index of the log. Whoever asks for the
files that change together with a file is given those that the hashes which touch the file
determine, each with the number of these hashes that touch it, and is given an answer once nobody
can go on. And what two files are told of each other is the same number, whatever the thresholds
are. -/
theorem co_changes_exact_and_symmetric (repo : String) (now : Int) {output log : String}
    {events : List Event} (hevents : ∀ e ∈ events, e.IsExpected)
    (hobeys : (fresh repo now).world.Obeys (readsWhole output log) events) :
    let start := (fresh repo now).world
    let root := Path.absolute repo
    let x := parseLog (belowOf output) log
    (∀ path threshold key, HasKey root path key →
      (∀ a, start.Gets events (.together path threshold) a →
        ∃ cs, a = .related cs ∧ IsCoChanges x key threshold cs ∧
          ∀ c ∈ cs, 1 ≤ c.count ∧ c.count ≤ (x.touching key).card) ∧
      (∀ before later, events = before ++ .ask [.together path threshold] :: later →
        (∀ j, (start.run events).canGoOn j = false) →
        ∃ a, (start.run events).result? (start.askerAfter before) = some (.ok (.all [a])))) ∧
    ∀ path path' threshold threshold' key key' cs cs', HasKey root path key →
      HasKey root path' key' → start.Gets events (.together path threshold) (.related cs) →
      start.Gets events (.together path' threshold') (.related cs') →
      ∀ c ∈ cs, ∀ c' ∈ cs', c.file = key' → c'.file = key → c.count = c'.count := by
  intro start root x
  have hx : x.Dual := dual_parseLog _ _
  -- a key that stays is its own key, so one file is meant on both sides of the count
  have hyields : ∀ path threshold key r, HasKey root path key →
      (readsWhole output log).MayYield root now (.together path threshold) r →
      r = .ok (.related (relatedOf x key (x.commitsOf key) threshold)) := by
    rintro path threshold key r ⟨rfl, hne, hstrip⟩ hr
    rw [eq_related_of_mayYield hne hr, keyOf_keyOf (Path.isRooted_absolute repo) hne hstrip]
  have hexact : ∀ path threshold key a, HasKey root path key →
      start.Gets events (.together path threshold) a →
      ∃ cs, a = .related cs ∧ IsCoChanges x key threshold cs := by
    intro path threshold key a hkey ha
    obtain rfl := Except.ok.inj (hyields _ _ _ _ hkey (ha.mayYield hevents hobeys))
    exact ⟨_, rfl, isCoChanges_relatedOf hx⟩
  refine ⟨fun path threshold key hkey ↦ ⟨fun a ha ↦ ?_, fun before later hsplit hstill ↦ ?_⟩, ?_⟩
  · obtain ⟨cs, rfl, hcs⟩ := hexact _ _ _ _ hkey ha
    exact ⟨cs, rfl, hcs, fun c hc ↦ hcs.count_bounds hc⟩
  · obtain ⟨r, hr, hmay⟩ := World.exists_mayEnd hsplit hevents hobeys hstill
    obtain ⟨a, rfl⟩ := hmay.exists_answer fun e he ↦ by cases hyields _ _ _ _ hkey he
    exact ⟨a, hr⟩
  · intro path path' threshold threshold' key key' cs cs' hkey hkey' hcs hcs' c hc c' hc' hfile
      hfile'
    obtain ⟨_, heq, hco⟩ := hexact _ _ _ _ hkey hcs
    obtain ⟨_, heq', hco'⟩ := hexact _ _ _ _ hkey' hcs'
    obtain rfl := Answer.related.inj heq
    obtain rfl := Answer.related.inj heq'
    exact hco.count_eq hco' hc hc' hfile hfile'

/-- Of two commits both touch one file, and the later one another too. -/
def pairLog : String :=
  "abcdef1\tAda\t2024-01-02\tMend\napp/a.js\napp/b.js\n\nabcdef0\tBen\t2024-01-01\tBegin\napp/a.js"

/-- The directory is found and the whole log is read. -/
def pairOutputs : Command → Outcome
  | .showPrefix => .ok "app/\n"
  | .fullLog => .ok pairLog
  | .fileLog _ | .listFiles => .ok ""

/-- Two clients ask, each for what changes together with one of the files. The build is thread 2 and
the check thread 3. -/
def pairEvents : List Event :=
  [.ask [.together "a.js" 0.3], .ask [.together "b.js" 0.7], .goOn 0 (.ok ""), .goOn 1 (.ok ""),
    .goOn 2 (.ok ""), .goOn 3 (.ok ""), .goOn 3 (pairOutputs .showPrefix), .goOn 2 (.ok ""),
    .goOn 2 (pairOutputs .fullLog), .goOn 0 (.ok ""), .goOn 1 (.ok "")]

/-- Two files that are touched together once are told so of each other. -/
theorem co_changes_exact_and_symmetric_of_pair :
    let start := (fresh "/srv/app" 63900000000000000).world
    let x := parseLog (belowOf "app/\n") pairLog
    (∀ e ∈ pairEvents, e.IsExpected) ∧ start.Obeys (readsWhole "app/\n" pairLog) pairEvents ∧
      (x.touching "a.js" = {"abcdef0", "abcdef1"} ∧ x.touching "b.js" = {"abcdef1"}) ∧
      ∃ cs cs', (start.run pairEvents).result? 0 = some (.ok (.all [.related cs])) ∧
        (start.run pairEvents).result? 1 = some (.ok (.all [.related cs'])) ∧
        IsCoChanges x "a.js" 0.3 cs ∧ IsCoChanges x "b.js" 0.7 cs' ∧
        ∀ c ∈ cs, ∀ c' ∈ cs', c.file = "b.js" → c'.file = "a.js" → c.count = c'.count := by
  intro start x
  have hevents : ∀ e ∈ pairEvents, e.IsExpected := by
    simp [pairEvents, Event.IsExpected, Outcome.IsExpected, pairOutputs]
  have hfixed : start.Obeys (always pairOutputs) pairEvents := by decide +kernel
  have hobeys : start.Obeys (readsWhole "app/\n" pairLog) pairEvents := hfixed.readsWhole rfl rfl
  have hthreads : (start.run pairEvents).threads.length = 4 ∧
      ∀ j : Fin 4, (start.run pairEvents).canGoOn j = false := by decide +kernel
  have hstill := World.canGoOn_eq_false_of_fin hthreads
  have ha : HasKey (Path.absolute "/srv/app") "a.js" "a.js" := by decide +kernel
  have hb : HasKey (Path.absolute "/srv/app") "b.js" "b.js" := by decide +kernel
  obtain ⟨hexact, hsymmetric⟩ :=
    co_changes_exact_and_symmetric "/srv/app" 63900000000000000 hevents hobeys
  obtain ⟨hgets, hends⟩ := hexact "a.js" 0.3 "a.js" ha
  obtain ⟨hgets', hends'⟩ := hexact "b.js" 0.7 "b.js" hb
  obtain ⟨a, hresult⟩ := hends [] _ rfl hstill
  obtain ⟨a', hresult'⟩ := hends' [.ask [.together "a.js" 0.3]] _ rfl hstill
  have hasks : start.Gets pairEvents (.together "a.js" 0.3) a :=
    ⟨[], _, _, _, rfl, hresult, List.mem_singleton.2 rfl⟩
  have hasks' : start.Gets pairEvents (.together "b.js" 0.7) a' :=
    ⟨[.ask [.together "a.js" 0.3]], _, _, _, rfl, hresult', List.mem_singleton.2 rfl⟩
  obtain ⟨cs, rfl, hcs, -⟩ := hgets a hasks
  obtain ⟨cs', rfl, hcs', -⟩ := hgets' a' hasks'
  exact ⟨hevents, hobeys, by decide +kernel, cs, cs', hresult, hresult', hcs,
    hcs', hsymmetric _ _ _ _ _ _ _ _ ha hb hasks hasks'⟩

end RepoSurvey.History
