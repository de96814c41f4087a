import Mathlib.Algebra.BigOperators.Group.Finset.Basic
import RepoSurvey.Proofs.History.FileQuestions
import RepoSurvey.Proofs.Ranking

/-!
# Who has changed a file

`IsOwnership` says what commits make of a file's ownership: each of their authors stands once, with
the number of commits that are theirs, more commits come first, and of those with as many comes
first who is met first in the commits. So the numbers add up to the number of commits.

The answer is a ranking of the authors by these numbers (`rankedAuthors_eq`). That it keeps authors
with equal numbers in the order in which they are met is the stability of rankings
(`Ranking.pairwise_mergeSort_of_pairwise`), and that nobody is lost is that a ranking only changes
the order.
-/

namespace RepoSurvey.History

open RepoSurvey.Assoc RepoSurvey.Ranking

/-- The authors of commits, one for each commit. -/
def authorsOf (cs : List Commit) : List String := cs.map Commit.author

/-- What commits say of who has changed a file. -/
structure IsOwnership (cs : List Commit) (o : Ownership) : Prop where
  nodup : (o.contributors.map Contributor.author).Nodup
  mem_iff : ∀ author, author ∈ o.contributors.map Contributor.author ↔ author ∈ authorsOf cs
  commits : ∀ c ∈ o.contributors, c.commits = (authorsOf cs).count c.author
  ordered : o.contributors.Pairwise fun a b ↦ b.commits < a.commits ∨
    a.commits = b.commits ∧ (authorsOf cs).idxOf a.author < (authorsOf cs).idxOf b.author
  primary : o.contributors.head?.map Contributor.author = some o.primary
  sum : (o.contributors.map Contributor.commits).sum = o.totalCommits
  total : o.totalCommits = cs.length

variable {cs : List Commit}

/-- The authors of commits, those with more commits first. -/
def rankedNames (cs : List Commit) : List String :=
  (distinct (authorsOf cs)).mergeSort fun a b ↦ (authorsOf cs).count b ≤ (authorsOf cs).count a

theorem authorCounts_eq (cs : List Commit) :
    authorCounts cs = (distinct (authorsOf cs)).map fun a ↦ (a, (authorsOf cs).count a) := by
  rw [authorCounts, ← foldl_modify_succ, authorsOf, List.foldl_map]

/-- The answer ranks the authors by their numbers of commits. -/
theorem rankedAuthors_eq (cs : List Commit) :
    rankedAuthors cs = (rankedNames cs).map fun a ↦ ⟨a, (authorsOf cs).count a⟩ := by
  rw [rankedAuthors, authorCounts_eq, mergeSort_map_rank, List.map_map, rankedNames]
  rfl

/-- A ranking puts the authors into another order, and that is all. -/
theorem rankedNames_perm (cs : List Commit) :
    (rankedNames cs).Perm (distinct (authorsOf cs)) :=
  List.mergeSort_perm _ _

theorem nodup_rankedNames (cs : List Commit) : (rankedNames cs).Nodup :=
  (rankedNames_perm cs).nodup_iff.2 (nodup_distinct _)

theorem mem_rankedNames {author : String} : author ∈ rankedNames cs ↔ author ∈ authorsOf cs :=
  (rankedNames_perm cs).mem_iff.trans mem_distinct

/-- The numbers of commits of all authors make up the number of commits. -/
theorem sum_count_rankedNames (cs : List Commit) :
    ((rankedNames cs).map fun a ↦ (authorsOf cs).count a).sum = cs.length := by
  have hset : (rankedNames cs).toFinset = (authorsOf cs).toFinset := by
    ext author
    rw [List.mem_toFinset, List.mem_toFinset, mem_rankedNames]
  calc ((rankedNames cs).map fun a ↦ (authorsOf cs).count a).sum
      = ∑ a ∈ (rankedNames cs).toFinset, (authorsOf cs).count a :=
        (List.sum_toFinset _ (nodup_rankedNames cs)).symm
    _ = ∑ a ∈ (authorsOf cs).toFinset, (authorsOf cs).count a := by rw [hset]
    _ = (authorsOf cs).length := List.sum_toFinset_count_eq_length _
    _ = cs.length := List.length_map _

/-- Some author is ranked first, if there are commits. -/
theorem exists_rankedNames_eq_cons (hcs : cs ≠ []) : ∃ first others,
    rankedNames cs = first :: others := by
  refine List.exists_cons_of_ne_nil fun hnil ↦ ?_
  obtain ⟨c, later, rfl⟩ := List.exists_cons_of_ne_nil hcs
  have hfirst : c.author ∈ rankedNames (c :: later) := mem_rankedNames.2 List.mem_cons_self
  rw [hnil] at hfirst
  exact absurd hfirst List.not_mem_nil

/-- Of two authors the one with more commits is ranked first, and of equals the one who is met
first. -/
theorem pairwise_rankedNames (cs : List Commit) :
    (rankedNames cs).Pairwise fun a b ↦
      (authorsOf cs).count b < (authorsOf cs).count a ∨
        (authorsOf cs).count a = (authorsOf cs).count b ∧
          (authorsOf cs).idxOf a < (authorsOf cs).idxOf b :=
  pairwise_mergeSort_of_pairwise _ (isFirstOccurrences_distinct (authorsOf cs)).2

/-- What is answered is the ownership of the commits. -/
theorem isOwnership_ownershipOf (hcs : cs ≠ []) : IsOwnership cs (ownershipOf cs) := by
  obtain ⟨first, others, hranked⟩ := exists_rankedNames_eq_cons hcs
  have hcontributors : (ownershipOf cs).contributors =
      (rankedNames cs).map fun a ↦ ⟨a, (authorsOf cs).count a⟩ := by
    rw [ownershipOf, rankedAuthors_eq, hranked]
    rfl
  have htotal : (ownershipOf cs).totalCommits = cs.length := by
    rw [ownershipOf, rankedAuthors_eq, hranked]
    rfl
  have hauthors : (ownershipOf cs).contributors.map Contributor.author = rankedNames cs := by
    rw [hcontributors, List.map_map]
    exact List.map_id _
  refine ⟨?_, fun author ↦ ?_, fun c hc ↦ ?_, ?_, ?_, ?_, htotal⟩
  · rw [hauthors]
    exact nodup_rankedNames cs
  · rw [hauthors]
    exact mem_rankedNames
  · rw [hcontributors] at hc
    obtain ⟨author, -, rfl⟩ := List.mem_map.1 hc
    rfl
  · rw [hcontributors, List.pairwise_map]
    exact pairwise_rankedNames cs
  · rw [ownershipOf, rankedAuthors_eq, hranked]
    rfl
  · rw [hcontributors, List.map_map, htotal]
    exact sum_count_rankedNames cs

/-- Equal numbers keep the order in which authors are met. -/
example : ownershipOf [⟨"", "Ben", "", ""⟩, ⟨"", "Ada", "", ""⟩, ⟨"", "Cy", "", ""⟩,
    ⟨"", "Ada", "", ""⟩] = ⟨"Ada", [⟨"Ada", 2⟩, ⟨"Ben", 1⟩, ⟨"Cy", 1⟩], 4⟩ := by
  cbv

/-- **Ownership accounts for every commit.** Let questions be asked one after the other, where every
command may succeed, or fail as expected. Whoever asks who has changed a file is told what the
commits say of it that would have been told instead: each author once with the number of their
commits, more commits first and equals in the order of their first commits, with the first author as
the primary one; and the numbers add up to that of the commits. Where there are no commits nobody is
named. The same is told where threads take turns, of commits that somebody may be told who asks for
these. -/
theorem ownership_accounts_for_every_commit (repo : String) (now : Int) {script : Script}
    (hscript : script.IsExpected) (earlier : List Query) (path : String) :
    let start := fresh repo now
    let t := start.afterAsking script earlier
    let Owns (cs : List Commit) (a : Answer) : Prop :=
      ∃ o, a = .ownership o ∧ (cs ≠ [] → IsOwnership cs o) ∧ (cs = [] → o = {})
    (∃ cs a, (t.ask script (.history path)).2 = .ok (.commits cs) ∧
      (t.ask script (.ownership path)).2 = .ok a ∧ Owns cs a) ∧
    ∀ (b : Outcomes) (events : List Event), (∀ e ∈ events, e.IsExpected) →
      start.world.Obeys b events → ∀ a, start.world.Gets events (.ownership path) a →
        ∃ cs, b.MayYield (Path.absolute repo) now (.history path) (.ok (.commits cs)) ∧
          Owns cs a := by
  intro start t Owns
  have howns : ∀ cs, Owns cs (World.answerOf (.ownership path) cs) := by
    intro cs
    refine ⟨ownershipOf cs, rfl, isOwnership_ownershipOf, ?_⟩
    rintro rfl
    exact (Answer.ownership.inj (default_eq_answerOf (q := .ownership path) rfl)).symm
  exact answers_from_commits repo now hscript earlier rfl howns

/-- Four commits of a file by three authors, of whom two have one each. -/
def sharedLog : String :=
  "abcdef3\tBen\t2024-01-04\tMend\na.js\n\nabcdef2\tAda\t2024-01-03\tGrow\na.js\nb.js\n\n" ++
    "abcdef1\tCy\t2024-01-02\tTrim\na.js\n\nabcdef0\tAda\t2024-01-01\tBegin\na.js"

/-- The author of two commits is ranked first, and of the two others the one who is met first. -/
theorem ownership_accounts_for_every_commit_of_shared :
    let script := topScript sharedLog
    let t := (fresh "/srv/app" 63900000000000000).afterAsking script [.history "b.js"]
    script.IsExpected ∧ ∃ cs o,
      (t.ask script (.history "a.js")).2 = .ok (.commits cs) ∧
        (t.ask script (.ownership "a.js")).2 = .ok (.ownership o) ∧
        authorsOf cs = ["Ben", "Ada", "Cy", "Ada"] ∧ IsOwnership cs o := by
  intro script t
  have hexpected : script.IsExpected := isExpected_topScript sharedLog
  obtain ⟨⟨cs, a, hhistory, hownership, o, rfl, howns, -⟩, -⟩ :=
    ownership_accounts_for_every_commit "/srv/app" 63900000000000000 hexpected [.history "b.js"]
      "a.js"
  have hauthors : authorsOf (toldCommits (t.ask script (.history "a.js")).2) =
      ["Ben", "Ada", "Cy", "Ada"] := by
    decide +kernel
  -- The instance is fixed now, so that nothing unfolds it.
  have ht : (fresh "/srv/app" 63900000000000000).afterAsking script [.history "b.js"] = t :=
    rfl
  rw [ht] at hhistory hownership
  clear_value t
  rw [hhistory] at hauthors
  refine ⟨hexpected, cs, o, hhistory, hownership, hauthors, howns ?_⟩
  rintro rfl
  cases hauthors

end RepoSurvey.History
