import RepoSurvey.Proofs.History.FixedOutcomes
import RepoSurvey.Proofs.Survey.Enrichment
import RepoSurvey.Proofs.Survey.Groundwork

/-!
# How many files at a time

How many files are looked at beside each other decides only how many questions are open at once, and
the order in which commands end decides only who waits for whom. `MayMake` says what a survey may
come to, with this order left open. Where each git command always has the same outcome, a question
may have one answer only, so each file is enriched in one way only (`rightUnique_enriched`) and all
these surveys are the same, for every number of files (`make_concurrency_eq`). What is noted on the
way is not: a batch is noted when it is begun.
-/

namespace RepoSurvey

open RepoSurvey.History

/-- Groundwork with another number of files at a time. -/
def Groundwork.withConcurrency (n : Int) (g : Groundwork) : Groundwork :=
  { g with options := { g.options with concurrency := n } }

/-- The groundwork is the same for any number of files at a time. -/
theorem Groundwork.exists_make_concurrency (files : FileTree) (path : String) (o : Options)
    (n : Int) : ∃ m, (Groundwork.make files path { o with concurrency := n }).2 =
      (Groundwork.make files path o).2.map (withConcurrency m) := by
  rw [make, make]
  rcases findRoot files path with fault | root
  · exact ⟨0, rfl⟩
  rcases hconfig : config files root with fault | ⟨c, notes⟩
  · simp only [hconfig]
    exact ⟨0, rfl⟩
  simp only [hconfig]
  -- under every configuration the options still differ only in this number
  refine ⟨(c.apply { o with concurrency := n }).concurrency, ?_⟩
  have hignore : (c.apply { o with concurrency := n }).ignore = (c.apply o).ignore := rfl
  rw [hignore]
  rcases (Scan.course files root (c.apply o).ignore).fault with - | fault
  · rcases Imports.loadAliases files root with fault | load <;> rfl
  · rfl

namespace Survey

/-- Where each command always has the same outcome, a file is enriched in one way only. -/
theorem rightUnique_enriched (fixed : Command → Outcome) (now : Int) (g : Groundwork) :
    Relator.RightUnique (Enriched (always fixed) now g) := by
  rintro a f f' ⟨answers, hanswers, rfl⟩ ⟨answers', hanswers', rfl⟩
  have hunique : Relator.RightUnique fun q a ↦
      (always fixed).MayYield (Path.absolute g.root) now q (.ok a) := fun q a a' h h' ↦
    Except.ok.inj ((eq_answerGiven_of_mayYield h).trans (eq_answerGiven_of_mayYield h').symm)
  rw [hunique.forall₂ hanswers hanswers']

/-- What a survey may come to, with the threads of every batch in any order. -/
def MayMake (b : Outcomes) (files : FileTree) (now : Time.Moment) (path : String) (o : Options)
    (r : Except SurveyFault Survey) : Prop :=
  match (Groundwork.make files path o).2 with
  | .error fault => r = .error fault
  | .ok g => ∃ found, MayEnrich b g (fresh g.root now.instant).world
      (Batches.batches g.options.concurrency g.analyses) found ∧
        r = match found with
          | .error fault => .error (.history fault)
          | .ok files => .ok (ofFiles g files now.stamp)

section AnyOrder

variable {b : Outcomes} {git : Script} {g : Groundwork} {path : String} {o : Options}
  {r : Except SurveyFault Survey}

/-- What a survey makes in the order of the queue is something that it may come to. -/
theorem mayMake_make (hgit : git.IsExpected) (hobeys : git.Obeys b) (files : FileTree)
    (now : Time.Moment) (path : String) (o : Options) :
    MayMake b files now path o (make { files, git, now } path o).2 := by
  rw [MayMake, make]
  rcases Groundwork.make files path o with ⟨notes, fault | g⟩
  · rfl
  · have henrich := mayEnrich_runBatches hgit hobeys
      (Turns.quiet_fresh b g.root now.instant) (Batches.batches g.options.concurrency g.analyses)
    exact ⟨_, henrich, rfl⟩

/-- Whatever the order, a survey fails as its groundwork does, or finds files that the history has
answered about. -/
theorem MayMake.cases {files : FileTree} {now : Time.Moment} (h : MayMake b files now path o r) :
    (∃ fault, (Groundwork.make files path o).2 = .error fault ∧ r = .error fault) ∨
      ∃ g found, (Groundwork.make files path o).2 = .ok g ∧
        List.Forall₂ (Enriched b now.instant g) g.analyses found ∧
        r = .ok (ofFiles g found now.stamp) := by
  rw [MayMake] at h
  rcases hg : (Groundwork.make files path o).2 with fault | g <;> rw [hg] at h
  · exact Or.inl ⟨fault, rfl, h⟩
  · obtain ⟨found, henrich, rfl⟩ := h
    obtain ⟨found, rfl, hfound⟩ := henrich.forall₂ (World.inUse_fresh b g.root now.instant)
    rw [Batches.batches, Batches.flatMap_chunks] at hfound
    exact Or.inr ⟨g, found, rfl, hfound, rfl⟩

end AnyOrder

/-- Where each command always has the same outcome, surveys with options that differ only in the
number of files at a time come to the same, in whatever orders. -/
theorem MayMake.eq_of_concurrency {fixed : Command → Outcome} {files : FileTree}
    {now : Time.Moment} {path : String} {o : Options} {n : Int} {r r' : Except SurveyFault Survey}
    (h : MayMake (always fixed) files now path o r)
    (h' : MayMake (always fixed) files now path { o with concurrency := n } r') : r' = r := by
  obtain ⟨m, hm⟩ := Groundwork.exists_make_concurrency files path o n
  rcases h.cases with ⟨fault, hg, rfl⟩ | ⟨g, found, hg, hfound, rfl⟩ <;> rw [hg] at hm <;>
    rcases h'.cases with ⟨fault', hg', rfl⟩ | ⟨g', found', hg', hfound', rfl⟩ <;>
    have heq := hg'.symm.trans hm
  · rw [Except.error.inj heq]
  · cases heq
  · cases heq
  · obtain rfl : g' = g.withConcurrency m := Except.ok.inj heq
    -- what is asked about a file does not depend on how many are looked at beside it
    have hsame : found' = found := (rightUnique_enriched fixed now.instant g).forall₂ hfound' hfound
    rw [hsame]
    rfl

/-- **The number of files at a time does not change a survey.** Where each git command always has
the same outcome, an output or a failure that is expected, surveys with options that differ only in
this number find the same, or fail by the same fault. This goes for surveys that are made in the
order of the queue, and for all others: whatever the orders in which commands end, a survey with any
number of files at a time comes to what one with any other number comes to. -/
theorem make_concurrency_eq (files : FileTree) {fixed : Command → Outcome}
    (hfixed : ∀ c, (fixed c).IsExpected) (now : Time.Moment) (path : String) (o : Options)
    (n : Int) :
    let site : Site := { files, git := fun _ c ↦ fixed c, now }
    (make site path { o with concurrency := n }).2 = (make site path o).2 ∧
      MayMake (always fixed) files now path o (make site path o).2 ∧
      ∀ r r', MayMake (always fixed) files now path o r →
        MayMake (always fixed) files now path { o with concurrency := n } r' → r' = r := by
  intro site
  have hgit : site.git.IsExpected := fun _ c ↦ hfixed c
  have hobeys : site.git.Obeys (always fixed) := obeys_always fixed
  have hmake := mayMake_make hgit hobeys files now path o
  have hmake' := mayMake_make hgit hobeys files now path { o with concurrency := n }
  exact ⟨hmake.eq_of_concurrency hmake', hmake, fun r r' h h' ↦ h.eq_of_concurrency h'⟩

/-- A repository in which the whole log cannot be had and the logs of files can: its files are
looked at together or one by one. -/
theorem make_concurrency_eq_of_links :
    let fixed : Command → Outcome
      | .showPrefix => .ok "\n"
      | .fullLog => .error (.exit 128 "fatal: bad object HEAD")
      | _ => .ok ""
    let site : Site :=
      { files := Scan.linkedTree, git := fun _ c ↦ fixed c, now := { date := ⟨2024, 6, 1⟩ } }
    (∀ c, (fixed c).IsExpected) ∧ ∃ s, (make site "/repo" Options.usual).2 = .ok s ∧
      (make site "/repo" { Options.usual with concurrency := 1 }).2 = .ok s ∧
      ∀ r, MayMake (always fixed) Scan.linkedTree { date := ⟨2024, 6, 1⟩ } "/repo"
        { Options.usual with concurrency := 1 } r → r = .ok s := by
  intro fixed site
  have hfixed : ∀ c, (fixed c).IsExpected := by
    rintro (_ | _ | key | _) fault h
    · cases h
    · cases h
      rfl
    · cases h
    · cases h
  have hgit : site.git.IsExpected := fun _ c ↦ hfixed c
  have hobeys : site.git.Obeys (always fixed) := obeys_always fixed
  obtain ⟨g, hg⟩ := Groundwork.exists_make_linkedTree Options.usual
  obtain ⟨found, -, hmake⟩ := exists_make_eq_ok hgit hobeys site.files site.now hg
  obtain ⟨heq, hmay, hany⟩ :=
    make_concurrency_eq Scan.linkedTree hfixed site.now "/repo" Options.usual 1
  exact ⟨hfixed, _, hmake, heq.trans hmake, fun r hr ↦ (hany _ r hmay hr).trans hmake⟩

end Survey

end RepoSurvey
