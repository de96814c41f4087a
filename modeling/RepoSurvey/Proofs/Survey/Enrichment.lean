import RepoSurvey.Proofs.History.Together
import RepoSurvey.Survey.Make

/-!
# What the history says of files

A survey asks the history about every analysed file, batch after batch. In which order the threads
of a batch go on is left open (`MayEnrich`); the queue of `Turns` is one such order
(`mayEnrich_runBatches`). Whatever the order, the questions that are asked cannot fail, so every
batch is answered and leaves a history that can be asked again; and so each file is enriched by
answers that its own questions may have, whatever the size of batches (`MayEnrich.forall₂`). A
survey fails only in its groundwork (`exists_make_eq_ok`).

An answer changes what is known of the history of a file and nothing else, so what every answer
keeps a file has in the end (`ofAnswers_induction`): its analysis and its place in the import graph,
and no more related files than are wanted.
-/

namespace RepoSurvey

open RepoSurvey.History

/-- Batches are the items in their order, whatever the limit on their size. -/
theorem Batches.flatMap_chunks {α : Type} (others start : Nat) (items : List α) :
    (chunks others start items).flatMap Prod.snd = items := by
  fun_induction chunks others start items with
  | case1 => rfl
  | case2 start a rest ih => rw [List.flatMap_cons, ih, List.cons_append, List.take_append_drop]

/-- A limit that is not negative is kept to. -/
theorem length_within_le {α : Type} {limit : Int} (h : 0 ≤ limit) (xs : List α) :
    ((within limit xs).length : Int) ≤ limit := by
  obtain ⟨n, rfl⟩ := Int.eq_ofNat_of_zero_le h
  show ((xs.take n).length : Int) ≤ n
  have hle := List.length_take_le n xs
  omega

namespace EnrichedFile

/-- What a survey asks about a file cannot fail. -/
theorem not_mayYield_error {b : Outcomes} {repo path : String} {now : Int}
    {o : Options} {q : Query} (hq : q ∈ questions o path) (e : Fault) :
    ¬b.MayYield repo now q (.error e) := by
  intro h
  rcases h.fault with ⟨rfl, -⟩ | ⟨days, fault, rfl, -⟩
  · simp [questions] at hq
  · simp [questions] at hq

/-- What a file has before anything is known of its history, and keeps with every answer, it has in
the end. -/
theorem ofAnswers_induction {motive : EnrichedFile → Prop} {g : Groundwork} {a : FileAnalysis}
    {answers : List Answer}
    (hstart : motive { analysis := a, node := (g.graph.lookup a.path).getD {} })
    (hlearn : ∀ f, motive f → ∀ x ∈ answers, motive (f.learn g.options.relatedLimit x)) :
    motive (ofAnswers g a answers) :=
  List.foldlRecOn answers _ hstart hlearn

end EnrichedFile

namespace Survey

variable {b : Outcomes} {git : Script} {g : Groundwork} {now : Int}

/-- A file has been enriched by answers that the questions about it may have. -/
def Enriched (b : Outcomes) (now : Int) (g : Groundwork) (a : FileAnalysis) (f : EnrichedFile) :
    Prop :=
  ∃ answers, List.Forall₂ (fun q a ↦ b.MayYield (Path.absolute g.root) now q (.ok a))
    (EnrichedFile.questions g.options a.path) answers ∧ f = EnrichedFile.ofAnswers g a answers

/-- Files are enriched by the answers that were asked for them. -/
theorem forall₂_enriched {answers : List (List Answer)} {batch : List FileAnalysis}
    (h : List.Forall₂ (fun a ↦ List.Forall₂ (fun q a ↦ b.MayYield (Path.absolute g.root) now q
      (.ok a)) (EnrichedFile.questions g.options a.path)) batch answers) :
    List.Forall₂ (Enriched b now g) batch
      (List.zipWith (EnrichedFile.ofAnswers g) batch answers) := by
  induction h with
  | nil => exact .nil
  | cons hyield _ ih => exact .cons ⟨_, hyield, rfl⟩ ih

namespace Enriched

variable {a : FileAnalysis} {f : EnrichedFile}

theorem analysis_eq (h : Enriched b now g a f) : f.analysis = a := by
  obtain ⟨answers, -, rfl⟩ := h
  refine EnrichedFile.ofAnswers_induction (motive := fun f ↦ f.analysis = a) rfl ?_
  intro f hf x _
  cases x <;> exact hf

theorem node_eq (h : Enriched b now g a f) : f.node = (g.graph.lookup a.path).getD {} := by
  obtain ⟨answers, -, rfl⟩ := h
  refine EnrichedFile.ofAnswers_induction
    (motive := fun f ↦ f.node = (g.graph.lookup a.path).getD {}) rfl ?_
  intro f hf x _
  cases x <;> exact hf

theorem length_related_le (h : Enriched b now g a f) (hlimit : 0 ≤ g.options.relatedLimit) :
    (f.related.length : Int) ≤ g.options.relatedLimit := by
  obtain ⟨answers, -, rfl⟩ := h
  refine EnrichedFile.ofAnswers_induction
    (motive := fun f ↦ (f.related.length : Int) ≤ g.options.relatedLimit) hlimit ?_
  intro f hf x _
  cases x with
  | related cs => exact length_within_le hlimit cs
  | _ => exact hf

/-- Nobody asks for related files that are not wanted, and no other question is answered by
them. -/
theorem related_eq_nil (h : Enriched b now g a f) (hoff : g.options.includeRelated = false) :
    f.related = [] := by
  obtain ⟨answers, hanswers, rfl⟩ := h
  refine EnrichedFile.ofAnswers_induction (motive := fun f ↦ f.related = []) rfl ?_
  intro f hf x hx
  obtain ⟨q, hq, hyield⟩ := exists_mem_of_forall₂ hanswers hx
  -- an answer is of the kind of its question
  have hfits := hyield.fits
  have hquestion : q = .ownership a.path ∨ q = .frequency a.path := by
    simpa [EnrichedFile.questions, hoff] using hq
  cases x with
  | related cs => rcases hquestion with rfl | rfl <;> exact hfits.elim
  | _ => exact hf

end Enriched

/-! ### One batch after the other -/

/-- The history when the work on a batch is noted. -/
def noteBatch (g : Groundwork) (w : World) (start : Nat) (batch : List FileAnalysis) : World :=
  let note := Note.batch (start + 1) (start + batch.length) g.analyses.length
  w.note note.level note.message

/-- The questions about the files of a batch, file by file. -/
def batchQuestions (g : Groundwork) (batch : List FileAnalysis) : List (List Query) :=
  batch.map fun a ↦ EnrichedFile.questions g.options a.path

/-- What the work on batches may come to, with the threads of a batch in any order. A batch is begun
when all clients of the batch before have ended; a fault ends the work. -/
inductive MayEnrich (b : Outcomes) (g : Groundwork) :
    World → List (Nat × List FileAnalysis) → Except Fault (List EnrichedFile) → Prop
  | done (w : World) : MayEnrich b g w [] (.ok [])
  | batch {w w' : World} {start : Nat} {batch : List FileAnalysis}
      {rest : List (Nat × List FileAnalysis)} {answers : List (List Answer)}
      {r : Except Fault (List EnrichedFile)}
      (htell : (noteBatch g w start batch).MayTell b (batchQuestions g batch) w' (.ok answers))
      (hrest : MayEnrich b g w' rest r) :
      MayEnrich b g w ((start, batch) :: rest)
        (r.map fun others ↦ List.zipWith (EnrichedFile.ofAnswers g) batch answers ++ others)
  | fault {w w' : World} {start : Nat} {batch : List FileAnalysis}
      {rest : List (Nat × List FileAnalysis)} {e : Fault}
      (htell : (noteBatch g w start batch).MayTell b (batchQuestions g batch) w' (.error e)) :
      MayEnrich b g w ((start, batch) :: rest) (.error e)

/-- No question about the files of a batch can fail. -/
theorem not_mayYield_error_of_batch (b : Outcomes) (g : Groundwork) (now : Int)
    (batch : List FileAnalysis) :
    ∀ qs ∈ batchQuestions g batch, ∀ q ∈ qs,
      ∀ e, ¬b.MayYield (Path.absolute g.root) now q (.error e) := by
  intro qs hqs q hq e
  obtain ⟨a, -, rfl⟩ := List.mem_map.1 hqs
  exact EnrichedFile.not_mayYield_error hq e

/-- Whatever the order, the history answers about all files. -/
theorem MayEnrich.forall₂ {w : World} {batches : List (Nat × List FileAnalysis)}
    {r : Except Fault (List EnrichedFile)} (h : MayEnrich b g w batches r)
    (hw : w.InUse b (Path.absolute g.root) now) :
    ∃ files, r = .ok files ∧
      List.Forall₂ (Enriched b now g) (batches.flatMap Prod.snd) files := by
  induction h with
  | done w => exact ⟨[], rfl, .nil⟩
  | @batch w w' start batch rest answers r htell _ ih =>
    have hnote : (noteBatch g w start batch).InUse b (Path.absolute g.root) now := hw.note _ _
    obtain ⟨_, heq, hyield⟩ :=
      htell.exists_answers hnote (not_mayYield_error_of_batch b g now batch)
    obtain rfl := Except.ok.inj heq
    obtain ⟨others, rfl, hothers⟩ := ih (hnote.of_runsTo htell.runsTo)
    exact ⟨_, rfl, List.rel_append (forall₂_enriched (List.forall₂_map_left_iff.1 hyield)) hothers⟩
  | fault htell =>
    obtain ⟨_, heq, -⟩ := htell.exists_answers (hw.note _ _) (not_mayYield_error_of_batch b g now _)
    cases heq

section Enrich

variable (hgit : git.IsExpected) (hobeys : git.Obeys b)
include hgit hobeys

/-- The history answers about all files of a batch, and can be asked again. -/
theorem exists_enrichBatch_eq {t : Turns} (h : t.Quiet b (Path.absolute g.root) now) (start : Nat)
    (batch : List FileAnalysis) :
    ∃ t' answers, enrichBatch git g t start batch =
        (t', .ok (List.zipWith (EnrichedFile.ofAnswers g) batch answers)) ∧
      t'.Quiet b (Path.absolute g.root) now ∧
      (noteBatch g t.world start batch).MayTell b (batchQuestions g batch) t'.world
        (.ok answers) := by
  let note := Note.batch (start + 1) (start + batch.length) g.analyses.length
  have hnote := h.note note.level note.message
  have hfault := not_mayYield_error_of_batch b g now batch
  have htell := hnote.mayTell_askTogether _ hgit hobeys hfault
  obtain ⟨hquiet, answers, hanswers, -⟩ := hnote.askTogether _ hgit hobeys hfault
  rw [hanswers] at htell
  exact ⟨_, answers, Prod.ext rfl (congrArg (Except.map _) hanswers), hquiet, htell⟩

/-- The order of the queue is one of those in which the work on batches may go on. -/
theorem mayEnrich_runBatches {t : Turns} (h : t.Quiet b (Path.absolute g.root) now)
    (batches : List (Nat × List FileAnalysis)) :
    MayEnrich b g t.world batches (Batches.runBatches (enrichBatch git g) t batches).2 := by
  induction batches generalizing t with
  | nil => exact .done t.world
  | cons first rest ih =>
    obtain ⟨start, batch⟩ := first
    obtain ⟨t', answers, hfirst, hquiet, htell⟩ := exists_enrichBatch_eq hgit hobeys h start batch
    have hrest := ih hquiet
    simp only [Batches.runBatches, hfirst]
    rcases hrun : Batches.runBatches (enrichBatch git g) t' rest with ⟨t'', e | others⟩
    all_goals
      rw [hrun] at hrest
      exact .batch htell hrest

/-- The history answers about all files, whatever the size of batches. -/
theorem enrich_forall₂ (g : Groundwork) (now : Int) :
    ∃ files, (enrich git now g).2 = .ok files ∧
      List.Forall₂ (Enriched b now g) g.analyses files := by
  have hstart := Turns.quiet_fresh b g.root now
  obtain ⟨files, hfiles, hall⟩ := (mayEnrich_runBatches hgit hobeys hstart
    (Batches.batches g.options.concurrency g.analyses)).forall₂ hstart.inUse
  rw [Batches.batches, Batches.flatMap_chunks] at hall
  exact ⟨files, hfiles, hall⟩

/-- A survey succeeds if its groundwork does, with files that the history has answered about. -/
theorem exists_make_eq_ok (files : FileTree) (now : Time.Moment) {path : String} {o : Options}
    (hg : (Groundwork.make files path o).2 = .ok g) :
    ∃ found, List.Forall₂ (Enriched b now.instant g) g.analyses found ∧
      (make { files, git, now } path o).2 = .ok (ofFiles g found now.stamp) := by
  obtain ⟨found, hfound, henriched⟩ := enrich_forall₂ hgit hobeys g now.instant
  refine ⟨found, henriched, ?_⟩
  rcases hmake : Groundwork.make files path o with ⟨notes, r⟩
  rw [hmake] at hg
  obtain rfl : r = .ok g := hg
  simp only [make, hmake, hfound]

end Enrich

/-- A survey fails as its groundwork does. -/
theorem make_eq_error (site : Site) {path : String} {o : Options} {fault : SurveyFault}
    (hg : (Groundwork.make site.files path o).2 = .error fault) :
    (make site path o).2 = .error fault := by
  rcases hmake : Groundwork.make site.files path o with ⟨notes, r⟩
  rw [hmake] at hg
  obtain rfl : r = .error fault := hg
  simp only [make, hmake]

end Survey

end RepoSurvey
