import RepoSurvey.Proofs.History.Lasting
import RepoSurvey.Proofs.History.WholeLog

/-!
# Questions about one file

A question about one file is answered from the commits of the file, and these are what a question
for the commits themselves is answered with. Where questions are asked one after the other, it is so
at every moment: had the commits been asked for instead, they would have been those that the answer
is drawn from (`Turns.exists_commits_ask`). Where threads take turns, an answer is drawn from
commits that somebody who asks for them may be given (`World.Gets.exists_commits`).

So it is enough to know of an answer what it is for any commits (`answers_from_commits`).
-/

namespace RepoSurvey.History

/-- An answer about a file is drawn from commits which the file may be said to have. -/
theorem Outcomes.MayYield.exists_commits {b : Outcomes} {repo : String} {now : Int} {q : Query}
    {path : String} {a : Answer} (h : b.MayYield repo now q (.ok a))
    (hq : World.historyPath? q = some path) :
    ∃ cs, b.MayYield repo now (.history path) (.ok (.commits cs)) ∧ a = World.answerOf q cs := by
  have hpath? := World.path?_of_historyPath? hq
  cases h with
  | outside hfail => exact ⟨[], .outside hfail (by simp), default_eq_answerOf hq⟩
  | noKey hpath hkey =>
    obtain rfl := Option.some.inj (hpath?.symm.trans hpath)
    exact ⟨[], .noKey rfl hkey, default_eq_answerOf hq⟩
  | @file _ _ cs hpath hkey hcs =>
    obtain rfl := Option.some.inj (hq.symm.trans hpath)
    exact ⟨cs, .file (q := .history path) rfl hkey hcs, rfl⟩
  | fileLost hpath hkey hbelow hfail hlost =>
    obtain rfl := Option.some.inj (hq.symm.trans hpath)
    exact ⟨[], .fileLost (q := .history path) rfl hkey hbelow hfail hlost, rfl⟩
  | noIndex _ hnone => exact absurd (hnone.symm.trans hq) (by simp)
  | check | together | recent | tracked | untracked => cases hq

/-- Whoever asks about a file in the course of a run is given what its commits say, as somebody may
be given them who asks for these. -/
theorem World.Gets.exists_commits {b : Outcomes} {repo : String} {now : Int} {events : List Event}
    (hevents : ∀ e ∈ events, e.IsExpected) (hobeys : (fresh repo now).world.Obeys b events)
    {q : Query} {path : String} {a : Answer} (h : (fresh repo now).world.Gets events q a)
    (hq : World.historyPath? q = some path) :
    ∃ cs, b.MayYield (Path.absolute repo) now (.history path) (.ok (.commits cs)) ∧
      a = World.answerOf q cs :=
  (h.mayYield hevents hobeys).exists_commits hq

/-- A question about a file that is asked after others is answered from the commits that would have
been told instead. -/
theorem Turns.exists_commits_ask (repo : String) (now : Int) {script : Script}
    (hscript : script.IsExpected) (earlier : List Query) {q : Query} {path : String}
    (hq : World.historyPath? q = some path) :
    let t := (fresh repo now).afterAsking script earlier
    ∃ cs, (t.ask script (.history path)).2 = .ok (.commits cs) ∧
      (t.ask script q).2 = .ok (World.answerOf q cs) := by
  intro t
  obtain ⟨m, hrest, -⟩ := (atRest_fresh repo now).afterAsking hscript earlier
  refine ⟨(m.commitsOf script (keyOf m.repo path)).2, (hrest.ask hscript _).2, ?_⟩
  have hkey : q.fileKey? m.repo = some (keyOf m.repo path) := by rw [Query.fileKey?, hq]; rfl
  rw [(hrest.ask hscript q).2, Memory.answer_of_fileKey script hkey]

/-- What answers about a file say of any commits, they say of those that somebody is told or may be
told who asks for the commits instead. -/
theorem answers_from_commits (repo : String) (now : Int) {script : Script}
    (hscript : script.IsExpected) (earlier : List Query) {q : Query} {path : String}
    (hq : World.historyPath? q = some path) {Says : List Commit → Answer → Prop}
    (hfits : ∀ cs, Says cs (World.answerOf q cs)) :
    let start := fresh repo now
    let t := start.afterAsking script earlier
    (∃ cs a, (t.ask script (.history path)).2 = .ok (.commits cs) ∧
      (t.ask script q).2 = .ok a ∧ Says cs a) ∧
    ∀ (b : Outcomes) (events : List Event), (∀ e ∈ events, e.IsExpected) →
      start.world.Obeys b events → ∀ a, start.world.Gets events q a →
        ∃ cs, b.MayYield (Path.absolute repo) now (.history path) (.ok (.commits cs)) ∧
          Says cs a := by
  intro start t
  refine ⟨?_, fun b events hevents hobeys a ha ↦ ?_⟩
  · obtain ⟨cs, hhistory, hanswer⟩ := Turns.exists_commits_ask repo now hscript earlier hq
    exact ⟨cs, _, hhistory, hanswer, hfits cs⟩
  · obtain ⟨cs, hcs, rfl⟩ := ha.exists_commits hevents hobeys hq
    exact ⟨cs, hcs, hfits cs⟩

/-- The commits that are told, if any are. -/
def toldCommits : Except Fault Answer → List Commit
  | .ok (.commits cs) => cs
  | _ => []

/-- The directory is the top of its work tree, and the whole log is read. -/
def topScript (log : String) : Script := fun _ c ↦
  match c with
  | .showPrefix => .ok "\n"
  | .fullLog => .ok log
  | .fileLog _ | .listFiles => .ok ""

theorem isExpected_topScript (log : String) : (topScript log).IsExpected := by
  rintro past (_ | _ | key | _) fault h <;> cases h

end RepoSurvey.History
