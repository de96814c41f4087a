import RepoSurvey.Proofs.History.Answers

/-!
# Schedules are runs

Taking turns in a queue is one way of many in which threads may go on. Each operation of a schedule
brings its world to one that a run leads to as well (`World.RunsTo`), in which commands have the
outcomes that the script gives them. So a history which is asked one question or several together
stays coherent, and what holds of every run holds of it (`Turns.runsTo_ask`,
`Turns.runsTo_askTogether`).
-/

namespace RepoSurvey.History

/-- Each command succeeds, or fails in a way that a history answers without it. -/
def Script.IsExpected (script : Script) : Prop := ∀ past c, (script past c).IsExpected

/-- Each command has an outcome that it may have. -/
def Script.Obeys (b : Outcomes) (script : Script) : Prop := ∀ past c, b c (script past c)

namespace World

/-- Some run that obeys outcomes leads from a world to another one. -/
def RunsTo (b : Outcomes) (w w' : World) : Prop :=
  ∃ events : List Event, (∀ e ∈ events, e.IsExpected) ∧ w.Obeys b events ∧ w' = w.run events

namespace RunsTo

variable {b : Outcomes} {w₁ w₂ w₃ : World}

theorem refl (w : World) : w.RunsTo b w := ⟨[], by simp, trivial, rfl⟩

theorem after {w : World} {e : Event} (he : e.IsExpected) (hb : e.Obeys b w) :
    w.RunsTo b (w.after e) :=
  ⟨[e], by simpa using he, ⟨hb, trivial⟩, rfl⟩

/-- A run behind a run is a run. -/
theorem trans (h : w₁.RunsTo b w₂) (h' : w₂.RunsTo b w₃) : w₁.RunsTo b w₃ := by
  obtain ⟨events, hevents, hobeys, rfl⟩ := h
  obtain ⟨later, hlater, hobeysLater, rfl⟩ := h'
  exact ⟨events ++ later, List.forall_mem_append.2 ⟨hevents, hlater⟩,
    obeys_append.2 ⟨hobeys, hobeysLater⟩, (run_append ..).symm⟩

theorem coherent (h : w₁.RunsTo b w₂) (hw : w₁.Coherent) : w₂.Coherent := by
  obtain ⟨events, hevents, -, rfl⟩ := h
  exact hw.run hevents

/-- A run that obeys outcomes leads from a founded world to a founded one. -/
theorem founded (h : w₁.RunsTo b w₂) (hw : w₁.Coherent) (hb : w₁.Founded b) : w₂.Founded b := by
  obtain ⟨events, hevents, hobeys, rfl⟩ := h
  exact hobeys.founded hb hw hevents

/-- Whoever has asked some questions has asked them ever after. -/
theorem exists_hasAsked (h : w₁.RunsTo b w₂) (hw : w₁.Coherent) (hb : w₁.Founded b) {i : Nat}
    {t : Thread} {qs : List Query} (ht : w₁.threads[i]? = some t)
    (hqs : HasAsked b w₁.repo w₁.now qs t) :
    ∃ t', w₂.threads[i]? = some t' ∧ HasAsked b w₁.repo w₁.now qs t' := by
  obtain ⟨events, hevents, hobeys, rfl⟩ := h
  obtain ⟨hrepo, hnow⟩ := run_repo_now hw hevents
  rw [← hrepo, ← hnow]
  exact hobeys.exists_hasAsked hb hw hevents ht hqs

end RunsTo

end World

namespace Turns

variable {b : Outcomes} {script : Script}

/-- The outcome that a script gives a command is expected. -/
theorem isExpected_outcomeFor (hscript : script.IsExpected) (w : World) (i : Nat) :
    (outcomeFor script w i).IsExpected := by
  rw [outcomeFor]
  split
  · exact hscript _ _
  · intro fault hfault
    cases hfault

/-- The outcome that a script gives a command is one that it may have. -/
theorem obeys_outcomeFor (hb : script.Obeys b) (w : World) (i : Nat) :
    (Event.goOn i (outcomeFor script w i)).Obeys b w := by
  intro c hc
  rw [outcomeFor, hc]
  exact hb _ _

/-- The world after a turn is that in which the thread has gone on; the rest is the queue. -/
theorem world_turn (script : Script) (t : Turns) (i : Nat) :
    (t.turn script i).world = t.world.resume i (outcomeFor script t.world i) := by
  simp only [turn]
  split <;> rfl

/-- Clients that begin one after the other begin in a run. -/
theorem runsTo_beginClients (clients : List (List Query)) (t : Turns) :
    t.world.RunsTo b (t.beginClients clients).1.world := by
  induction clients generalizing t with
  | nil => exact .refl _
  | cons todo clients ih =>
    have hask : t.world.RunsTo b (t.world.after (.ask todo)) := .after trivial trivial
    exact hask.trans (ih { t with
      world := t.world.after (.ask todo), ready := t.ready ++ [t.world.threads.length] })

section Runs

variable (hscript : script.IsExpected) (hb : script.Obeys b)
include hscript hb

/-- A turn is the event in which its thread goes on. -/
theorem runsTo_turn (t : Turns) (i : Nat) : t.world.RunsTo b (t.turn script i).world := by
  rw [world_turn]
  exact .after (e := .goOn i _) (isExpected_outcomeFor hscript t.world i)
    (obeys_outcomeFor hb t.world i)

/-- So the next turn of the queue is a run of one event, or of none. -/
theorem runsTo_next (t : Turns) : t.world.RunsTo b (t.next script).world := by
  rw [next]
  split
  · exact .refl _
  · rename_i i ready _
    exact runsTo_turn hscript hb { t with ready } i

/-- Several turns are a run. -/
theorem runsTo_nextN (n : Nat) (t : Turns) : t.world.RunsTo b (t.nextN script n).world := by
  induction n generalizing t with
  | zero => exact .refl _
  | succ n ih => exact (runsTo_next hscript hb t).trans (ih _)

theorem runsTo_round (t : Turns) : t.world.RunsTo b (t.round script).world :=
  runsTo_nextN hscript hb t.ready.length t

/-- To drive a schedule is a run. -/
theorem runsTo_drive (clients : List Nat) (fuel : Nat) (t : Turns) :
    t.world.RunsTo b (t.drive script clients fuel).1.world := by
  induction fuel generalizing t with
  | zero => exact .refl _
  | succ fuel ih =>
    have hnext := runsTo_next hscript hb t
    rw [drive]
    split
    · exact .refl _
    · rename_i i ready hready
      split
      · exact .refl _
      · simp only
        split
        · exact hnext
        · exact hnext.trans (ih _)

/-- A question that is asked alone is answered in the course of some run. -/
theorem runsTo_ask (t : Turns) (q : Query) : t.world.RunsTo b (t.ask script q).1.world := by
  have hask : t.world.RunsTo b (t.world.after (.ask [q])) := .after trivial trivial
  have hturn := runsTo_turn hscript hb { t with world := t.world.after (.ask [q]) }
    t.world.threads.length
  have hdrive (fuel : Nat) := (hask.trans hturn).trans
    (runsTo_drive hscript hb [t.world.threads.length] fuel _)
  simp only [ask]
  split <;> exact hdrive _

/-- Questions that are asked together are answered in the course of some run. -/
theorem runsTo_askTogether (t : Turns) (clients : List (List Query)) :
    t.world.RunsTo b (t.askTogether script clients).1.world := by
  have hbegin : t.world.RunsTo b _ := runsTo_beginClients clients t
  have hdrive (fuel : Nat) := hbegin.trans
    (runsTo_drive hscript hb (t.beginClients clients).2 fuel (t.beginClients clients).1)
  have hrounds (fuel : Nat) := ((hdrive fuel).trans (runsTo_round hscript hb _)).trans
    (runsTo_round hscript hb _)
  simp only [askTogether]
  split <;> exact hrounds _

end Runs

end Turns

end RepoSurvey.History
