import Mathlib.Data.List.Nodup
import Mathlib.Data.List.Perm.Subperm
import Mathlib.Logic.Function.Iterate
import RepoSurvey.Survey.Batches

/-!
# Workers of a batch

What can be seen while work goes on in batches. The workers of one batch take turns in any order
(`together`); the order is an argument of every statement, and nothing is assumed of it. What an
item's worker comes to may stand in the item, so nothing is assumed of what workers share either.

* A turn changes nothing, or it starts a worker, or it ends one (`Progress.turn_cases`). After the
  last turns of a batch every worker has ended (`Progress.isOver_of_mem_complete`).
* `Progress.Follows` is kept by every turn: what has been seen since a batch was begun is what its
  workers have done, and at each moment since then some of them had started, and some of these had
  ended. From this comes what a batch leaves behind (`leaves_together`).
* `Ready` is what a batch finds and leaves for the next one, until a fault ends the work
  (`runBatches_together`).

`inBatches_together` puts this together for work on all items.
-/

namespace RepoSurvey.Batches

open scoped List

variable {α β ε : Type}

/-! ### What has been seen -/

/-- The items whose workers have started, latest first. -/
def started : List (Event α) → List α
  | [] => []
  | .start a :: seen => a :: started seen
  | .finish _ :: seen => started seen

/-- The items whose workers have ended, latest first. -/
def ended : List (Event α) → List α
  | [] => []
  | .start _ :: seen => ended seen
  | .finish a :: seen => a :: ended seen

@[simp] theorem started_nil : started ([] : List (Event α)) = [] := rfl

@[simp] theorem started_start (a : α) (seen : List (Event α)) :
    started (.start a :: seen) = a :: started seen := rfl

@[simp] theorem started_finish (a : α) (seen : List (Event α)) :
    started (.finish a :: seen) = started seen := rfl

@[simp] theorem ended_nil : ended ([] : List (Event α)) = [] := rfl

@[simp] theorem ended_start (a : α) (seen : List (Event α)) :
    ended (.start a :: seen) = ended seen := rfl

@[simp] theorem ended_finish (a : α) (seen : List (Event α)) :
    ended (.finish a :: seen) = a :: ended seen := rfl

/-- What has ended later stands in front. -/
theorem ended_append (later seen : List (Event α)) :
    ended (later ++ seen) = ended later ++ ended seen := by
  induction later with
  | nil => rfl
  | cons event later ih => cases event <;> simp [ih]

/-- What has been seen of a batch that was begun after `before`: some of its workers have started,
and some of these have ended. -/
def Underway (before : List (Event α)) (batch : List α) (now : List (Event α)) : Prop :=
  ∃ begun finished, started now ~ begun ++ started before ∧
    ended now ~ finished ++ ended before ∧ begun <+~ batch ∧ finished <+~ begun

/-- The fault that the workers which have ended so far have come to: none of them has one, or it is
that of a worker before whose end there was none. -/
def FirstFault (worker : α → Except ε β) (seen : List (Event α)) : Option ε → Prop
  | none => ∀ a ∈ ended seen, ∃ b, worker a = .ok b
  | some e => ∃ later a earlier, seen = later ++ .finish a :: earlier ∧ worker a = .error e ∧
      ∀ b ∈ ended earlier, ∃ r, worker b = .ok r

/-- An event later than the first fault leaves it the first. -/
theorem FirstFault.cons {worker : α → Except ε β} {seen : List (Event α)} {e : ε}
    (h : FirstFault worker seen (some e)) (event : Event α) :
    FirstFault worker (event :: seen) (some e) := by
  obtain ⟨later, a, earlier, rfl, ha, hearlier⟩ := h
  exact ⟨event :: later, a, earlier, rfl, ha, hearlier⟩

/-! ### One turn -/

/-- Whether a worker has started. -/
def Stage.isBegun : Stage β ε → Bool
  | .idle => false
  | _ => true

/-- Whether a worker has ended. -/
def Stage.isOver : Stage β ε → Bool
  | .ended _ => true
  | _ => false

/-- The items whose workers have started. -/
def begun (workers : List (α × Stage β ε)) : List α :=
  (workers.filter fun w ↦ w.2.isBegun).map Prod.fst

/-- The items whose workers have ended. -/
def finished (workers : List (α × Stage β ε)) : List α :=
  (workers.filter fun w ↦ w.2.isOver).map Prod.fst

section Workers

variable {a : α} {workers : List (α × Stage β ε)}

@[simp] theorem begun_append (front back : List (α × Stage β ε)) :
    begun (front ++ back) = begun front ++ begun back := by
  simp [begun]

@[simp] theorem begun_idle : begun ((a, .idle) :: workers) = begun workers := rfl

@[simp] theorem begun_running : begun ((a, .running) :: workers) = a :: begun workers := rfl

@[simp] theorem begun_ended (r : Except ε β) :
    begun ((a, .ended r) :: workers) = a :: begun workers := rfl

@[simp] theorem finished_append (front back : List (α × Stage β ε)) :
    finished (front ++ back) = finished front ++ finished back := by
  simp [finished]

@[simp] theorem finished_idle : finished ((a, .idle) :: workers) = finished workers := rfl

@[simp] theorem finished_running : finished ((a, .running) :: workers) = finished workers := rfl

@[simp] theorem finished_ended (r : Except ε β) :
    finished ((a, .ended r) :: workers) = a :: finished workers := rfl

theorem begun_subperm : begun workers <+~ workers.map Prod.fst :=
  (List.filter_sublist.map Prod.fst).subperm

/-- Only what has been begun ends. -/
theorem finished_subperm_begun : finished workers <+~ begun workers := by
  refine ((List.monotone_filter_right workers fun w h ↦ ?_).map Prod.fst).subperm
  obtain ⟨a, stage⟩ := w
  cases stage with
  | idle => simp [Stage.isOver] at h
  | running => rfl
  | ended => rfl

end Workers

namespace Progress

variable {worker : α → Except ε β} {p : Progress α β ε}

/-- Where a worker stands after a turn. -/
def step (worker : α → Except ε β) : α × Stage β ε → α × Stage β ε
  | (a, .idle) => (a, .running)
  | (a, .running) => (a, .ended (worker a))
  | w => w

/-- A turn changes nothing, or it starts a worker, or it ends one. -/
theorem turn_cases (worker : α → Except ε β) (p : Progress α β ε) (i : Nat) :
    p.turn worker i = p ∨
    (∃ front a back, p.workers = front ++ (a, .idle) :: back ∧ p.turn worker i =
      { p with workers := front ++ (a, .running) :: back, events := .start a :: p.events }) ∨
    (∃ front a back, p.workers = front ++ (a, .running) :: back ∧ ∃ fault, p.turn worker i =
        { workers := front ++ (a, .ended (worker a)) :: back, events := .finish a :: p.events,
          fault } ∧
      ∀ e, fault = some e ↔ p.fault = some e ∨ p.fault = none ∧ worker a = .error e) := by
  rcases hi : p.workers[i]? with - | ⟨a, stage⟩
  · exact Or.inl (by rw [turn, hi])
  obtain ⟨hlt, hget⟩ := List.getElem?_eq_some_iff.1 hi
  have hsplit : p.workers = p.workers.take i ++ (a, stage) :: p.workers.drop (i + 1) := by
    rw [← hget, List.getElem_cons_drop, List.take_append_drop]
  have hset (w : α × Stage β ε) :
      p.workers.set i w = p.workers.take i ++ w :: p.workers.drop (i + 1) := by
    rw [List.set_eq_take_append_cons_drop, if_pos hlt]
  cases stage with
  | idle => exact Or.inr (Or.inl ⟨_, a, _, hsplit, by rw [turn, hi, ← hset]⟩)
  | ended r => exact Or.inl (by rw [turn, hi])
  | running =>
    refine Or.inr (Or.inr ⟨_, a, _, hsplit, _, by rw [turn, hi, ← hset], fun e ↦ ?_⟩)
    rcases p.fault with - | e' <;> rcases worker a with e'' | b <;> simp

/-! ### All turns -/

/-- A turn moves one worker one step on. -/
theorem workers_turn (worker : α → Except ε β) (p : Progress α β ε) (i : Nat) :
    (p.turn worker i).workers = p.workers.modify i (step worker) := by
  rcases hi : p.workers[i]? with - | ⟨a, stage⟩
  · rw [turn, hi, List.modify_eq_set_getElem?, hi]
    rfl
  have hmodify : p.workers.modify i (step worker) = p.workers.set i (step worker (a, stage)) := by
    rw [List.modify_eq_set_getElem?, hi]
    rfl
  cases stage with
  | idle | running => rw [hmodify, turn, hi]; rfl
  | ended r =>
    obtain ⟨hlt, hget⟩ := List.getElem?_eq_some_iff.1 hi
    have hself : p.workers.set i (a, .ended r) = p.workers := by
      rw [← hget, List.set_getElem_self hlt]
    rw [hmodify, turn, hi]
    exact hself.symm

/-- Where a worker stands after some turns is told by the number of turns that it has had. So the
order of turns does not matter for it. -/
theorem getElem?_turns (worker : α → Except ε β) (p : Progress α β ε) (order : List Nat)
    (j : Nat) : (p.turns worker order).workers[j]? =
      p.workers[j]?.map ((step worker)^[order.count j]) := by
  induction order generalizing p with
  | nil => simp [turns]
  | cons i order ih =>
    have hcons : p.turns worker (i :: order) = (p.turn worker i).turns worker order := rfl
    rw [hcons, ih, workers_turn, List.getElem?_modify]
    by_cases hij : i = j
    · subst hij
      simp [Function.comp_def]
    · simp [hij]

/-- Two turns are enough for every worker to end. -/
theorem isOver_of_mem_complete {w : α × Stage β ε} (hw : w ∈ (p.complete worker).workers) :
    w.2.isOver = true := by
  obtain ⟨j, hj⟩ := List.mem_iff_getElem?.1 hw
  rw [complete, getElem?_turns, getElem?_turns, Option.map_map] at hj
  obtain ⟨⟨a, stage⟩, hstart, rfl⟩ := Option.map_eq_some_iff.1 hj
  have hcount : (List.range p.workers.length).count j = 1 :=
    List.count_eq_one_of_mem List.nodup_range
      (List.mem_range.2 (List.getElem?_eq_some_iff.1 hstart).1)
  rw [hcount]
  cases stage <;> rfl

/-! ### What a batch does -/

variable {before : List (Event α)} {batch : List α}

/-- All that has been seen since `before`, the workers of a batch have done. -/
structure Shows (worker : α → Except ε β) (before : List (Event α)) (batch : List α)
    (p : Progress α β ε) : Prop where
  items : p.workers.map Prod.fst = batch
  result : ∀ a r, (a, Stage.ended r) ∈ p.workers → r = worker a
  started : started p.events ~ begun p.workers ++ started before
  ended : ended p.events ~ finished p.workers ++ ended before

theorem Shows.underway (h : p.Shows worker before batch) : Underway before batch p.events :=
  ⟨_, _, h.started, h.ended, h.items ▸ begun_subperm, finished_subperm_begun⟩

/-- At the beginning no worker of the batch has done anything. -/
theorem shows_idle (worker : α → Except ε β) (before : List (Event α)) (batch : List α)
    (fault : Option ε) : Shows worker before batch
      { workers := batch.map fun a ↦ (a, .idle), events := before, fault } where
  items := by simp [Function.comp_def]
  result := by simp
  started := by simp [begun, Stage.isBegun, List.filter_map, Function.comp_def]
  ended := by simp [finished, Stage.isOver, List.filter_map, Function.comp_def]

/-- One turn keeps it that all which has been seen the workers have done. -/
theorem Shows.turn (h : p.Shows worker before batch) (i : Nat) :
    (p.turn worker i).Shows worker before batch := by
  rcases turn_cases worker p i with heq | ⟨front, a, back, hworkers, heq⟩ |
    ⟨front, a, back, hworkers, fault, heq, -⟩
  · rwa [heq]
  all_goals
    obtain ⟨hitems, hresult, hstarted, hended⟩ := h
    rw [hworkers] at hitems hresult hstarted hended
    rw [heq]
    simp only [begun_append, begun_idle, begun_running, finished_append, finished_idle,
      finished_running, List.append_assoc] at hstarted hended
  · refine ⟨by simpa using hitems, fun b r hb ↦ hresult b r (by simpa using hb), ?_, ?_⟩
    · simpa using (hstarted.cons a).trans List.perm_middle.symm
    · simpa using hended
  · refine ⟨by simpa using hitems, fun b r hb ↦ ?_, ?_, ?_⟩
    · simp only [List.mem_append, List.mem_cons, Prod.mk.injEq, Stage.ended.injEq] at hb hresult
      grind
    · simpa using hstarted
    · simpa using (hended.cons a).trans List.perm_middle.symm

/-- The first fault is kept as long as workers take turns. -/
theorem firstFault_turn (h : FirstFault worker p.events p.fault) (i : Nat) :
    FirstFault worker (p.turn worker i).events (p.turn worker i).fault := by
  rcases turn_cases worker p i with heq | ⟨front, a, back, -, heq⟩ |
    ⟨front, a, back, -, fault, heq, hfault⟩
  · rwa [heq]
  · rw [heq]
    rcases hp : p.fault with - | e <;> rw [hp] at h
    · exact h
    · exact h.cons _
  · rw [heq]
    rcases hp : p.fault with - | e
    · rw [hp] at h hfault
      rcases hfault' : fault with - | e
      · refine List.forall_mem_cons.2 ⟨?_, h⟩
        rcases ha : worker a with e | b
        · simpa [hfault', ha] using hfault e
        · exact ⟨b, rfl⟩
      · obtain ⟨-, ha⟩ := ((hfault e).1 hfault').resolve_left (by simp)
        exact ⟨[], a, p.events, rfl, ha, h⟩
    · rw [(hfault e).2 (Or.inl hp)]
      rw [hp] at h
      exact h.cons _

/-- The workers of a batch on their way, which were begun after `before`, and what could be seen at
every moment since then. -/
structure Follows (worker : α → Except ε β) (before : List (Event α)) (batch : List α)
    (p : Progress α β ε) : Prop where
  shows : p.Shows worker before batch
  underway : ∀ now, now <:+ p.events → now <:+ before ∨ Underway before batch now
  firstFault : FirstFault worker p.events p.fault

/-- What a turn does, the workers of a batch have done. -/
theorem Follows.turn (h : p.Follows worker before batch) (i : Nat) :
    (p.turn worker i).Follows worker before batch := by
  refine ⟨h.shows.turn i, fun now hnow ↦ ?_, firstFault_turn h.firstFault i⟩
  -- a turn shows at most one event, so only the last moment is new
  have hnow : now = (p.turn worker i).events ∨ now <:+ p.events := by
    rcases turn_cases worker p i with heq | ⟨front, a, back, -, heq⟩ |
      ⟨front, a, back, -, fault, heq, -⟩ <;> rw [heq] at hnow ⊢
    · exact Or.inr hnow
    · exact List.suffix_cons_iff.1 hnow
    · exact List.suffix_cons_iff.1 hnow
  rcases hnow with rfl | hnow
  · exact Or.inr (h.shows.turn i).underway
  · exact h.underway now hnow

/-- What any turns do, the workers of a batch have done. -/
theorem Follows.turns (h : p.Follows worker before batch) (order : List Nat) :
    (p.turns worker order).Follows worker before batch := by
  induction order generalizing p with
  | nil => exact h
  | cons i order ih => exact ih (h.turn i)

/-- So have they done what it takes to come to the end. -/
theorem Follows.complete (h : p.Follows worker before batch) :
    (p.complete worker).Follows worker before batch :=
  (h.turns _).turns _

/-- Once all workers of a batch have ended, each has come to its result. -/
theorem Shows.workers_eq (h : p.Shows worker before batch)
    (hfinished : ∀ w ∈ p.workers, w.2.isOver = true) :
    p.workers = batch.map fun a ↦ (a, .ended (worker a)) := by
  rw [← h.items, List.map_map]
  refine (List.map_id p.workers).symm.trans (List.map_congr_left fun w hw ↦ ?_)
  obtain ⟨a, stage⟩ := w
  cases stage with
  | idle | running => exact absurd (hfinished _ hw) (by simp [Stage.isOver])
  | ended r => exact congrArg (fun r ↦ (a, Stage.ended r)) (h.result a r hw)

/-- Workers without a fault have come to their results, in the order of the batch. -/
theorem forall₂_results (hworkers : p.workers = batch.map fun a ↦ (a, .ended (worker a)))
    (hok : ∀ a ∈ batch, ∃ b, worker a = .ok b) :
    List.Forall₂ (fun a b ↦ worker a = .ok b) batch p.results := by
  rw [results, hworkers]
  clear hworkers
  induction batch with
  | nil => exact .nil
  | cons a batch ih =>
    obtain ⟨⟨b, hb⟩, hrest⟩ := List.forall_mem_cons.1 hok
    rw [List.map_cons, hb]
    exact .cons hb (ih hrest)

end Progress

/-! ### One batch -/

section Together

variable (order : Nat → List Nat) {worker : α → Except ε β} {before : List (Event α)}

/-- What a batch leaves behind that was begun after `before`: all its workers have started and
ended, and it has come to all results or to the first fault. -/
structure Leaves (worker : α → Except ε β) (before : List (Event α)) (batch : List α)
    (seen : List (Event α)) (outcome : Except ε (List β)) : Prop where
  started : started seen ~ batch ++ started before
  ended : ended seen ~ batch ++ ended before
  underway : ∀ now, now <:+ seen → now <:+ before ∨ Underway before batch now
  outcome : (∃ results, outcome = .ok results ∧
      List.Forall₂ (fun a b ↦ worker a = .ok b) batch results ∧ FirstFault worker seen none) ∨
    ∃ e, outcome = .error e ∧ FirstFault worker seen (some e)

/-- A batch comes to its end in every order of turns, and leaves all results or the first fault. -/
theorem leaves_together (hbefore : FirstFault worker before none) (start : Nat) (batch : List α) :
    Leaves worker before batch (together order worker before start batch).1
      (together order worker before start batch).2 := by
  let idle : Progress α β ε := { workers := batch.map fun a ↦ (a, .idle), events := before }
  have hidle : idle.Follows worker before batch :=
    ⟨Progress.shows_idle worker before batch none, fun now hnow ↦ Or.inl hnow, hbefore⟩
  -- whatever the order is, all workers have ended when it is complete
  let last := (idle.turns worker (order start)).complete worker
  have hlast : last.Follows worker before batch := (hidle.turns _).complete
  have hworkers : last.workers = batch.map fun a ↦ (a, .ended (worker a)) :=
    hlast.shows.workers_eq fun w ↦ Progress.isOver_of_mem_complete
  have hbegun : begun last.workers = batch := by
    rw [hworkers]
    simp [begun, Stage.isBegun, List.filter_map, Function.comp_def]
  have hfinished : finished last.workers = batch := by
    rw [hworkers]
    simp [finished, Stage.isOver, List.filter_map, Function.comp_def]
  obtain ⟨⟨-, -, hstarted, hended⟩, hunderway, hfirst⟩ := hlast
  rw [hbegun] at hstarted
  rw [hfinished] at hended
  refine ⟨hstarted, hended, hunderway, ?_⟩
  show (∃ results, last.outcome = .ok results ∧ _ ∧ FirstFault worker last.events none) ∨
    ∃ e, last.outcome = .error e ∧ FirstFault worker last.events (some e)
  rcases hfault : last.fault with - | e <;> rw [hfault] at hfirst
  · refine Or.inl ⟨last.results, by rw [Progress.outcome, hfault], ?_, hfirst⟩
    exact Progress.forall₂_results hworkers fun a ha ↦
      hfirst a (hended.mem_iff.2 (List.mem_append_left _ ha))
  · exact Or.inr ⟨e, by rw [Progress.outcome, hfault], hfirst⟩

end Together

/-! ### All batches -/

section Run

variable {items : List α} {size k : Nat} {worker : α → Except ε β}

/-- How work on items goes, in batches of `size`: all workers of the first `k` batches have ended,
and none has started beyond the batch behind these. -/
structure InBatch (items : List α) (size k : Nat) (now : List (Event α)) : Prop where
  earlier_ended : items.take (k * size) <+~ ended now
  ended_started : ended now <+~ started now
  started_upTo : started now <+~ items.take ((k + 1) * size)

theorem take_succ_mul (items : List α) (k size : Nat) :
    items.take ((k + 1) * size) = items.take (k * size) ++ (items.drop (k * size)).take size := by
  rw [Nat.succ_mul, List.take_add]

/-- While the batch behind the first `k` is under way, the work is in that batch. -/
theorem Underway.inBatch {before now : List (Event α)}
    (h : Underway before ((items.drop (k * size)).take size) now)
    (hstarted : started before ~ items.take (k * size))
    (hended : ended before ~ items.take (k * size)) : InBatch items size k now := by
  obtain ⟨begun, finished, hbegun, hfinished, hbatch, hsub⟩ := h
  have hbegun' : started now ~ items.take (k * size) ++ begun :=
    (hbegun.trans (hstarted.append_left _)).trans List.perm_append_comm
  have hfinished' : ended now ~ items.take (k * size) ++ finished :=
    (hfinished.trans (hended.append_left _)).trans List.perm_append_comm
  refine ⟨?_, ?_, ?_⟩
  · exact hfinished'.symm.subperm_left.1 (List.sublist_append_left _ _).subperm
  · refine hbegun'.symm.subperm_left.1 (hfinished'.subperm_right.2 ?_)
    exact (List.subperm_append_left _).2 hsub
  · rw [take_succ_mul]
    exact hbegun'.subperm_right.2 ((List.subperm_append_left _).2 hbatch)

/-- No more workers are in flight than a batch has items. -/
theorem InBatch.length_started_le {now : List (Event α)} (h : InBatch items size k now) :
    (started now).length ≤ (ended now).length + size := by
  have hearlier := h.earlier_ended.length_le
  have hstarted := h.started_upTo.length_le
  rw [take_succ_mul, List.length_append] at hstarted
  have hbatch := List.length_take_le size (items.drop (k * size))
  omega

/-- An item that starts is one of a batch before which all others have ended. -/
theorem InBatch.exists_of_start {a : α} {now : List (Event α)}
    (h : InBatch items size k (.start a :: now)) :
    ∃ j, a ∈ (items.drop (j * size)).take size ∧ items.take (j * size) <+~ ended now := by
  obtain ⟨hearlier, -, hupTo⟩ := h
  have ha : a ∈ items.take ((k + 1) * size) := hupTo.subset List.mem_cons_self
  clear hupTo
  induction k with
  | zero => exact ⟨0, by simpa using ha, by simp⟩
  | succ k ih =>
    rw [take_succ_mul] at hearlier ha
    rcases List.mem_append.1 ha with ha | ha
    · exact ih ((List.sublist_append_left _ _).subperm.trans hearlier) ha
    · exact ⟨k + 1, ha, by rwa [take_succ_mul]⟩

variable (order : Nat → List Nat)

/-- Where work on the items `rest` that are left in batches of `size` ends: they are all done, or
the first fault, which lies in the batch behind the first `k`, has left the work. -/
inductive EndsWith (items rest : List α) (size : Nat) (worker : α → Except ε β)
    (seen : List (Event α)) : Except ε (List β) → Prop
  | done {results : List β} (hresults : List.Forall₂ (fun a b ↦ worker a = .ok b) rest results)
    (hstarted : started seen ~ items) (hended : ended seen ~ items) :
    EndsWith items rest size worker seen (.ok results)
  | failed {k : Nat} {a : α} {e : ε} (hmem : a ∈ (items.drop (k * size)).take size)
    (ha : worker a = .error e) (hfirst : FirstFault worker seen (some e))
    (hstarted : started seen ~ items.take ((k + 1) * size)) :
    EndsWith items rest size worker seen (.error e)

/-- Before the batch behind the first `k` is begun, all of these have ended well. -/
structure Ready (items : List α) (size : Nat) (worker : α → Except ε β) (k : Nat)
    (seen : List (Event α)) : Prop where
  started : started seen ~ items.take (k * size)
  ended : ended seen ~ items.take (k * size)
  inBatch : ∀ now, now <:+ seen → ∃ j, InBatch items size j now
  firstFault : FirstFault worker seen none

/-- The first batch finds everything as it should be. -/
theorem ready_nil (items : List α) (size : Nat) (worker : α → Except ε β) :
    Ready items size worker 0 [] where
  started := by simp
  ended := by simp
  inBatch now hnow := by
    obtain rfl := List.suffix_nil.1 hnow
    exact ⟨0, by simp, by simp, List.nil_subperm⟩
  firstFault := by simp [FirstFault]

/-- What a batch leaves behind, the next one finds. -/
theorem Ready.inBatch_of_leaves {before seen : List (Event α)} {outcome : Except ε (List β)}
    (h : Ready items size worker k before)
    (hleaves : Leaves worker before ((items.drop (k * size)).take size) seen outcome) :
    ∀ now, now <:+ seen → ∃ j, InBatch items size j now := by
  intro now hnow
  rcases hleaves.underway now hnow with hbefore | hunderway
  · exact h.inBatch now hbefore
  · exact ⟨k, hunderway.inBatch h.started h.ended⟩

/-- The first batches and the next one are the first batches and one more. -/
theorem perm_take_succ {done all : List α} (hdone : done ~ items.take (k * size))
    (hall : all ~ (items.drop (k * size)).take size ++ done) :
    all ~ items.take ((k + 1) * size) := by
  rw [take_succ_mul]
  exact (hall.trans (hdone.append_left _)).trans List.perm_append_comm

/-- The first fault there is lies in the batch that leaves it behind. -/
theorem Leaves.exists_mem {before seen : List (Event α)} {batch : List α}
    {outcome : Except ε (List β)} {e : ε} (h : Leaves worker before batch seen outcome)
    (hbefore : FirstFault worker before none) (hfirst : FirstFault worker seen (some e)) :
    ∃ a ∈ batch, worker a = .error e := by
  obtain ⟨later, a, earlier, rfl, ha, -⟩ := hfirst
  have hmem : a ∈ Batches.ended (later ++ .finish a :: earlier) := by
    rw [ended_append]
    exact List.mem_append_right _ List.mem_cons_self
  rcases List.mem_append.1 (h.ended.mem_iff.1 hmem) with hbatch | hended
  · exact ⟨a, hbatch, ha⟩
  · obtain ⟨b, hb⟩ := hbefore a hended
    rw [ha] at hb
    cases hb

/-- Batch by batch: at every moment the work is in one batch, and it ends with all results or with
the first fault. The induction is on the batches that are left. -/
theorem runBatches_together (others start : Nat) (rest : List α) {before : List (Event α)}
    (hrest : items.drop (k * (others + 1)) = rest)
    (hready : Ready items (others + 1) worker k before) :
    (∀ now, now <:+ (runBatches (together order worker) before (chunks others start rest)).1 →
      ∃ j, InBatch items (others + 1) j now) ∧
    EndsWith items rest (others + 1) worker
      (runBatches (together order worker) before (chunks others start rest)).1
      (runBatches (together order worker) before (chunks others start rest)).2 := by
  fun_induction chunks others start rest generalizing k before with
  | case1 start =>
    have htake : items.take (k * (others + 1)) = items :=
      List.take_of_length_le (List.drop_eq_nil_iff.1 hrest)
    exact ⟨hready.inBatch, .done .nil (htake ▸ hready.started) (htake ▸ hready.ended)⟩
  | case2 start a rest ih =>
    have hbatch : a :: rest.take others = (items.drop (k * (others + 1))).take (others + 1) := by
      rw [hrest, List.take_succ_cons]
    have hnext : items.drop ((k + 1) * (others + 1)) = rest.drop others := by
      rw [Nat.succ_mul, ← List.drop_drop, hrest, List.drop_succ_cons]
    have hleaves := leaves_together order hready.firstFault start (a :: rest.take others)
    rcases hrun : together order worker before start (a :: rest.take others) with ⟨seen, outcome⟩
    rw [hrun] at hleaves
    simp only [runBatches, hrun]
    rw [hbatch] at hleaves
    have hinBatch := hready.inBatch_of_leaves hleaves
    have hstarted := perm_take_succ hready.started hleaves.started
    have hended := perm_take_succ hready.ended hleaves.ended
    rcases hleaves.outcome with ⟨results, rfl, hresults, hfirst⟩ | ⟨e, rfl, hfirst⟩
    -- the batch has ended well, and the next one begins behind all that have ended
    · obtain ⟨hmoments, hends⟩ := ih hnext ⟨hstarted, hended, hinBatch, hfirst⟩
      rcases hothers : runBatches (together order worker) seen
        (chunks others (start + others + 1) (rest.drop others)) with ⟨last, outcome⟩
      rw [hothers] at hmoments hends
      simp only [hothers]
      cases hends with
      | done hrestResults hall hallEnded =>
        refine ⟨hmoments, .done ?_ hall hallEnded⟩
        rw [← List.take_append_drop others rest, ← List.cons_append, hbatch]
        exact List.rel_append hresults hrestResults
      | failed hmem ha hfirst hlast => exact ⟨hmoments, .failed hmem ha hfirst hlast⟩
    -- an item of the batch has failed, and no other batch begins
    · obtain ⟨b, hb, hfault⟩ := hleaves.exists_mem hready.firstFault hfirst
      exact ⟨hinBatch, .failed hb hfault hfirst hstarted⟩

/-- **Work in batches.** Whatever the order in which workers take turns, at every moment no more
workers are in flight than a batch has items, which is at least one; there is a batch such that all
workers of the batches before it have ended and none of a later one has started, and each item has
been started at most once. So when an item starts, all items of earlier batches have ended.

If no worker comes to a fault, each item is started once, and the results are in the order of the
items. Otherwise the first fault there is leaves the work, and nothing is started behind its
batch. -/
theorem inBatches_together (worker : α → Except ε β) (limit : Int) (items : List α) :
    let size := (max 1 limit).toNat
    let run := inBatches (together order worker) limit [] items
    (∀ now, now <:+ run.1 → (started now).length ≤ (ended now).length + size ∧
      ∃ k, items.take (k * size) <+~ ended now ∧ ended now <+~ started now ∧
        started now <+~ items.take ((k + 1) * size)) ∧
    (∀ a now, .start a :: now <:+ run.1 → ∃ k, a ∈ (items.drop (k * size)).take size ∧
      items.take (k * size) <+~ ended now) ∧
    ((∀ a ∈ items, ∃ b, worker a = .ok b) → started run.1 ~ items ∧ ended run.1 ~ items ∧
      ∃ results, run.2 = .ok results ∧
        List.Forall₂ (fun a b ↦ worker a = .ok b) items results) ∧
    ((∃ a ∈ items, ∃ e, worker a = .error e) →
      ∃ k, ∃ a ∈ (items.drop (k * size)).take size, ∃ e, worker a = .error e ∧ run.2 = .error e ∧
        FirstFault worker run.1 (some e) ∧ started run.1 ~ items.take ((k + 1) * size)) := by
  have hsize : (max 1 limit).toNat = (limit - 1).toNat + 1 := by omega
  obtain ⟨hmoments, hends⟩ := runBatches_together (k := 0) order (limit - 1).toNat 0 items
    (by simp) (ready_nil items ((limit - 1).toNat + 1) worker)
  intro size run
  rw [← hsize] at hmoments hends
  refine ⟨fun now hnow ↦ ?_, fun a now hnow ↦ ?_, fun hok ↦ ?_, fun hfail ↦ ?_⟩
  · obtain ⟨k, hk⟩ := hmoments now hnow
    exact ⟨hk.length_started_le, k, hk.earlier_ended, hk.ended_started, hk.started_upTo⟩
  · obtain ⟨k, hk⟩ := hmoments _ hnow
    exact hk.exists_of_start
  -- nothing fails here, so the run does not end with a fault
  · change EndsWith items items size worker run.1 run.2 at hends
    rcases hrun : run with ⟨seen, outcome⟩
    rw [hrun] at hends
    cases hends with
    | done hresults hstarted hended => exact ⟨hstarted, hended, _, rfl, hresults⟩
    | failed hmem ha =>
      obtain ⟨b, hb⟩ := hok _ (List.mem_of_mem_drop (List.mem_of_mem_take hmem))
      rw [ha] at hb
      cases hb
  -- something fails here, so the run does not end with results
  · change EndsWith items items size worker run.1 run.2 at hends
    rcases hrun : run with ⟨seen, outcome⟩
    rw [hrun] at hends
    cases hends with
    | done hresults =>
      obtain ⟨a, hmem, e, ha⟩ := hfail
      obtain ⟨i, hi, rfl⟩ := List.mem_iff_getElem.1 hmem
      have hb := hresults.get hi (hresults.length_eq ▸ hi)
      rw [List.get_eq_getElem, ha] at hb
      cases hb
    | failed hmem ha hfirst hstarted => exact ⟨_, _, hmem, _, ha, rfl, hfirst, hstarted⟩

end Run

/-- Five items of which the third has a fault, two at a time, and two items under a limit of none;
the second worker of a batch takes its turns before the first. -/
theorem inBatches_together_of_five :
    let worker : Nat → Except String Nat := fun n ↦ if n = 3 then .error "three" else .ok (2 * n)
    let failing := inBatches (together (fun _ ↦ [1, 1, 0]) worker) 2 [] [1, 2, 3, 4, 5]
    let passing := inBatches (together (fun _ ↦ [1, 1, 0]) worker) 0 [] [4, 5]
    (failing.1 <:+ failing.1 ∧ (started failing.1).length ≤ (ended failing.1).length + 2) ∧
    (∃ a ∈ [1, 2, 3, 4, 5], ∃ e, worker a = .error e) ∧
    failing.2 = .error "three" ∧ started failing.1 ~ [1, 2, 3, 4] ∧
    (∀ a ∈ [4, 5], ∃ b, worker a = .ok b) ∧ passing.2 = .ok [8, 10] := by
  intro worker failing passing
  have hfail : ∃ a ∈ [1, 2, 3, 4, 5], ∃ e, worker a = .error e := ⟨3, by simp, "three", rfl⟩
  have hok : ∀ a ∈ [4, 5], ∃ b, worker a = .ok b := by simp [worker]
  obtain ⟨hmoments, -, -, hfailing⟩ :=
    inBatches_together (fun _ ↦ [1, 1, 0]) worker 2 [1, 2, 3, 4, 5]
  obtain ⟨k, a, hmem, e, ha, he, -, hstarted⟩ := hfailing hfail
  obtain ⟨-, -, results, hresults, hall⟩ :=
    (inBatches_together (fun _ ↦ [1, 1, 0]) worker 0 [4, 5]).2.2.1 hok
  have hthree : a = 3 ∧ e = "three" := by
    by_cases h : a = 3
    · simpa [worker, h, eq_comm] using ha
    · simp [worker, h] at ha
  obtain ⟨rfl, rfl⟩ := hthree
  -- the third item lies in the second batch of two
  have hsize : (max 1 (2 : Int)).toNat = 2 := rfl
  rw [hsize] at hmem hstarted
  have hk : k = 1 := by
    rcases k with - | - | k
    · simp at hmem
    · rfl
    · have hlast : [1, 2, 3, 4, 5].drop ((k + 2) * 2) <:+ [1, 2, 3, 4, 5].drop 4 :=
        List.drop_suffix_drop_left _ (by omega)
      have hfive := hlast.subset (List.mem_of_mem_take hmem)
      simp at hfive
  subst hk
  refine ⟨⟨List.suffix_refl _, (hmoments _ (List.suffix_refl _)).1⟩, hfail, he, hstarted, hok, ?_⟩
  rw [hresults]
  cases hall with
  | cons h4 hrest =>
    cases hrest with
    | cons h5 hnil =>
      cases hnil
      simp_all [worker]

end RepoSurvey.Batches
