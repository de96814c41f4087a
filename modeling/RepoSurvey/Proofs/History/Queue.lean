import RepoSurvey.Proofs.History.Schedule

/-!
# The queue answers everybody

The queue of a schedule holds each thread that can go on, and the list of those who wait holds each
thread that waits for one that has not ended, once and with the thread that it waits for
(`Turns.Orderly`). A turn keeps it so (`Turns.Orderly.turn`): whoever goes on comes to stand at a
command, or waits, or ends, and each of these is noted in its place.

So an empty queue means that nobody can go on. As every turn lowers the effort that is ahead, a
schedule that is given as many turns as there is effort goes on until all clients have ended or one
has failed (`Turns.Orderly.drive`); and a question that is asked alone has an answer that it may
have (`Turns.mayYield_ask`).
-/

namespace RepoSurvey.History

/-- The thread that a thread waits for at a point. -/
def Point.awaits? : Point → Option Nat
  | .onCheck s | .onIndex s => some s
  | .start | .command _ | .done _ => none

namespace World

variable {w w' : World} {i j s : Nat} {t t' : Thread} {jobs : List Job}

/-- A thread waits for another one that has not ended. -/
def WaitsFor (w : World) (j s : Nat) : Prop :=
  ∃ t, w.threads[j]? = some t ∧ t.point.awaits? = some s ∧ w.result? s = none

/-- A thread waits for another one if its point says so, and the other has not ended. -/
theorem waitsFor_iff (ht : w.threads[j]? = some t) :
    w.WaitsFor j s ↔ t.point.awaits? = some s ∧ w.result? s = none := by
  refine ⟨?_, fun h ↦ ⟨t, ht, h⟩⟩
  rintro ⟨u, hu, h⟩
  rwa [Option.some.inj (ht.symm.trans hu)]

theorem not_waitsFor_of_le (hj : w.threads.length ≤ j) : ¬w.WaitsFor j s := by
  rintro ⟨u, hu, -⟩
  simp [List.getElem?_eq_none hj] at hu

/-- Who has come to wait can go on as soon as the other thread has ended. -/
theorem isReady_of_awaits? {p : Point} (hp : p.awaits? = some s) :
    w.isReady p = (w.result? s).isSome := by
  cases p with
  | start | command | done => cases hp
  | onCheck | onIndex => rw [isReady, Option.some.inj hp]

/-- Whether a thread can go on that waits for nobody does not depend on the world. -/
theorem isReady_eq_of_awaits?_eq_none {p : Point} (hp : p.awaits? = none) (w w' : World) :
    w'.isReady p = w.isReady p := by
  cases p with
  | start | command | done => rfl
  | onCheck | onIndex => cases hp

/-- Whoever waits cannot go on. -/
theorem WaitsFor.canGoOn (h : w.WaitsFor j s) : w.canGoOn j = false := by
  obtain ⟨u, hu, hs, hnone⟩ := h
  rw [canGoOn_eq hu, isReady_of_awaits? hs, hnone, Option.isSome_none]

/-! ### Who can go on after a turn -/

namespace Goes

/-- The thread that has taken the turn stands at its new point. -/
theorem getElem?_self (h : w.Goes i t w' t' jobs) (hi : i < w.threads.length) :
    w'.threads[i]? = some t' := by
  rw [h.threads, List.getElem?_append_left (by rwa [List.length_set]), List.getElem?_set_self hi]

/-- The others that were there stand where they stood. -/
theorem getElem?_of_ne (h : w.Goes i t w' t' jobs) (hj : j < w.threads.length) (hne : j ≠ i) :
    w'.threads[j]? = w.threads[j]? := by
  rw [h.threads, List.getElem?_append_left (by rwa [List.length_set]),
    List.getElem?_set_ne hne.symm]

/-- Behind them stand the threads that have been begun, at their start. -/
theorem getElem?_of_le (h : w.Goes i t w' t' jobs) (hj : w.threads.length ≤ j) :
    w'.threads[j]? = jobs[j - w.threads.length]?.map (Thread.mk · .start) := by
  rw [h.threads, List.getElem?_append_right (by rwa [List.length_set]), List.length_set,
    List.getElem?_map]

/-- Only the thread that has taken the turn may have come to its result in it. -/
theorem result?_of_ne (h : w.Goes i t w' t' jobs) (hs : s ≠ i) :
    w'.result? s = w.result? s := by
  by_cases hlt : s < w.threads.length
  · rw [result?, result?, h.getElem?_of_ne hlt hs]
  · have hle := Nat.le_of_not_lt hlt
    have hold : w.result? s = none := by rw [result?, List.getElem?_eq_none hle]
    rw [hold, result?, h.getElem?_of_le hle]
    cases jobs[s - w.threads.length]? <;> rfl

/-- A thread that was there can go on if it could before, or if the one that it waited for has
ended in this turn. -/
theorem canGoOn_iff_of_lt (h : w.Goes i t w' t' jobs) (hnone : w.result? i = none)
    (hj : j < w.threads.length) (hne : j ≠ i) :
    w'.canGoOn j = true ↔ w.canGoOn j = true ∨ w.WaitsFor j i ∧ w'.result? i ≠ none := by
  have hu : w.threads[j]? = some w.threads[j] := List.getElem?_eq_getElem hj
  rw [canGoOn_eq ((h.getElem?_of_ne hj hne).trans hu), canGoOn_eq hu, waitsFor_iff hu]
  rcases hawaits : (w.threads[j]).point.awaits? with - | s
  · rw [isReady_eq_of_awaits?_eq_none hawaits w w']
    simp
  · rw [isReady_of_awaits? hawaits, isReady_of_awaits? hawaits]
    by_cases hs : s = i
    · subst hs
      simp [hnone, Option.isSome_iff_ne_none]
    · rw [h.result?_of_ne hs]
      simp [hs]

/-- The threads that have been begun can go on. -/
theorem canGoOn_iff_of_le (h : w.Goes i t w' t' jobs) (hj : w.threads.length ≤ j) :
    w'.canGoOn j = true ↔ j < w.threads.length + jobs.length := by
  rw [canGoOn, h.getElem?_of_le hj]
  by_cases hlt : j < w.threads.length + jobs.length
  · have hnew : j - w.threads.length < jobs.length := by omega
    rw [List.getElem?_eq_getElem hnew]
    exact iff_of_true rfl hlt
  · have hnew : jobs.length ≤ j - w.threads.length := by omega
    rw [List.getElem?_eq_none hnew]
    exact iff_of_false (by simp) hlt

/-- The others wait as before, unless the thread that they waited for has ended in this turn. -/
theorem waitsFor_iff_of_ne (h : w.Goes i t w' t' jobs) (hnone : w.result? i = none)
    (hne : j ≠ i) : w'.WaitsFor j s ↔ w.WaitsFor j s ∧ (s = i → w'.result? i = none) := by
  by_cases hj : j < w.threads.length
  · have hu : w.threads[j]? = some w.threads[j] := List.getElem?_eq_getElem hj
    rw [waitsFor_iff ((h.getElem?_of_ne hj hne).trans hu), waitsFor_iff hu]
    by_cases hs : s = i
    · subst hs
      simp [hnone]
    · rw [h.result?_of_ne hs]
      simp [hs]
  · have hle := Nat.le_of_not_lt hj
    refine iff_of_false ?_ fun hw ↦ not_waitsFor_of_le hle hw.1
    rintro ⟨u, hu, hs, -⟩
    rw [h.getElem?_of_le hle] at hu
    obtain ⟨job, -, rfl⟩ := Option.map_eq_some_iff.1 hu
    cases hs

end Goes

/-- No thread goes away. -/
theorem length_le_resume (h : w.Coherent) (hgo : w.canGoOn i = true) (outcome : Outcome) :
    w.threads.length ≤ (w.resume i outcome).threads.length := by
  obtain ⟨u, hu, hready⟩ := exists_of_canGoOn hgo
  obtain ⟨u', jobs, hgoes⟩ := exists_goes_resume h hu hready outcome
  rw [hgoes.threads, List.length_append, List.length_set]
  exact Nat.le_add_right _ _

/-! ### Who can go on when someone asks -/

section Ask

variable (w) (todo : List Query)

/-- Who asks stands behind the threads that were there, at the start. -/
theorem getElem?_ask : (w.after (.ask todo)).threads[w.threads.length]? =
    some ⟨.client todo [], .start⟩ := by
  simp [World.after, spawn]

theorem getElem?_ask_of_ne (hj : j ≠ w.threads.length) :
    (w.after (.ask todo)).threads[j]? = w.threads[j]? := by
  show (w.threads ++ [⟨.client todo [], .start⟩])[j]? = _
  by_cases hlt : j < w.threads.length
  · rw [List.getElem?_append_left hlt]
  · have hend : (w.threads ++ [Thread.mk (.client todo []) .start]).length ≤ j := by
      rw [List.length_append, List.length_singleton]
      omega
    rw [List.getElem?_eq_none hend, List.getElem?_eq_none (Nat.le_of_not_lt hlt)]

theorem result?_ask : (w.after (.ask todo)).result? s = w.result? s := by
  by_cases hs : s = w.threads.length
  · subst hs
    have hold : w.result? w.threads.length = none := by
      rw [result?, List.getElem?_eq_none (Nat.le_refl _)]
    rw [hold]
    exact result?_eq_none (getElem?_ask w todo) (by simp)
  · rw [result?, result?, getElem?_ask_of_ne w todo hs]

/-- A new client changes nothing for the others. -/
theorem canGoOn_ask_of_ne (hj : j ≠ w.threads.length) :
    (w.after (.ask todo)).canGoOn j = w.canGoOn j := by
  rw [canGoOn, canGoOn, getElem?_ask_of_ne w todo hj]
  rcases w.threads[j]? with - | ⟨job, p⟩
  · rfl
  · cases p with
    | start | command | done => rfl
    | onCheck s | onIndex s => exact congrArg Option.isSome (result?_ask w todo)

/-- A new client waits for nobody, and nobody waits for it. -/
theorem waitsFor_ask : (w.after (.ask todo)).WaitsFor j s ↔ w.WaitsFor j s := by
  by_cases hj : j = w.threads.length
  · subst hj
    refine iff_of_false ?_ (not_waitsFor_of_le (Nat.le_refl _))
    simp [waitsFor_iff (getElem?_ask w todo), Point.awaits?]
  · rw [WaitsFor, WaitsFor, getElem?_ask_of_ne w todo hj, result?_ask]

end Ask

end World

namespace Turns

open World

variable {b : Outcomes} {script : Script} {t : Turns} {i : Nat}

/-- The queue holds who can go on, apart from a thread that has been taken out of it, and the list
of those who wait holds who waits for whom. -/
structure Orderly (taken : Option Nat) (t : Turns) : Prop where
  coherent : t.world.Coherent
  nodup_ready : t.ready.Nodup
  mem_ready : ∀ j, j ∈ t.ready ↔ t.world.canGoOn j = true ∧ taken ≠ some j
  nodup_waiting : t.waiting.Nodup
  mem_waiting : ∀ s j, (s, j) ∈ t.waiting ↔ t.world.WaitsFor j s

/-- In a history that nobody has asked the queue is empty, as it should be. -/
theorem orderly_fresh (repo : String) (now : Int) : (fresh repo now).Orderly none where
  coherent := coherent_fresh repo now
  nodup_ready := .nil
  mem_ready j := by simp [fresh, canGoOn]
  nodup_waiting := .nil
  mem_waiting s j := by simp [fresh, WaitsFor]

/-- Who wakes when a thread ends, in order: those who have waited for it. -/
def wokenBy (t : Turns) (i : Nat) : List Nat := (t.waiting.filter fun p ↦ p.1 == i).map Prod.snd

/-- Those who wake when a thread ends are those who wait for it. -/
theorem Orderly.mem_wokenBy {taken : Option Nat} (h : t.Orderly taken) {j : Nat} :
    j ∈ t.wokenBy i ↔ t.world.WaitsFor j i := by
  simp [wokenBy, h.mem_waiting]

/-- Nobody wakes twice. -/
theorem Orderly.nodup_wokenBy {taken : Option Nat} (h : t.Orderly taken) (i : Nat) :
    (t.wokenBy i).Nodup := by
  refine (h.nodup_waiting.filter _).map_on ?_
  -- all of these pairs have the same first component
  rintro ⟨s, j⟩ hj ⟨s', j'⟩ hj' rfl
  have hs := (List.mem_filter.1 hj).2
  have hs' := (List.mem_filter.1 hj').2
  exact Prod.ext ((eq_of_beq hs).trans (eq_of_beq hs').symm) rfl

/-! ### A turn keeps the queue orderly -/

section Turn

variable {u u' : Thread} {w' : World} {jobs : List Job} (h : t.Orderly (some i))
  (hu : t.world.threads[i]? = some u) (hready : t.world.isReady u.point = true)
  (hgoes : t.world.Goes i u w' u' jobs)

include hu hready in
theorem result?_eq_none_of_isReady : t.world.result? i = none := by
  refine result?_eq_none hu fun r hr ↦ ?_
  simp [hr, isReady] at hready

include hu hready in
theorem not_waitsFor_of_isReady (s : Nat) : ¬t.world.WaitsFor i s := fun hw ↦ by
  rw [← canGoOn_eq hu, hw.canGoOn] at hready
  cases hready

include h hgoes

/-- Threads that have been begun were not in the queue before. -/
theorem Orderly.nodup_append_begun : (t.ready ++ w'.begun.reverse).Nodup := by
  rw [hgoes.begun]
  refine List.nodup_append.2 ⟨h.nodup_ready, List.nodup_range', ?_⟩
  rintro j hj k hk rfl
  obtain ⟨v, hv, -⟩ := exists_of_canGoOn ((h.mem_ready j).1 hj).1
  obtain ⟨hlt, -⟩ := List.getElem?_eq_some_iff.1 hv
  exact absurd (List.mem_range'_1.1 hk).1 (Nat.not_le_of_lt hlt)

include hu hready

/-- After a turn the old queue and the threads that have been begun are those who can go on, apart
from the one who took the turn and those who have waited for its end. -/
theorem Orderly.mem_append_begun (j : Nat) :
    j ∈ t.ready ++ w'.begun.reverse ↔
      w'.canGoOn j = true ∧ j ≠ i ∧ ¬(t.world.WaitsFor j i ∧ w'.result? i ≠ none) := by
  have hnone := result?_eq_none_of_isReady hu hready
  obtain ⟨hi, -⟩ := List.getElem?_eq_some_iff.1 hu
  rw [List.mem_append, h.mem_ready, hgoes.begun, List.mem_range'_1]
  -- a thread that was there, or one that has been begun in this turn
  by_cases hj : j < t.world.threads.length
  · rw [or_iff_left (fun hmem ↦ absurd hmem.1 (Nat.not_le_of_lt hj))]
    by_cases hne : j = i
    · simp [hne]
    · rw [hgoes.canGoOn_iff_of_lt hnone hj hne]
      have hwaits : t.world.canGoOn j = true → ¬t.world.WaitsFor j i := fun hgo hw ↦ by
        simp [hw.canGoOn] at hgo
      have hne' : some i ≠ some j := fun heq ↦ hne (Option.some.inj heq).symm
      tauto
  · have hle := Nat.le_of_not_lt hj
    have hgone : t.world.canGoOn j = false := by rw [canGoOn, List.getElem?_eq_none hle]
    have hne : j ≠ i := by omega
    rw [hgoes.canGoOn_iff_of_le hle]
    simp [hgone, hne, not_waitsFor_of_le hle, hle]

/-- Those who waited before a turn wait after it, unless it was the end of the thread that they
waited for. -/
theorem Orderly.mem_waiting_and (s j : Nat) :
    (s, j) ∈ t.waiting ∧ (s = i → w'.result? i = none) ↔ w'.WaitsFor j s ∧ j ≠ i := by
  have hnone := result?_eq_none_of_isReady hu hready
  have hself := not_waitsFor_of_isReady hu hready s
  rw [h.mem_waiting]
  by_cases hne : j = i
  · subst hne
    simp [hself]
  · rw [hgoes.waitsFor_iff_of_ne hnone hne, and_iff_left hne]

variable (hw' : w'.Coherent) (hself : w'.threads[i]? = some u')
include hw' hself

/-- Whoever has come to stand at a command goes to the end of the queue. -/
theorem Orderly.of_command {c : Command} (hpoint : u'.point = .command c) :
    Orderly none {
      t with
      world := w'
      ready := t.ready ++ w'.begun.reverse ++ [i] } := by
  have hmem := h.mem_append_begun hu hready hgoes
  have hwaiting := h.mem_waiting_and hu hready hgoes
  have hnone : w'.result? i = none := result?_eq_none hself (by simp [hpoint])
  have hgo : w'.canGoOn i = true := by rw [canGoOn_eq hself, hpoint, isReady]
  have hfree (s : Nat) : ¬w'.WaitsFor i s := fun hw ↦ by simp [hw.canGoOn] at hgo
  refine ⟨hw', ?_, fun j ↦ ?_, h.nodup_waiting, fun s j ↦ ?_⟩
  · refine List.nodup_append.2 ⟨h.nodup_append_begun hgoes, List.nodup_singleton i, ?_⟩
    rintro j hj k hk rfl
    exact ((hmem j).1 hj).2.1 (List.mem_singleton.1 hk)
  · rw [List.mem_append, List.mem_singleton, hmem]
    by_cases hne : j = i
    · simp [hne, hgo]
    · simp [hne, hnone]
  · have hiff := hwaiting s j
    rw [and_iff_left fun _ ↦ hnone] at hiff
    rw [hiff, and_iff_left_iff_imp]
    rintro hw rfl
    exact hfree s hw

/-- Whoever has come to wait is noted with the thread that it waits for. -/
theorem Orderly.of_waits {s : Nat} (hpoint : u'.point.awaits? = some s)
    (hrests : w'.result? s = none) :
    Orderly none {
      world := w'
      ready := t.ready ++ w'.begun.reverse
      waiting := t.waiting ++ [(s, i)] } := by
  have hmem := h.mem_append_begun hu hready hgoes
  have hwaiting := h.mem_waiting_and hu hready hgoes
  have hnone : w'.result? i = none := result?_eq_none hself fun r hr ↦ by
    simp [hr, Point.awaits?] at hpoint
  -- the thread that has just moved now waits for `s`, and that is all that changes
  have hwaits : w'.WaitsFor i s := (waitsFor_iff hself).2 ⟨hpoint, hrests⟩
  refine ⟨hw', h.nodup_append_begun hgoes, fun j ↦ ?_, ?_, fun s' j ↦ ?_⟩
  · rw [hmem]
    by_cases hne : j = i
    · simp [hne, hwaits.canGoOn]
    · simp [hne, hnone]
  · refine List.nodup_append.2 ⟨h.nodup_waiting, List.nodup_singleton _, ?_⟩
    rintro x hx y hy rfl
    obtain rfl := List.mem_singleton.1 hy
    exact ((hwaiting s i).1 ⟨hx, fun _ ↦ hnone⟩).2 rfl
  · have hiff := hwaiting s' j
    rw [and_iff_left fun _ ↦ hnone] at hiff
    rw [List.mem_append, List.mem_singleton, hiff, Prod.mk.injEq]
    by_cases hne : j = i
    · subst hne
      rw [waitsFor_iff hself, hpoint]
      constructor
      · rintro (⟨-, hj⟩ | ⟨rfl, -⟩)
        · exact absurd rfl hj
        · exact ⟨rfl, hrests⟩
      · rintro ⟨hs, -⟩
        exact Or.inr ⟨(Option.some.inj hs).symm, rfl⟩
    · simp [hne]

/-- When a thread has ended, those who have waited for it go to the end of the queue. -/
theorem Orderly.of_done {r : Except Fault Answer} (hpoint : u'.point = .done r) :
    Orderly none {
      world := w'
      ready := t.ready ++ w'.begun.reverse ++ t.wokenBy i
      waiting := t.waiting.filter fun p ↦ !(p.1 == i) } := by
  have hmem := h.mem_append_begun hu hready hgoes
  have hwaiting := h.mem_waiting_and hu hready hgoes
  have hr : w'.result? i ≠ none := by
    have hdone : w'.threads[i]? = some ⟨u'.job, .done r⟩ := by rw [hself, ← hpoint]
    simp [result?_eq_some_iff.2 ⟨_, hdone⟩]
  have hgone : w'.canGoOn i = false := by rw [canGoOn_eq hself, hpoint, isReady]
  have hfree := not_waitsFor_of_isReady hu hready
  refine ⟨hw', ?_, fun j ↦ ?_, h.nodup_waiting.filter _, fun s j ↦ ?_⟩
  · refine List.nodup_append.2 ⟨h.nodup_append_begun hgoes, h.nodup_wokenBy i, ?_⟩
    -- whoever waited for the thread could not go on, so it was not in the queue
    rintro j hj k hk rfl
    exact ((hmem j).1 hj).2.2 ⟨h.mem_wokenBy.1 hk, hr⟩
  · rw [List.mem_append, hmem, h.mem_wokenBy]
    by_cases hne : j = i
    · subst hne
      simp [hgone, hfree]
    · have hgo := hgoes.canGoOn_iff_of_lt (j := j) (result?_eq_none_of_isReady hu hready)
      have hlt : t.world.WaitsFor j i → j < t.world.threads.length := fun hw ↦
        Nat.lt_of_not_le fun hle ↦ not_waitsFor_of_le hle hw
      simp only [ne_eq, not_false_eq_true, reduceCtorEq]
      tauto
  · have hne : w'.WaitsFor j s → j ≠ i := by
      rintro hw rfl
      simp [waitsFor_iff hself, hpoint, Point.awaits?] at hw
    have hiff := hwaiting s j
    rw [and_iff_left_of_imp hne] at hiff
    rw [← hiff, List.mem_filter]
    simp [hr]

end Turn

/-- A turn of a thread that has been taken out of the queue leaves an orderly one. -/
theorem Orderly.turn (h : t.Orderly (some i)) (hgo : t.world.canGoOn i = true)
    (hscript : script.IsExpected) : (t.turn script i).Orderly none := by
  obtain ⟨u, hu, hready⟩ := exists_of_canGoOn hgo
  obtain ⟨hi, -⟩ := List.getElem?_eq_some_iff.1 hu
  have houtcome := isExpected_outcomeFor hscript t.world i
  have hw' := h.coherent.after (e := .goOn i (outcomeFor script t.world i)) houtcome
  change (t.world.resume i (outcomeFor script t.world i)).Coherent at hw'
  obtain ⟨u', jobs, hgoes⟩ := exists_goes_resume h.coherent hu hready (outcomeFor script t.world i)
  have hself := hgoes.getElem?_self hi
  have hrests := hgoes.rests
  rcases u' with ⟨job, p⟩
  cases p with
  | start => exact hrests.elim
  | command c =>
    have hnext := h.of_command hu hready hgoes hw' hself rfl
    rwa [Turns.turn, hself]
  | onCheck s | onIndex s =>
    have hnext := h.of_waits hu hready hgoes hw' hself rfl hrests
    rwa [Turns.turn, hself]
  | done r =>
    have hnext := h.of_done hu hready hgoes hw' hself rfl
    rw [Turns.turn, hself]
    simp only [Option.map_some, List.partition_eq_filter_filter]
    exact hnext

/-! ### A schedule completes -/

/-- The first in the queue is taken out of it. -/
theorem Orderly.take (h : t.Orderly none) {rest : List Nat} (hready : t.ready = i :: rest) :
    t.world.canGoOn i = true ∧ Orderly (some i) { t with ready := rest } := by
  have hnodup := h.nodup_ready
  have hmem := h.mem_ready
  rw [hready] at hnodup hmem
  obtain ⟨hnot, hrest⟩ := List.nodup_cons.1 hnodup
  refine ⟨((hmem i).1 List.mem_cons_self).1, h.coherent, hrest, fun j ↦ ?_, h.nodup_waiting,
    h.mem_waiting⟩
  have hj := hmem j
  rw [List.mem_cons] at hj
  by_cases hne : j = i
  · subst hne
    simp [hnot]
  · simpa [hne, Ne.symm hne] using hj

theorem Orderly.next (h : t.Orderly none) {rest : List Nat} (hready : t.ready = i :: rest)
    (hscript : script.IsExpected) :
    (t.next script).Orderly none ∧ (t.next script).world.effort < t.world.effort := by
  obtain ⟨hgo, htaken⟩ := h.take hready
  rw [Turns.next, hready]
  refine ⟨htaken.turn hgo hscript, ?_⟩
  rw [world_turn]
  exact effort_resume_lt h.coherent hgo _

/-- Nobody can go on when the queue is empty. -/
theorem Orderly.canGoOn_eq_false (h : t.Orderly none) (hready : t.ready = []) (j : Nat) :
    t.world.canGoOn j = false := by
  have hj := h.mem_ready j
  rw [hready] at hj
  simpa using hj

/-- Without effort ahead nobody can go on, so the queue is empty. -/
theorem Orderly.ready_eq_nil (h : t.Orderly none) (heffort : t.world.effort = 0) :
    t.ready = [] := by
  refine List.eq_nil_iff_forall_not_mem.2 fun j hj ↦ ?_
  have hlt := effort_resume_lt h.coherent ((h.mem_ready j).1 hj).1 (.ok "")
  omega

/-- A schedule has stopped with all of some clients ended, or where nobody can go on, or with the
fault of one that has failed. -/
structure Stopped (clients : List Nat) (go : Turns × Option Fault) : Prop where
  orderly : go.1.Orderly none
  ended : go.2 = none →
    (∀ c ∈ clients, go.1.isDone c = true) ∨ ∀ j, go.1.world.canGoOn j = false
  failed : ∀ e, go.2 = some e → ∃ c ∈ clients, go.1.fault? c = some e

/-- A schedule stops where its clients have ended, or where nobody can go on. -/
theorem Orderly.stopped (h : t.Orderly none) {clients : List Nat}
    (hended : (∀ c ∈ clients, t.isDone c = true) ∨ ∀ j, t.world.canGoOn j = false) :
    Stopped clients (t, none) :=
  ⟨h, fun _ ↦ hended, fun _ he ↦ by cases he⟩

/-- As many turns as there is effort are enough for a schedule to stop. -/
theorem Orderly.drive (h : t.Orderly none) (hscript : script.IsExpected) (clients : List Nat)
    {fuel : Nat} (hfuel : t.world.effort ≤ fuel) :
    Stopped clients (t.drive script clients fuel) := by
  induction fuel generalizing t with
  | zero =>
    have hready := h.ready_eq_nil (Nat.le_zero.1 hfuel)
    exact h.stopped (Or.inr (h.canGoOn_eq_false hready))
  | succ fuel ih =>
    rw [Turns.drive]
    split
    · rename_i hready
      exact h.stopped (Or.inr (h.canGoOn_eq_false hready))
    · rename_i i rest hready
      obtain ⟨hnext, hlt⟩ := h.next hready hscript
      split
      · rename_i hall
        exact h.stopped (Or.inl (List.all_eq_true.1 hall))
      simp only
      split
      · rename_i e he
        refine ⟨hnext, fun hnone ↦ absurd hnone (by simp), fun e' he' ↦ ?_⟩
        obtain rfl := Option.some.inj he'
        split at he
        · rename_i hmem
          exact ⟨i, List.contains_iff_mem.1 hmem, he⟩
        · cases he
      · -- the turn has cost at least as much effort as fuel
        exact ih hnext (by omega)

/-! ### Asking -/

/-- Someone who begins to ask can go on, and is not in the queue. -/
theorem Orderly.ask (h : t.Orderly none) (todo : List Query) :
    (t.world.after (.ask todo)).canGoOn t.world.threads.length = true ∧
      Orderly (some t.world.threads.length) { t with world := t.world.after (.ask todo) } := by
  refine ⟨?_, h.coherent.after (e := .ask todo) trivial, h.nodup_ready, fun j ↦ ?_,
    h.nodup_waiting, fun s j ↦ (h.mem_waiting s j).trans (waitsFor_ask t.world todo).symm⟩
  · rw [canGoOn_eq (getElem?_ask t.world todo), isReady]
  · rw [h.mem_ready]
    by_cases hj : j = t.world.threads.length
    · subst hj
      simp [canGoOn]
    · rw [canGoOn_ask_of_ne t.world todo hj]
      simp [Ne.symm hj]

/-- When a schedule has stopped, its clients have ended, or one of them has failed. -/
theorem Stopped.isSome_result? {go : Turns × Option Fault} (h : Stopped [i] go) {u : Thread}
    (hu : go.1.world.threads[i]? = some u) {qs : List Query}
    (hqs : ∃ repo now, HasAsked b repo now qs u) : (go.1.world.result? i).isSome := by
  rcases hfault : go.2 with - | e
  · rcases h.ended hfault with hdone | hstill
    · exact hdone i (List.mem_singleton_self i)
    · exact h.orderly.coherent.isSome_result? hstill hu hqs
  · obtain ⟨c, hc, he⟩ := h.failed e hfault
    obtain rfl := List.mem_singleton.1 hc
    simp only [fault?] at he
    split at he
    · rename_i hr
      rw [hr, Option.isSome_some]
    · cases he

/-- Where a schedule stops that drives whoever asks a question. -/
def asked (script : Script) (t : Turns) (q : Query) : Turns × Option Fault :=
  let (w, i) := t.world.spawn (.client [q] [])
  let first := ({ t with world := w } : Turns).turn script i
  first.drive script [i] (first.fuelFor 1)

/-- The answer to whoever is client `i`, when a schedule has stopped. -/
def answerFor (i : Nat) (go : Turns × Option Fault) : Except Fault Answer :=
  match go.2.or (go.1.fault? i), go.1.answers [i] with
  | some e, _ => .error e
  | none, [.all [a]] => .ok a
  | none, _ => .ok .nothing

/-- What is answered is told by the place where the schedule has stopped. -/
theorem ask_snd (script : Script) (t : Turns) (q : Query) :
    (t.ask script q).2 = answerFor t.world.threads.length (t.asked script q) := by
  change _ = answerFor (t.world.spawn (.client [q] [])).2 _
  simp only [ask, asked, answerFor]
  split <;> simp_all only

section Asked

variable {q : Query} {e : Fault} {a : Answer}
  (hstopped : Stopped [t.world.threads.length] (t.asked script q))
include hstopped

/-- A schedule that drives one client can only be stopped by the fault of this one. -/
theorem Stopped.or_eq :
    (t.asked script q).2.or ((t.asked script q).1.fault? t.world.threads.length) =
      (t.asked script q).1.fault? t.world.threads.length := by
  rcases hfault : (t.asked script q).2 with - | e
  · rfl
  · obtain ⟨c, hc, hc'⟩ := hstopped.failed e hfault
    rw [← List.mem_singleton.1 hc, hc']
    rfl

/-- The answer is what the client has ended with. -/
theorem Stopped.ask_eq_error
    (he : (t.asked script q).1.world.result? t.world.threads.length = some (.error e)) :
    (t.ask script q).2 = .error e := by
  have hfault : (t.asked script q).1.fault? t.world.threads.length = some e := by rw [fault?, he]
  rw [ask_snd, answerFor, hstopped.or_eq, hfault]

/-- A client that has ended with one answer has this answer. -/
theorem Stopped.ask_eq_ok
    (ha : (t.asked script q).1.world.result? t.world.threads.length = some (.ok (.all [a]))) :
    (t.ask script q).2 = .ok a := by
  have hfault : (t.asked script q).1.fault? t.world.threads.length = none := by rw [fault?, ha]
  have hanswers : (t.asked script q).1.answers [t.world.threads.length] = [.all [a]] := by
    rw [answers, List.map_singleton, ha]
  rw [ask_snd, answerFor, hstopped.or_eq, hfault, hanswers]

end Asked

/-- There are turns enough for a question that is asked alone, if there have been no more of other
questions than there are threads. -/
theorem Orderly.asked (h : t.Orderly none) (hscript : script.IsExpected)
    (heffort : t.world.effort ≤ 16 * t.world.threads.length) (q : Query) :
    Stopped [t.world.threads.length] (t.asked script q) := by
  obtain ⟨hgo, hasking⟩ := h.ask [q]
  have hfirst := hasking.turn hgo hscript
  set asking : Turns := { t with world := t.world.after (.ask [q]) }
  have hbegun : t.world.Begins 11 asking.world := begins_spawn t.world (.client [q] [])
  have hle := hbegun.effort_le
  have hlen : asking.world.threads.length = t.world.threads.length + 1 := List.length_append
  have hlt := effort_resume_lt hasking.coherent hgo
    (outcomeFor script asking.world t.world.threads.length)
  have hmore := length_le_resume hasking.coherent hgo
    (outcomeFor script asking.world t.world.threads.length)
  have hfuel : (asking.turn script t.world.threads.length).world.effort ≤
      (asking.turn script t.world.threads.length).fuelFor 1 := by
    -- the question brings eleven turns, and its thread sixteen units of fuel
    rw [fuelFor, world_turn]
    omega
  exact hfirst.drive hscript _ hfuel

/-- A question that is asked alone has an answer that it may have. -/
theorem mayYield_ask (h : t.Orderly none) (hfounded : t.world.Founded b)
    (hscript : script.IsExpected) (hobeys : script.Obeys b)
    (heffort : t.world.effort ≤ 16 * t.world.threads.length) (q : Query) :
    b.MayYield t.world.repo t.world.now q (t.ask script q).2 := by
  have hstopped := h.asked hscript heffort q
  have hasking : (t.world.after (.ask [q])).Founded b := hfounded.moves (.single (.ask [q])) rfl
  have hruns : (t.world.after (.ask [q])).RunsTo b (t.asked script q).1.world :=
    (runsTo_turn hscript hobeys { t with world := t.world.after (.ask [q]) } _).trans
      (runsTo_drive hscript hobeys _ _ _)
  obtain ⟨u, hu, hqs⟩ := hruns.exists_hasAsked (h.ask [q]).2.coherent hasking
    (getElem?_ask t.world [q]) ⟨[], rfl, .nil, trivial⟩
  obtain ⟨r, hr⟩ := Option.isSome_iff_exists.1 (hstopped.isSome_result? hu ⟨_, _, hqs⟩)
  have hend := hqs.mayEnd hu hr
  cases r with
  | error e =>
    obtain ⟨asked, q', rest, hsplit, he, -⟩ := hend
    obtain ⟨rfl, hq⟩ | ⟨-, hrest⟩ := List.singleton_eq_append_iff.1 hsplit
    · obtain ⟨rfl, rfl⟩ := List.cons.inj hq
      rwa [hstopped.ask_eq_error hr]
    · cases hrest
  | ok a =>
    obtain ⟨as, rfl, has⟩ := hend
    obtain ⟨a, as, ha, hnil, rfl⟩ := List.forall₂_cons_left_iff.1 has
    obtain rfl := List.forall₂_nil_left_iff.1 hnil
    rwa [hstopped.ask_eq_ok hr]

end Turns

end RepoSurvey.History
