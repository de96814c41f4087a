import Mathlib.Algebra.Group.Action.Defs
import Mathlib.Algebra.Order.BigOperators.Group.List
import Mathlib.Algebra.Order.Group.Nat
import RepoSurvey.Proofs.History.AnyOrder

/-!
# Asking together

When several clients ask together, everybody is answered, and whoever asks later finds the history
ready for that: `Turns.Quiet.askTogether` can be applied batch after batch. It is about questions
that cannot fail, so that nobody has to break off.

A schedule is given fuel for the questions of one batch. That this is enough rests on what batches
before it leave behind. A turn begins none but threads of the history's own, which have little ahead
(`World.beginsLight_advance`); so once the clients of a batch have ended, no thread has more than
ten turns ahead (`World.Light.of_ended`), and the fuel that its presence adds pays for them.
-/

namespace RepoSurvey.History

namespace World

variable {w w' w'' : World} {i : Nat} {busy : List Nat}

/-! ### Threads with little ahead -/

/-- Of all threads only some that are busy may have more than ten turns ahead. -/
def Light (w : World) (busy : List Nat) : Prop :=
  ∀ j t, w.threads[j]? = some t → j ∈ busy ∨ t.effort ≤ 10

/-- Threads with little ahead have been begun; those that were there stand where they stood. -/
def BeginsLight (w w' : World) : Prop :=
  ∃ jobs : List Job, w'.threads = w.threads ++ jobs.map (Thread.mk · .start) ∧
    ∀ job ∈ jobs, job.effort ≤ 10

/-- What is begun in two steps has little ahead if each step begins only such threads. -/
theorem BeginsLight.trans (h : w.BeginsLight w') (h' : w'.BeginsLight w'') :
    w.BeginsLight w'' := by
  obtain ⟨jobs, hthreads, hle⟩ := h
  obtain ⟨jobs', hthreads', hle'⟩ := h'
  refine ⟨jobs ++ jobs', ?_, List.forall_mem_append.2 ⟨hle, hle'⟩⟩
  rw [hthreads', hthreads, List.map_append, List.append_assoc]

/-- Threads that are begun at a cost of ten turns have no more than ten turns ahead. -/
theorem Begins.light {n : Nat} (h : w.Begins n w') (hn : n ≤ 10) : w.BeginsLight w' := by
  obtain ⟨jobs, hthreads, -, hle⟩ := h
  refine ⟨jobs, hthreads, fun job hjob ↦ ?_⟩
  have hone : job.effort ≤ (jobs.map Job.effort).sum :=
    List.le_sum_of_mem (List.mem_map_of_mem hjob)
  omega

/-- A client that begins its questions begins only threads with little ahead, one question at a
time. -/
theorem beginsLight_clientFrom (w : World) (todo : List Query) (got : List Answer) :
    w.BeginsLight (w.clientFrom todo got).1 := by
  induction todo generalizing w got with
  | nil => exact (Begins.refl w 0).light (Nat.zero_le 10)
  | cons q todo ih =>
    obtain ⟨m, hbegins, hm, -⟩ := costs_beginQuery w q
    have hfirst := hbegins.light (by omega)
    rw [clientFrom]
    rcases hq : w.beginQuery q with ⟨w', a | e | p⟩ <;> rw [hq] at hfirst
    · exact hfirst.trans (ih w' (a :: got))
    · exact hfirst
    · exact hfirst

/-- So does a client of which a question has made progress. -/
theorem beginsLight_clientAfter {n : Nat} {go : World × Progress} (h : w.Costs n go)
    (hn : n ≤ 10) (q : Query) (todo : List Query) (got : List Answer) :
    w.BeginsLight (clientAfter q todo got go).1 := by
  obtain ⟨m, hbegins, hm, -⟩ := h
  have hfirst := hbegins.light (by omega)
  rcases go with ⟨w', a | e | p⟩
  · exact hfirst.trans (beginsLight_clientFrom w' todo (a :: got))
  · exact hfirst
  · exact hfirst

/-- The history's own threads have little ahead. -/
theorem effort_own_le (job : Job) (p : Point) (hjob : ∀ todo got, job ≠ .client todo got) :
    Thread.effort ⟨job, p⟩ ≤ 5 := by
  cases job with
  | client todo got => exact absurd rfl (hjob todo got)
  | repoCheck => cases p <;> simp [Thread.effort]
  | indexBuild => cases p <;> simp [Thread.effort]

/-- So does every thread that goes on. -/
theorem beginsLight_advance (h : w.Coherent) {t : Thread} (ht : w.threads[i]? = some t)
    (hready : w.isReady t.point = true) (outcome : Outcome) :
    w.BeginsLight (w.advance t outcome).1 := by
  rcases t with ⟨⟨todo, got⟩ | _ | _, p⟩
  · by_cases hstart : p = .start
    · subst hstart
      exact beginsLight_clientFrom w todo got
    · obtain ⟨q, rest, rfl⟩ := exists_cons_of_clientPoint (h.clients ht) hstart hready
      obtain ⟨go, n, hgo, hcosts, hn, -⟩ := exists_costs_advance hstart hready q rest got outcome
      rw [hgo]
      exact beginsLight_clientAfter hcosts (by omega) q rest got
  · obtain ⟨m, hbegins, hm, -⟩ := spends_check h ht hready outcome
    have hle := effort_own_le .repoCheck p (by simp)
    exact hbegins.light (by omega)
  · obtain ⟨m, hbegins, hm, -⟩ := spends_build h ht hready outcome
    have hle := effort_own_le .indexBuild p (by simp)
    exact hbegins.light (by omega)

/-- What goes on in a turn leaves little ahead of all but those that are busy. -/
theorem Light.resume (hlight : w.Light busy) (h : w.Coherent) (hgo : w.canGoOn i = true)
    (outcome : Outcome) : (w.resume i outcome).Light busy := by
  obtain ⟨u, hu, hready⟩ := exists_of_canGoOn hgo
  obtain ⟨hi, -⟩ := List.getElem?_eq_some_iff.1 hu
  obtain ⟨u', jobs, hgoes⟩ := exists_goes_resume h hu hready outcome
  intro j t ht
  by_cases hj : j = i
  · -- the thread that goes on has less ahead than before
    subst hj
    obtain rfl := Option.some.inj ((hgoes.getElem?_self hi).symm.trans ht)
    have hlt := hgoes.effort
    rcases hlight j u hu with hbusy | hle
    · exact Or.inl hbusy
    · exact Or.inr (by omega)
  · -- any other thread stands where it stood, or has just been begun
    obtain ⟨new, hthreads, hle⟩ := beginsLight_advance (h.move .rest) hu hready outcome
    rw [resume_eq_setThread hu] at ht
    dsimp only at ht
    rw [getElem?_setThread_of_ne hj, hthreads] at ht
    by_cases hlt : j < w.threads.length
    · rw [List.getElem?_append_left hlt] at ht
      exact hlight j t ht
    · rw [List.getElem?_append_right (Nat.le_of_not_lt hlt), List.getElem?_map] at ht
      obtain ⟨job, hjob, rfl⟩ := Option.map_eq_some_iff.1 ht
      exact Or.inr (hle job (List.mem_of_getElem? hjob))

/-- Once those that were busy have ended, nobody has much ahead. -/
theorem Light.of_ended (hlight : w.Light busy) (hended : ∀ j ∈ busy, (w.result? j).isSome) :
    w.Light [] := by
  intro j t ht
  refine Or.inr ?_
  rcases hlight j t ht with hbusy | hle
  · obtain ⟨r, hr⟩ := Option.isSome_iff_exists.1 (hended j hbusy)
    obtain ⟨job, hjob⟩ := result?_eq_some_iff.1 hr
    obtain rfl := Option.some.inj (ht.symm.trans hjob)
    exact Nat.zero_le 10
  · exact hle

/-- If nobody has much ahead, ten turns for each thread are enough. -/
theorem Light.effort_le (h : w.Light []) : w.effort ≤ 10 * w.threads.length := by
  have hle : ∀ n ∈ w.threads.map Thread.effort, n ≤ 10 := by
    intro n hn
    obtain ⟨t, ht, rfl⟩ := List.mem_map.1 hn
    obtain ⟨j, hj⟩ := List.mem_iff_getElem?.1 ht
    exact (h j t hj).resolve_left List.not_mem_nil
  have hsum := List.sum_le_card_nsmul _ 10 hle
  rw [List.length_map, smul_eq_mul, Nat.mul_comm] at hsum
  exact hsum

end World

namespace Turns

open World

variable {b : Outcomes} {script : Script} {t : Turns} {busy : List Nat}

/-! ### Many turns -/

/-- What each turn keeps is kept by as many as there are. -/
theorem nextN_induction {P : Turns → Prop} (hnext : ∀ t, P t → P (t.next script)) (n : Nat)
    (h : P t) : P (t.nextN script n) := by
  induction n generalizing t with
  | zero => exact h
  | succ n ih => exact ih (hnext t h)

/-- What each turn keeps is kept as long as a schedule is driven. -/
theorem drive_induction {P : Turns → Prop} (hnext : ∀ t, P t → P (t.next script))
    (clients : List Nat) (fuel : Nat) (h : P t) : P (t.drive script clients fuel).1 := by
  induction fuel generalizing t with
  | zero => exact h
  | succ fuel ih =>
    rw [drive]
    split
    · exact h
    · split
      · exact h
      · simp only
        split
        · exact hnext t h
        · exact ih (hnext t h)

/-- The queue is in order, and only those that are busy may have much ahead. -/
structure Steady (busy : List Nat) (t : Turns) : Prop where
  orderly : t.Orderly none
  light : t.world.Light busy

theorem Steady.mono {busy' : List Nat} (h : t.Steady busy) (hsub : busy ⊆ busy') :
    t.Steady busy' :=
  ⟨h.orderly, fun j u hu ↦ (h.light j u hu).imp_left fun hmem ↦ hsub hmem⟩

/-- A turn of the queue keeps it steady. -/
theorem Steady.next (hscript : script.IsExpected) (t : Turns) (h : t.Steady busy) :
    (t.next script).Steady busy := by
  rcases hready : t.ready with - | ⟨i, rest⟩
  · rwa [Turns.next, hready]
  · refine ⟨(h.orderly.next hready hscript).1, ?_⟩
    obtain ⟨hgo, -⟩ := h.orderly.take hready
    rw [Turns.next, hready]
    simp only
    rw [world_turn]
    exact h.light.resume h.orderly.coherent hgo _

/-! ### Beginning -/

/-- Whoever has been taken out of the queue can be put at its end. -/
theorem Orderly.put {i : Nat} (h : t.Orderly (some i)) (hgo : t.world.canGoOn i = true) :
    Orderly none { t with ready := t.ready ++ [i] } := by
  refine ⟨h.coherent, ?_, fun j ↦ ?_, h.nodup_waiting, h.mem_waiting⟩
  · refine List.nodup_append.2 ⟨h.nodup_ready, List.nodup_singleton i, ?_⟩
    rintro j hj k hk rfl
    obtain rfl := List.mem_singleton.1 hk
    exact ((h.mem_ready j).1 hj).2 rfl
  · rw [List.mem_append, List.mem_singleton, h.mem_ready]
    by_cases hj : j = i
    · subst hj
      simp [hgo]
    · simp [hj, Ne.symm hj]

/-- Whoever begins to ask is busy. -/
theorem Steady.ask (h : t.Steady busy) (todo : List Query) :
    Steady (t.world.threads.length :: busy) {
      t with
      world := t.world.after (.ask todo)
      ready := t.ready ++ [t.world.threads.length] } := by
  obtain ⟨hgo, hasking⟩ := h.orderly.ask todo
  refine ⟨hasking.put hgo, fun j u hu ↦ ?_⟩
  by_cases hj : j = t.world.threads.length
  · exact Or.inl (List.mem_cons.2 (Or.inl hj))
  · have hold := (getElem?_ask_of_ne t.world todo hj).symm.trans hu
    exact (h.light j u hold).imp_left (List.mem_cons_of_mem _)

/-- The clients of a schedule begin one after the other. -/
theorem world_beginClients (t : Turns) (clients : List (List Query)) :
    (t.beginClients clients).1.world = t.world.beginAll clients ∧
      (t.beginClients clients).2 = t.world.newcomers clients := by
  induction clients generalizing t with
  | nil => exact ⟨rfl, rfl⟩
  | cons todo clients ih =>
    obtain ⟨hworld, hclients⟩ := ih { t with
      world := t.world.after (.ask todo)
      ready := t.ready ++ [t.world.threads.length] }
    rw [newcomers_cons]
    exact ⟨hworld, congrArg _ hclients⟩

/-- Clients have been begun: they are busy, and there is fuel for them. -/
structure Begun (t : Turns) (clients : List (List Query)) (go : Turns × List Nat) : Prop where
  steady : ∀ busy, t.Steady busy → go.1.Steady (go.2 ++ busy)
  effort : go.1.world.effort + 16 * t.world.threads.length ≤
    t.world.effort + 16 * (clients.map List.length).sum + 16 * go.1.world.threads.length

/-- Clients that begin one after the other have been begun, each busy with its questions. -/
theorem begun_beginClients (t : Turns) (clients : List (List Query)) :
    t.Begun clients (t.beginClients clients) := by
  induction clients generalizing t with
  | nil =>
    refine ⟨fun _ h ↦ h, ?_⟩
    simp only [beginClients, List.map_nil, List.sum_nil]
    omega
  | cons todo clients ih =>
    set first : Turns := { t with
      world := t.world.after (.ask todo)
      ready := t.ready ++ [t.world.threads.length] }
    have hrest := ih first
    have hgo : t.beginClients (todo :: clients) = ((first.beginClients clients).1,
      t.world.threads.length :: (first.beginClients clients).2) := rfl
    rw [hgo]
    refine ⟨fun busy h ↦ ?_, ?_⟩
    · refine (hrest.steady _ (h.ask todo)).mono fun i hi ↦ ?_
      simp only [List.mem_append, List.mem_cons] at hi ⊢
      tauto
    -- a client comes with ten units for each question and one to end with
    · have hbegins : t.world.Begins (10 * todo.length + 1) first.world :=
        begins_spawn t.world (.client todo [])
      have hle := hbegins.effort_le
      have hlen : first.world.threads.length = t.world.threads.length + 1 := List.length_append
      have heffort := hrest.effort
      rw [List.map_cons, List.sum_cons]
      dsimp only
      omega

/-! ### Asking together -/

/-- Where a schedule stops that drives those who ask together. -/
def driven (script : Script) (t : Turns) (clients : List (List Query)) : Turns × Option Fault :=
  let (first, is) := t.beginClients clients
  first.drive script is (first.fuelFor ((clients.map List.length).foldl (· + ·) 0))

/-- Where everyone stands once those who have asked have had word of it. -/
def heard (script : Script) (t : Turns) (clients : List (List Query)) : Turns :=
  ((t.driven script clients).1.round script).round script

/-- The answers of a client that has ended. -/
def answersOf : Answer → List Answer
  | .all as => as
  | a => [a]

/-- Where no fault has stopped the schedule, everyone is told its answers. -/
theorem askTogether_of_driven {clients : List (List Query)}
    (h : (t.driven script clients).2 = none) :
    t.askTogether script clients = (t.heard script clients,
      .ok (((t.heard script clients).answers (t.beginClients clients).2).map answersOf)) := by
  rw [driven] at h
  simp only [askTogether, h]
  rfl

section Runs

variable (hscript : script.IsExpected) (hobeys : script.Obeys b) (t : Turns)
  (clients : List (List Query))
include hscript hobeys

/-- To drive a schedule is a run from where all clients have been begun. -/
theorem runsTo_driven :
    (t.world.beginAll clients).RunsTo b (t.driven script clients).1.world := by
  rw [← (world_beginClients t clients).1]
  exact runsTo_drive hscript hobeys _ _ _

theorem runsTo_heard :
    (t.driven script clients).1.world.RunsTo b (t.heard script clients).world :=
  (runsTo_round hscript hobeys _).trans (runsTo_round hscript hobeys _)

end Runs

/-- Nobody has much ahead in a schedule, and its history can be asked. -/
structure Quiet (b : Outcomes) (repo : String) (now : Int) (t : Turns) : Prop where
  steady : t.Steady []
  inUse : t.world.InUse b repo now

/-- A history that nobody has asked can be asked. -/
theorem quiet_fresh (b : Outcomes) (repo : String) (now : Int) :
    (fresh repo now).Quiet b (Path.absolute repo) now where
  steady := ⟨orderly_fresh repo now, fun j u hu ↦ by simp [fresh] at hu⟩
  inUse := inUse_fresh b repo now

/-- A note changes nothing of that. -/
theorem Quiet.note {repo : String} {now : Int} (h : t.Quiet b repo now) (level : Level)
    (message : String) : Quiet b repo now { t with world := t.world.note level message } where
  steady := ⟨⟨(h.inUse.note level message).coherent, h.steady.orderly.nodup_ready,
    h.steady.orderly.mem_ready, h.steady.orderly.nodup_waiting, h.steady.orderly.mem_waiting⟩,
    h.steady.light⟩
  inUse := h.inUse.note level message

section Together

variable {repo : String} {now : Int} (h : t.Quiet b repo now) (clients : List (List Query))
include h

variable (hscript : script.IsExpected)
include hscript

/-- There are turns enough for questions that are asked together. -/
theorem Quiet.stopped_driven :
    Stopped (t.beginClients clients).2 (t.driven script clients) := by
  have hbegun := begun_beginClients t clients
  have hsteady := hbegun.steady [] h.steady
  have hbefore := h.steady.light.effort_le
  have heffort := hbegun.effort
  have hsum : (clients.map List.length).foldl (· + ·) 0 = (clients.map List.length).sum :=
    List.sum_eq_foldl.symm
  refine hsteady.orderly.drive hscript _ ?_
  -- the fuel counts sixteen turns for a thread that was there, of which it has ten ahead at most
  rw [fuelFor, hsum]
  omega

variable (hobeys : script.Obeys b)
  (hfault : ∀ qs ∈ clients, ∀ q ∈ qs, ∀ e, ¬b.MayYield repo now q (.error e))
include hobeys hfault

/-- If no question can fail, everyone who has asked has ended when the schedule stops. -/
theorem Quiet.ended_driven :
    (t.driven script clients).2 = none ∧
      ∀ i ∈ (t.beginClients clients).2, ((t.driven script clients).1.world.result? i).isSome := by
  have hstopped := h.stopped_driven clients hscript
  have hasked := h.inUse.hasAsked (runsTo_driven hscript hobeys t clients)
  rw [← (world_beginClients t clients).2] at hasked
  have hnone : (t.driven script clients).2 = none := by
    refine Option.eq_none_iff_forall_ne_some.2 fun e he ↦ ?_
    obtain ⟨c, hc, hfailed⟩ := hstopped.failed e he
    obtain ⟨qs, hqs, u, hu, hclient⟩ := exists_mem_of_forall₂ hasked hc
    simp only [fault?] at hfailed
    split at hfailed
    · rename_i r hr
      obtain ⟨as, has, -⟩ := hclient.exists_all hu (hfault qs hqs) hr
      cases has
    · cases hfailed
  refine ⟨hnone, ?_⟩
  rcases hstopped.ended hnone with hdone | hstill
  · exact hdone
  · intro i hi
    obtain ⟨qs, -, u, hu, hclient⟩ := exists_mem_of_forall₂ hasked hi
    exact hstopped.orderly.coherent.isSome_result? hstill hu ⟨_, _, hclient⟩

/-- Those who have heard that everybody has ended can ask again. -/
theorem Quiet.heard : (t.heard script clients).Quiet b repo now := by
  obtain ⟨-, hended⟩ := h.ended_driven clients hscript hobeys hfault
  have hruns : t.world.RunsTo b (t.heard script clients).world :=
    ((runsTo_beginAll t.world clients).trans (runsTo_driven hscript hobeys t clients)).trans
      (runsTo_heard hscript hobeys t clients)
  have hnext : ∀ t : Turns, t.Steady [] → (t.next script).Steady [] := Steady.next hscript
  have hbegun := (begun_beginClients t clients).steady [] h.steady
  have hdriven := drive_induction (Steady.next hscript) (t.beginClients clients).2
    ((t.beginClients clients).1.fuelFor ((clients.map List.length).foldl (· + ·) 0)) hbegun
  rw [List.append_nil] at hdriven
  -- the clients are no longer busy, since all of them have ended
  have hquiet : (t.driven script clients).1.Steady [] :=
    ⟨hdriven.orderly, hdriven.light.of_ended hended⟩
  exact ⟨nextN_induction hnext _ (nextN_induction hnext _ hquiet), h.inUse.of_runsTo hruns⟩

/-- What those who ask together are told in the order of the queue is something that they may be
told. -/
theorem Quiet.mayTell_askTogether :
    t.world.MayTell b clients (t.askTogether script clients).1.world
      (t.askTogether script clients).2 := by
  obtain ⟨hnone, hended⟩ := h.ended_driven clients hscript hobeys hfault
  rw [(world_beginClients t clients).2] at hended
  have hdriven := runsTo_driven hscript hobeys t clients
  have hheard := runsTo_heard hscript hobeys t clients
  have hc := ((h.inUse.of_runsTo (runsTo_beginAll t.world clients)).of_runsTo hdriven).coherent
  have hasked := h.inUse.hasAsked (hdriven.trans hheard)
  rw [askTogether_of_driven hnone]
  refine .answers (hdriven.trans hheard) ?_
  rw [answers, List.map_map, (world_beginClients t clients).2, List.forall₂_map_right_iff,
    List.forall₂_same]
  intro i hi
  obtain ⟨r, hr⟩ := Option.isSome_iff_exists.1 (hended i hi)
  obtain ⟨qs, hqs, u, hu, hclient⟩ := exists_mem_of_forall₂ hasked hi
  have hlast := hheard.result?_eq hc hr
  obtain ⟨as, rfl, -⟩ := hclient.exists_all hu (hfault qs hqs) hlast
  simp only [Function.comp_apply, hlast, answersOf]

/-- **Questions that are asked together are answered.** If none of them can fail, each has an answer
that it may have, and everybody can ask again. -/
theorem Quiet.askTogether :
    (t.askTogether script clients).1.Quiet b repo now ∧
      ∃ answers, (t.askTogether script clients).2 = .ok answers ∧
        List.Forall₂ (List.Forall₂ fun q a ↦ b.MayYield repo now q (.ok a)) clients answers := by
  obtain ⟨hnone, -⟩ := h.ended_driven clients hscript hobeys hfault
  refine ⟨?_, (h.mayTell_askTogether clients hscript hobeys hfault).exists_answers h.inUse hfault⟩
  rw [askTogether_of_driven hnone]
  exact h.heard clients hscript hobeys hfault

end Together

end Turns

end RepoSurvey.History
