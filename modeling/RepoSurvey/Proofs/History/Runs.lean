import Mathlib.Data.List.Perm.Subperm
import RepoSurvey.History.Schedule
import RepoSurvey.Proofs.History.Turn

/-!
# What a history runs once

A run of a history is a list of events: someone begins to ask questions, or a thread goes on with
the outcome that its command has, if it runs one. Events come in any order, so a run stands for any
way in which threads take turns.

Every turn keeps a world coherent (`Turn.coherent`), so every run does (`Coherent.run`), and a
coherent world tells which commands are in flight:

* where the directory lies is asked by the check alone, and before it has been asked no other
  command is in flight (`Coherent.eq_of_showPrefix`);
* the whole log is read by the build that is pending alone (`Coherent.eq_of_fullLog`), and there is
  no such build once one has succeeded (`Coherent.fullLog_not_mem_inFlight`);
* where there is no repository nothing is in flight (`Coherent.issued_of_refused`).

The commands that have been begun are those in flight and those that have ended (`issued`); a run
forgets none of them (`Coherent.count_issued_le_run`). `run_commands_once` says which of them there
are after a run from the beginning.
-/

namespace RepoSurvey.History

namespace World

variable {w w' : World} {i : Nat} {outcome : Outcome}

/-! ### A turn keeps a world coherent -/

/-- The command that a client runs, if it runs one, keeps a world coherent. -/
theorem Coherent.called (h : w.Coherent) {todo : List Query} {got : List Answer} {p : Point}
    (hthread : w.threads[i]? = some ⟨.client todo got, p⟩) : (w.called i).Coherent := by
  rcases hc : w.nextCommand? i with - | c
  · rw [called_eq_self hc]
    exact h
  · obtain ⟨job, hjob⟩ := nextCommand?_eq_some_iff.1 hc
    obtain ⟨rfl, rfl⟩ := Thread.mk.inj (Option.some.inj (hthread.symm.trans hjob))
    obtain ⟨q, rest, rfl, hbelow, hclient⟩ := h.clients hthread
    rw [called_eq_call hc]
    refine h.call hbelow ?_
    rintro rfl
    exact hclient

/-- What the check finds out changes nothing for the threads that stand elsewhere. -/
theorem Coherent.fits_of_ne_check (h : w.Coherent) {p : Point} (hcheck : w.ChecksAt i p)
    (hw : w.Grows w') (hbuild : w'.build = w.build) (hindex : w'.index = w.index) {j : Nat}
    {t : Thread} (hj : j ≠ i) (ht : w.threads[j]? = some t) : w'.Fits j t := by
  have hfits := h.fits j t ht
  rcases t with ⟨_ | _ | _, q⟩
  · exact ClientPoint.mono hw hfits
  · exact absurd (h.check_unique j i q p ht hcheck) hj
  · refine BuildPoint.mono hw hfits (fun _ hpending ↦ ?_) fun _ hkept ↦ ?_
    · rwa [BuildPending, hbuild, hindex]
    · rwa [hbuild, hindex]

/-- A check that has found a repository leaves a coherent world in which this is known. -/
theorem Coherent.know (h : w.Coherent) (hthread : w.ChecksAt i (.command .showPrefix))
    (below : String) :
    ({ w.call .showPrefix with below := some below }.setThread i
      ⟨.repoCheck, .done (.ok .nothing)⟩).Coherent := by
  obtain ⟨-, -, hbelow, hrefused⟩ := h.checks hthread
  have hgrows : w.Grows { w.call .showPrefix with below := some below } :=
    ⟨rfl, rfl, fun _ ↦ id, fun _ ↦ id, fun _ ↦ rfl, id⟩
  -- the check itself does not fit while its outcome is known and it has not ended
  refine Settled.setThread ?_ hthread trivial
    (fun j t hj ht ↦ h.fits_of_ne_check hthread hgrows rfl rfl hj ht) rfl
  exact {
    check_unique := h.check_unique
    check_slot := h.check_slot
    build_slot := h.build_slot
    not_refused := fun _ ↦ hrefused
    calls_unknown := fun hnone ↦ absurd hnone (by simp)
    calls_refused := fun hr ↦ absurd (hr.symm.trans hrefused) (by simp)
    calls_known := fun _ ↦ by simp [World.call, h.calls_unknown hbelow hrefused] }

/-- A check that has found none leaves a coherent world in which that is known. -/
theorem Coherent.refuse (h : w.Coherent) (hthread : w.ChecksAt i (.command .showPrefix)) :
    ({ w.call .showPrefix with refused := true }.setThread i
      ⟨.repoCheck, .done (.error (.notARepository w.repo))⟩).Coherent := by
  obtain ⟨-, -, hbelow, hrefused⟩ := h.checks hthread
  have hgrows : w.Grows { w.call .showPrefix with refused := true } :=
    ⟨rfl, rfl, fun _ ↦ id, fun _ ↦ id, id, fun _ ↦ rfl⟩
  refine Settled.setThread ?_ hthread trivial
    (fun j t hj ht ↦ h.fits_of_ne_check hthread hgrows rfl rfl hj ht) ⟨rfl, rfl⟩
  exact {
    check_unique := h.check_unique
    check_slot := h.check_slot
    build_slot := h.build_slot
    not_refused := fun hknown ↦ by simp [World.call, hbelow] at hknown
    calls_unknown := fun _ hr ↦ absurd hr (by simp)
    calls_refused := fun _ ↦ by simp [World.call, h.calls_unknown hbelow hrefused]
    calls_known := fun hknown ↦ by simp [World.call, hbelow] at hknown }

/-- A build that has ended leaves a coherent world, whether it has read an index or not. -/
theorem Coherent.endBuild (h : w.Coherent) (houtcome : outcome.IsExpected)
    (hthread : w.BuildsAt i (.command .fullLog)) (hm : Moves (w.call .fullLog) w') :
    (w'.setThread i ⟨.indexBuild, .done (w.buildResult outcome)⟩).Coherent := by
  obtain ⟨-, -, hbelow⟩ := h.builds hthread
  have h' := hm.coherent (h.call hbelow (by simp))
  have hthread' : w'.BuildsAt i (.command .fullLog) := hm.getElem? hthread
  obtain ⟨-, hpending, hbelow'⟩ := h'.builds hthread'
  refine h'.setThread hthread' trivial ?_
  cases outcome with
  | ok log => exact ⟨⟨_, rfl⟩, fun _ ↦ hpending.1⟩
  | error fault =>
    have hfault : fault.isExpected = true := houtcome fault rfl
    exact Or.inr ⟨hbelow', hfault⟩

theorem getElem?_setThread_of_ne {j : Nat} {t : Thread} (hj : j ≠ i) :
    (w.setThread i t).threads[j]? = w.threads[j]? :=
  List.getElem?_set_ne hj.symm

namespace Turn

/-- **A turn keeps a world coherent.** There is one case for each thing that a thread may come to.
-/
theorem coherent (ht : Turn w i outcome w') (h : w.Coherent) (houtcome : outcome.IsExpected) :
    w'.Coherent := by
  cases ht with
  | stay hcommand hm => exact hm.coherent h
  | client hthread hgo =>
    obtain ⟨hm, todo, got, p, heq, hpoint⟩ := hgo
    have h' := hm.coherent (h.called hthread)
    have hthread' := hm.getElem? (w := w.called i) hthread
    rw [heq]
    exact h'.setThread hthread' trivial hpoint
  | beginCheck hthread hm =>
    have h' := hm.coherent h
    have hthread' := hm.getElem? hthread
    exact h'.setThread hthread' trivial ⟨rfl, h'.checks hthread'⟩
  | know hthread _ hm => exact (hm.coherent h).know (hm.getElem? hthread) _
  | refuse hthread _ hm => exact (hm.coherent h).refuse (hm.getElem? hthread)
  | build hthread hcommand hm hpoint =>
    exact (hm.coherent h).setThread (hm.getElem? hthread) trivial hpoint
  | endBuild hthread hm => exact h.endBuild houtcome hthread hm

/-- A turn runs the command that its thread is about to run, and no other. -/
theorem calls_eq (ht : Turn w i outcome w') : w'.calls = (w.nextCommand? i).toList ++ w.calls := by
  cases ht with
  | stay hcommand hm =>
    rw [hm.calls_eq, hcommand]
    rfl
  | client hthread hgo => exact hgo.1.calls_eq
  | beginCheck hthread hm =>
    have hcalls := hm.calls_eq
    rw [nextCommand?_eq_none hthread (by simp)]
    exact hcalls
  | know hthread _ hm | refuse hthread _ hm =>
    have hcalls := hm.calls_eq
    rw [nextCommand?_eq_some_iff.2 ⟨_, hthread⟩]
    exact congrArg (Command.showPrefix :: ·) hcalls
  | build hthread hcommand hm hpoint =>
    have hcalls := hm.calls_eq
    rw [hcommand]
    exact hcalls
  | endBuild hthread hm =>
    have hcalls := hm.calls_eq
    rw [nextCommand?_eq_some_iff.2 ⟨_, hthread⟩]
    exact hcalls

/-- Once it is known that there is no repository, this stays known. -/
theorem refused (ht : Turn w i outcome w') (hrefused : w.refused = true) : w'.refused = true := by
  cases ht with
  | stay hcommand hm => rw [hm.refused_eq, hrefused]
  | client hthread hgo => exact hgo.1.refused_eq.trans hrefused
  | beginCheck hthread hm => exact hm.refused_eq.trans hrefused
  | know hthread _ hm => exact hm.refused_eq.trans hrefused
  | refuse hthread _ hm => rfl
  | build hthread hcommand hm hpoint => exact hm.refused_eq.trans hrefused
  | endBuild hthread hm => exact hm.refused_eq.trans hrefused

/-- A turn leaves the threads where they are that do not go on. -/
theorem getElem?_of_ne (ht : Turn w i outcome w') {j : Nat} {t : Thread} (hj : j ≠ i)
    (hthread : w.threads[j]? = some t) : w'.threads[j]? = some t := by
  cases ht with
  | stay hcommand hm => exact hm.getElem? hthread
  | client hthread' hgo =>
    rw [getElem?_setThread_of_ne hj]
    exact hgo.1.getElem? (w := w.called i) hthread
  | beginCheck hthread' hm | know hthread' _ hm | refuse hthread' _ hm
  | build hthread' hcommand hm hpoint =>
    rw [getElem?_setThread_of_ne hj]
    exact hm.getElem? hthread
  | endBuild hthread' hm =>
    rw [getElem?_setThread_of_ne hj]
    exact hm.getElem? (w := w.call .fullLog) hthread

end Turn

/-- A thread that has ended stays as it is. -/
theorem getElem?_resume_of_done (h : w.Coherent) (houtcome : outcome.IsExpected) {j : Nat}
    {job : Job} {r : Except Fault Answer} (hdone : w.threads[j]? = some ⟨job, .done r⟩) :
    (w.resume i outcome).threads[j]? = some ⟨job, .done r⟩ := by
  by_cases hj : j = i
  · subst hj
    rw [resume_eq_setThread hdone]
    exact (getElem?_setThread hdone j).trans (if_pos rfl)
  · exact (turn_resume h houtcome i).getElem?_of_ne hj hdone

/-! ### Commands in flight -/

/-- The threads that run a command when they go on. -/
def runners (w : World) (c : Command) : List Nat :=
  (List.range w.threads.length).filter fun i ↦ w.nextCommand? i == some c

/-- The commands in flight: those whose threads go on when they have ended. -/
def inFlight (w : World) : List Command :=
  (List.range w.threads.length).filterMap w.nextCommand?

/-- The commands that have been begun: those in flight, and those that have ended. -/
def issued (w : World) : List Command := w.inFlight ++ w.calls

theorem mem_range_of_nextCommand? {c : Command} (hi : w.nextCommand? i = some c) :
    i ∈ List.range w.threads.length := by
  obtain ⟨job, hjob⟩ := nextCommand?_eq_some_iff.1 hi
  obtain ⟨hlt, -⟩ := List.getElem?_eq_some_iff.1 hjob
  exact List.mem_range.2 hlt

theorem mem_runners_iff {c : Command} : i ∈ w.runners c ↔ w.nextCommand? i = some c := by
  rw [runners, List.mem_filter, beq_iff_eq]
  exact and_iff_right_of_imp mem_range_of_nextCommand?

theorem mem_inFlight_iff {c : Command} : c ∈ w.inFlight ↔ ∃ i, w.nextCommand? i = some c := by
  rw [inFlight, List.mem_filterMap]
  exact exists_congr fun i ↦ and_iff_right_of_imp mem_range_of_nextCommand?

theorem nodup_runners (w : World) (c : Command) : (w.runners c).Nodup := List.nodup_range.filter _

/-- A command is in flight as often as there are threads that run it. -/
theorem count_inFlight (w : World) (c : Command) : w.inFlight.count c = (w.runners c).length := by
  rw [inFlight, List.count_filterMap, List.countP_eq_length_filter, runners]

/-- It is in flight no more often than there are threads that may run it. -/
theorem count_inFlight_le_length {c : Command} {is : List Nat}
    (h : ∀ i, w.nextCommand? i = some c → i ∈ is) : w.inFlight.count c ≤ is.length := by
  have hsubset : w.runners c ⊆ is := fun i hi ↦ h i (mem_runners_iff.1 hi)
  rw [count_inFlight]
  exact (List.Nodup.subperm (w.nodup_runners c) hsubset).length_le

/-- If only one thread can run it, it is in flight once. -/
theorem count_inFlight_le_one {c : Command}
    (h : ∀ i j, w.nextCommand? i = some c → w.nextCommand? j = some c → i = j) :
    w.inFlight.count c ≤ 1 := by
  by_cases hc : c ∈ w.inFlight
  · obtain ⟨i, hi⟩ := mem_inFlight_iff.1 hc
    show w.inFlight.count c ≤ [i].length
    exact count_inFlight_le_length fun j hj ↦ List.mem_singleton.2 (h j i hj hi)
  · rw [List.count_eq_zero.2 hc]
    exact Nat.zero_le 1

/-- No move forgets a command that has been begun. -/
theorem Move.count_issued_le (hm : Move w w') (c : Command) :
    w.issued.count c ≤ w'.issued.count c := by
  have hflight : w.inFlight.count c ≤ w'.inFlight.count c := by
    rw [count_inFlight w' c]
    refine count_inFlight_le_length fun i hi ↦ ?_
    obtain ⟨job, hjob⟩ := nextCommand?_eq_some_iff.1 hi
    exact mem_runners_iff.2 (nextCommand?_eq_some_iff.2 ⟨job, hm.getElem? hjob⟩)
  rw [issued, issued, List.count_append, List.count_append, hm.calls_eq]
  exact Nat.add_le_add_right hflight _

/-- A turn forgets no command that has been begun: the one that ends has been run. -/
theorem Turn.count_issued_le (ht : Turn w i outcome w') (c : Command) :
    w.issued.count c ≤ w'.issued.count c := by
  have hothers : ∀ j, w.nextCommand? j = some c → j ≠ i → j ∈ w'.runners c := by
    intro j hj hne
    obtain ⟨job, hjob⟩ := nextCommand?_eq_some_iff.1 hj
    exact mem_runners_iff.2 (nextCommand?_eq_some_iff.2 ⟨job, ht.getElem?_of_ne hne hjob⟩)
  rw [issued, issued, List.count_append, List.count_append, ht.calls_eq, List.count_append,
    count_inFlight w' c]
  by_cases hi : w.nextCommand? i = some c
  · -- what is no longer in flight has joined the commands that have ended
    have hflight : w.inFlight.count c ≤ (i :: w'.runners c).length := by
      refine count_inFlight_le_length fun j hj ↦ ?_
      by_cases hne : j = i
      · exact List.mem_cons.2 (Or.inl hne)
      · exact List.mem_cons_of_mem i (hothers j hj hne)
    rw [List.length_cons] at hflight
    rw [hi, Option.toList_some, List.count_singleton_self]
    omega
  · have hflight : w.inFlight.count c ≤ (w'.runners c).length := by
      refine count_inFlight_le_length fun j hj ↦ hothers j hj ?_
      rintro rfl
      exact hi hj
    omega

namespace Coherent

/-- Who runs a command: the pending check, the pending build, or a client; the latter two know that
there is a repository. -/
theorem nextCommand (h : w.Coherent) {c : Command} (hi : w.nextCommand? i = some c) :
    (c = .showPrefix ∧ w.ChecksAt i (.command c) ∧ w.CheckPending i) ∨
      (c = .fullLog ∧ w.BuildsAt i (.command c) ∧ w.BuildPending i ∧ w.below.isSome) ∨
      (IsClientCommand c ∧ w.below.isSome) := by
  obtain ⟨_ | _ | _, hjob⟩ := nextCommand?_eq_some_iff.1 hi
  · obtain ⟨q, rest, rfl, hbelow, hc⟩ := h.clients hjob
    exact Or.inr (Or.inr ⟨hc, hbelow⟩)
  · obtain ⟨rfl, hpending⟩ := h.checks hjob
    exact Or.inl ⟨rfl, hjob, hpending⟩
  · obtain ⟨rfl, hpending, hbelow⟩ := h.builds hjob
    exact Or.inr (Or.inl ⟨rfl, hjob, hpending, hbelow⟩)

/-- Only the pending check looks for a repository. -/
theorem checksAt_of_showPrefix (h : w.Coherent) (hi : w.nextCommand? i = some .showPrefix) :
    w.ChecksAt i (.command .showPrefix) ∧ w.CheckPending i := by
  rcases h.nextCommand hi with ⟨-, hcheck⟩ | ⟨heq, -⟩ | ⟨hclient, -⟩
  · exact hcheck
  · simp at heq
  · exact hclient.elim

/-- Only the pending build reads the whole log. -/
theorem buildsAt_of_fullLog (h : w.Coherent) (hi : w.nextCommand? i = some .fullLog) :
    w.BuildsAt i (.command .fullLog) ∧ w.BuildPending i := by
  rcases h.nextCommand hi with ⟨heq, -⟩ | ⟨-, hbuild, hpending, -⟩ | ⟨hclient, -⟩
  · simp at heq
  · exact ⟨hbuild, hpending⟩
  · exact hclient.elim

/-- While the check is in flight, no other command is. -/
theorem eq_of_showPrefix (h : w.Coherent) (hi : w.nextCommand? i = some .showPrefix) {j : Nat}
    {c : Command} (hj : w.nextCommand? j = some c) : j = i := by
  obtain ⟨hcheck, -, hbelow, -⟩ := h.checksAt_of_showPrefix hi
  rcases h.nextCommand hj with ⟨rfl, hcheck', -⟩ | ⟨-, -, -, hknown⟩ | ⟨-, hknown⟩
  · exact h.check_unique j i _ _ hcheck' hcheck
  · simp [hbelow] at hknown
  · simp [hbelow] at hknown

/-- No two threads read the whole log at the same time. -/
theorem eq_of_fullLog (h : w.Coherent) (hi : w.nextCommand? i = some .fullLog) {j : Nat}
    (hj : w.nextCommand? j = some .fullLog) : j = i := by
  obtain ⟨-, hslot, -⟩ := h.buildsAt_of_fullLog hi
  obtain ⟨-, hslot', -⟩ := h.buildsAt_of_fullLog hj
  exact Option.some.inj (hslot'.symm.trans hslot)

/-- The check has been begun once at most: it is in flight, or has ended, but not both. -/
theorem count_showPrefix_issued_le_one (h : w.Coherent) : w.issued.count .showPrefix ≤ 1 := by
  rw [issued, List.count_append]
  by_cases hflight : .showPrefix ∈ w.inFlight
  · -- nothing has been run before the check has ended
    obtain ⟨i, hi⟩ := mem_inFlight_iff.1 hflight
    obtain ⟨-, -, hbelow, hrefused⟩ := h.checksAt_of_showPrefix hi
    rw [h.calls_unknown hbelow hrefused, List.count_nil]
    exact count_inFlight_le_one fun j k hj hk ↦
      (h.eq_of_showPrefix hi hj).trans (h.eq_of_showPrefix hi hk).symm
  · rw [List.count_eq_zero.2 hflight, Nat.zero_add]
    by_cases hbelow : w.below.isSome
    · exact Nat.le_of_eq (h.calls_known hbelow)
    by_cases hrefused : w.refused = true
    · rw [h.calls_refused hrefused]
      exact Nat.le_refl 1
    · rw [h.calls_unknown (by simpa using hbelow) (by simpa using hrefused)]
      exact Nat.zero_le 1

theorem count_fullLog_inFlight_le_one (h : w.Coherent) : w.inFlight.count .fullLog ≤ 1 :=
  count_inFlight_le_one fun _ _ hi hj ↦ h.eq_of_fullLog hj hi

/-- Where there is no repository, nothing but the check has been begun. -/
theorem issued_of_refused (h : w.Coherent) (hrefused : w.refused = true) :
    w.issued = [.showPrefix] := by
  have hflight : w.inFlight = [] := by
    -- whoever runs a command has yet to learn of a repository or knows one
    refine List.eq_nil_iff_forall_not_mem.2 fun c hc ↦ ?_
    obtain ⟨i, hi⟩ := mem_inFlight_iff.1 hc
    rcases h.nextCommand hi with ⟨-, -, -, -, hnot⟩ | ⟨-, -, -, hknown⟩ | ⟨-, hknown⟩
    · simp [hrefused] at hnot
    · simp [h.not_refused hknown] at hrefused
    · simp [h.not_refused hknown] at hrefused
  rw [issued, hflight, h.calls_refused hrefused]
  rfl

/-- Where a build has succeeded, none reads the log again. -/
theorem fullLog_not_mem_inFlight (h : w.Coherent) {t : Nat} {a : Answer}
    (hdone : w.BuildsAt t (.done (.ok a))) : .fullLog ∉ w.inFlight := by
  intro hflight
  obtain ⟨i, hi⟩ := mem_inFlight_iff.1 hflight
  obtain ⟨hbuild, hpending⟩ := h.buildsAt_of_fullLog hi
  exact not_buildPending_of_done hdone ((h.builds hdone).2 hpending.2) hbuild (by simp) hpending

end Coherent

end World

/-! ### Runs -/

/-- What happens to a history. -/
inductive Event where
  /-- Someone begins to ask questions, one after the other. -/
  | ask (todo : List Query)
  /-- A thread goes on, with the outcome of the command that it runs, if it runs one. -/
  | goOn (thread : Nat) (outcome : Outcome)

/-- If a command has ended, it has done so in a way that is expected. -/
def Event.IsExpected : Event → Prop
  | .ask _ => True
  | .goOn _ outcome => outcome.IsExpected

namespace World

variable {w : World} {i : Nat} {outcome : Outcome} {e : Event}

/-- The world after an event. -/
def after (w : World) : Event → World
  | .ask todo => (w.spawn (.client todo [])).1
  | .goOn i outcome => w.resume i outcome

/-- The world after a number of events. -/
def run (w : World) (events : List Event) : World := events.foldl after w

theorem run_append (w : World) (events later : List Event) :
    w.run (events ++ later) = (w.run events).run later :=
  List.foldl_append

/-- A history that nobody has asked is coherent. -/
theorem coherent_fresh (repo : String) (now : Int) : (fresh repo now).world.Coherent where
  check_unique i j p q hp _ := by simp [fresh, ChecksAt] at hp
  check_slot t ht := by simp [fresh] at ht
  build_slot t ht := by simp [fresh] at ht
  not_refused _ := rfl
  calls_unknown _ _ := rfl
  calls_refused hrefused := by simp [fresh] at hrefused
  calls_known hbelow := by simp [fresh] at hbelow
  fits i t ht := by simp [fresh] at ht

namespace Coherent

/-- Every event keeps a world coherent, if its command ends as expected. -/
theorem after (h : w.Coherent) (he : e.IsExpected) : (w.after e).Coherent := by
  cases e with
  | ask todo => exact h.move (.ask todo)
  | goOn i outcome => exact (turn_resume h he i).coherent h he

/-- What every event keeps, a run keeps. -/
theorem run_induction {P : World → Prop}
    (hP : ∀ (w : World) (e : Event), w.Coherent → e.IsExpected → P w → P (w.after e))
    (h : w.Coherent) (hw : P w) {events : List Event} (hevents : ∀ e ∈ events, e.IsExpected) :
    (w.run events).Coherent ∧ P (w.run events) := by
  induction events generalizing w with
  | nil => exact ⟨h, hw⟩
  | cons e events ih =>
    have he : e.IsExpected := hevents e List.mem_cons_self
    exact ih (h.after he) (hP w e h he hw) fun e' he' ↦ hevents e' (List.mem_cons_of_mem _ he')

theorem run (h : w.Coherent) {events : List Event} (hevents : ∀ e ∈ events, e.IsExpected) :
    (w.run events).Coherent :=
  (run_induction (P := fun _ ↦ True) (fun _ _ _ _ ↦ id) h trivial hevents).1

/-- A run forgets no command that has been begun. -/
theorem count_issued_le_run (h : w.Coherent) {events : List Event}
    (hevents : ∀ e ∈ events, e.IsExpected) (c : Command) :
    w.issued.count c ≤ (w.run events).issued.count c := by
  refine (run_induction (P := fun w' ↦ w.issued.count c ≤ w'.issued.count c)
    (fun w' e h' he hle ↦ Nat.le_trans hle ?_) h (Nat.le_refl _) hevents).2
  cases e with
  | ask todo => exact (Move.ask todo).count_issued_le c
  | goOn i outcome => exact (turn_resume h' he i).count_issued_le c

/-- A history that knows of no repository begins no command. -/
theorem issued_run_of_refused (h : w.Coherent) (hrefused : w.refused = true)
    {events : List Event} (hevents : ∀ e ∈ events, e.IsExpected) :
    (w.run events).issued = [.showPrefix] := by
  have hrun : (w.run events).Coherent ∧ (w.run events).refused = true := by
    refine run_induction (P := fun w ↦ w.refused = true) (fun w e h he hrefused ↦ ?_) h hrefused
      hevents
    cases e with
    | ask todo => exact hrefused
    | goOn i outcome => exact (turn_resume h he i).refused hrefused
  exact hrun.1.issued_of_refused hrun.2

/-- A history in which a build has succeeded does not read the whole log again. -/
theorem count_fullLog_run (h : w.Coherent) {t : Nat} {a : Answer}
    (hdone : w.BuildsAt t (.done (.ok a))) {events : List Event}
    (hevents : ∀ e ∈ events, e.IsExpected) :
    (w.run events).issued.count .fullLog = w.calls.count .fullLog := by
  have hrun : (w.run events).Coherent ∧ (w.run events).BuildsAt t (.done (.ok a)) ∧
      (w.run events).calls.count .fullLog = w.calls.count .fullLog := by
    -- the count alone is not kept: it takes the ended build to see that none is in flight
    refine run_induction (P := fun w' ↦ w'.BuildsAt t (.done (.ok a)) ∧
      w'.calls.count .fullLog = w.calls.count .fullLog) ?_ h ⟨hdone, rfl⟩ hevents
    rintro w' e h' he ⟨hdone', hcount⟩
    cases e with
    | ask todo => exact ⟨(Move.ask todo).getElem? hdone', hcount⟩
    | goOn i outcome =>
      have hturn := turn_resume h' he i
      refine ⟨getElem?_resume_of_done h' he hdone', ?_⟩
      have hcommand : .fullLog ∉ (w'.nextCommand? i).toList := by
        intro hmem
        have hi := Option.mem_toList.1 hmem
        exact h'.fullLog_not_mem_inFlight hdone' (mem_inFlight_iff.2 ⟨i, hi⟩)
      show (w'.resume i outcome).calls.count .fullLog = w.calls.count .fullLog
      rw [hturn.calls_eq, List.count_append, List.count_eq_zero.2 hcommand, Nat.zero_add, hcount]
  obtain ⟨h', hdone', hcount⟩ := hrun
  rw [issued, List.count_append, List.count_eq_zero.2 (h'.fullLog_not_mem_inFlight hdone'),
    Nat.zero_add, hcount]

/-- When the check fails, it is known that there is no repository. -/
theorem refused_resume (h : w.Coherent) {fault : CommandFault} (hfault : fault.isExpected = true)
    (hi : w.nextCommand? i = some .showPrefix) : (w.resume i (.error fault)).refused = true := by
  obtain ⟨hthread, -⟩ := h.checksAt_of_showPrefix hi
  rw [resume_eq_setThread hthread]
  simp only [advance, endCheck, hfault, if_true]
  rfl

/-- When a full log has been read, the build that read it has succeeded. -/
theorem buildsAt_resume (h : w.Coherent) {log : String}
    (hi : w.nextCommand? i = some .fullLog) :
    (w.resume i (.ok log)).BuildsAt i (.done (.ok (.index (parseLog (w.below.getD "") log)))) := by
  obtain ⟨hthread, -⟩ := h.buildsAt_of_fullLog hi
  obtain ⟨hmoves, hresult⟩ := endBuild_moves (({ w with begun := [] } : World).call .fullLog)
    (.ok log)
  rw [resume_eq_setThread hthread]
  simp only [advance, hresult]
  rw [BuildsAt, getElem?_setThread (hmoves.getElem? hthread), if_pos rfl]
  rfl

/-- Once the check has failed, nothing else is ever begun. -/
theorem issued_run_of_failed (h : w.Coherent) (hi : w.nextCommand? i = some .showPrefix)
    {fault : CommandFault} {later : List Event}
    (hevents : ∀ e ∈ .goOn i (.error fault) :: later, e.IsExpected) :
    (w.run (.goOn i (.error fault) :: later)).issued = [.showPrefix] := by
  obtain ⟨hgoOn, hlater⟩ := List.forall_mem_cons.1 hevents
  have hrefused := h.refused_resume (hgoOn fault rfl) hi
  exact (h.after hgoOn).issued_run_of_refused hrefused hlater

/-- Once a full log has been read, none is ever begun. -/
theorem count_fullLog_run_of_read (h : w.Coherent) (hi : w.nextCommand? i = some .fullLog)
    {log : String} {later : List Event}
    (hevents : ∀ e ∈ .goOn i (.ok log) :: later, e.IsExpected) :
    (w.run (.goOn i (.ok log) :: later)).issued.count .fullLog = w.issued.count .fullLog := by
  obtain ⟨hgoOn, hlater⟩ := List.forall_mem_cons.1 hevents
  have hone : w.inFlight.count .fullLog = 1 := by
    refine Nat.le_antisymm h.count_fullLog_inFlight_le_one ?_
    exact List.count_pos_iff.2 (mem_inFlight_iff.2 ⟨i, hi⟩)
  have hcalls : (w.resume i (.ok log)).calls = .fullLog :: w.calls := by
    rw [(turn_resume h hgoOn i).calls_eq, hi]
    rfl
  calc (w.run (.goOn i (.ok log) :: later)).issued.count .fullLog
      = (w.resume i (.ok log)).calls.count .fullLog :=
        (h.after hgoOn).count_fullLog_run (h.buildsAt_resume hi) hlater
    _ = w.calls.count .fullLog + 1 := by rw [hcalls, List.count_cons_self]
    _ = w.issued.count .fullLog := by rw [issued, List.count_append, hone, Nat.add_comm]

end Coherent

/-- However threads take turns, the check is begun at most once, and nothing is begun after it has
failed; never are two full logs in flight, and none is begun after one has been read. -/
theorem run_commands_once (repo : String) (now : Int) (events : List Event)
    (hevents : ∀ e ∈ events, e.IsExpected) :
    let start := (fresh repo now).world
    (start.run events).issued.count .showPrefix ≤ 1 ∧
    (start.run events).inFlight.count .fullLog ≤ 1 ∧
    (∀ before i fault later, events = before ++ .goOn i (.error fault) :: later →
      (start.run before).nextCommand? i = some .showPrefix →
        (start.run events).issued = [.showPrefix]) ∧
    (∀ before i log later, events = before ++ .goOn i (.ok log) :: later →
      (start.run before).nextCommand? i = some .fullLog →
        (start.run events).issued.count .fullLog = (start.run before).issued.count .fullLog) := by
  intro start
  have hstart : start.Coherent := coherent_fresh repo now
  have hrun := hstart.run hevents
  refine ⟨hrun.count_showPrefix_issued_le_one, hrun.count_fullLog_inFlight_le_one, ?_, ?_⟩
  · rintro before i fault later rfl hi
    obtain ⟨hbefore, hlater⟩ := List.forall_mem_append.1 hevents
    rw [run_append]
    exact (hstart.run hbefore).issued_run_of_failed hi hlater
  · rintro before i log later rfl hi
    obtain ⟨hbefore, hlater⟩ := List.forall_mem_append.1 hevents
    rw [run_append]
    exact (hstart.run hbefore).count_fullLog_run_of_read hi hlater

/-- Two clients ask for recent changes and wait for a build that fails. One of them is told so,
and a third client has the log read again. -/
def retryEvents : List Event :=
  [.ask [.recent (.whole 1)], .ask [.recent (.whole 1)], .goOn 0 (.ok ""), .goOn 1 (.ok ""),
    .goOn 2 (.ok ""), .goOn 3 (.ok ""), .goOn 3 (.ok "\n"), .goOn 2 (.ok ""),
    .goOn 2 (.error (.exit 128 "")), .goOn 0 (.ok ""), .ask [.recent (.whole 1)], .goOn 4 (.ok ""),
    .goOn 5 (.ok "")]

/-- The client that has been waiting since the failed build goes on at last, and someone else asks
for recent changes. -/
def lateEvents : List Event :=
  [.goOn 1 (.ok ""), .goOn 4 (.ok ""), .ask [.recent (.whole 1)], .goOn 6 (.ok "")]

/-- After a build that has failed the log is read again, for everyone who asks then. -/
theorem run_commands_once_of_retry :
    let start := (fresh "/srv/app" 63900000000000000).world
    let events := retryEvents ++ .goOn 5 (.ok "") :: lateEvents
    (∀ e ∈ events, e.IsExpected) ∧ (start.run retryEvents).nextCommand? 5 = some .fullLog ∧
      (start.run events).issued.count .fullLog = 2 := by
  intro start events
  have hevents : ∀ e ∈ events, e.IsExpected := by
    simp [events, retryEvents, lateEvents, Event.IsExpected, Outcome.IsExpected,
      CommandFault.isExpected]
  have hcommand : (start.run retryEvents).nextCommand? 5 = some .fullLog := by decide +kernel
  have hread := (run_commands_once "/srv/app" 63900000000000000 events hevents).2.2.2
    retryEvents 5 "" lateEvents rfl hcommand
  have htwice : (start.run retryEvents).issued.count .fullLog = 2 := by decide +kernel
  exact ⟨hevents, hcommand, hread.trans htwice⟩

end World

end RepoSurvey.History
