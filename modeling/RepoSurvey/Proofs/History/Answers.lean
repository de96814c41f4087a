import RepoSurvey.Proofs.History.Sources

/-!
# Questions are answered

A run obeys `Outcomes` if its commands have outcomes that they may have (`World.Obeys`). Such a run
keeps a world founded (`Obeys.founded`), and a client that is asked questions in its course has
answers that they may have, at every later moment (`Obeys.exists_hasAsked`).

So it only remains to be seen which answers a question may have, given what is known of the
outcomes. Whatever the commands do, an answer is of the kind that is asked for, and the only faults
are that there is no repository, told to those who ask just that, and that there is no such date
(`Outcomes.MayYield.fits`, `Outcomes.MayYield.fault`). Where the check fails, all answers are the
ones for a directory without a history (`Outcomes.MayYield.eq_default`). With the turns that a run
takes this is `questions_end_in_answers`.
-/

namespace RepoSurvey.History

/-! ### Runs that obey outcomes -/

/-- If a command has ended, it has an outcome that it may have. -/
def Event.Obeys (b : Outcomes) (w : World) : Event → Prop
  | .ask _ => True
  | .goOn i outcome => ∀ c, w.nextCommand? i = some c → b c outcome

namespace World

variable {b : Outcomes} {w w' : World} {i : Nat} {outcome : Outcome} {qs : List Query}

/-- The commands of a run have outcomes that they may have. -/
def Obeys (b : Outcomes) (w : World) : List Event → Prop
  | [] => True
  | e :: events => e.Obeys b w ∧ (w.after e).Obeys b events

instance [∀ c outcome, Decidable (b c outcome)] (w : World) (e : Event) :
    Decidable (e.Obeys b w) :=
  match e with
  | .ask _ => .isTrue trivial
  | .goOn i outcome => decidable_of_iff (∀ c ∈ (w.nextCommand? i).toList, b c outcome)
      (by simp [Event.Obeys])

/-- Whether a run obeys outcomes is found out by running it. -/
def decidableObeys [∀ c outcome, Decidable (b c outcome)] :
    (w : World) → (events : List Event) → Decidable (w.Obeys b events)
  | _, [] => .isTrue trivial
  | w, e :: events =>
    haveI := decidableObeys (w.after e) events
    inferInstanceAs (Decidable (e.Obeys b w ∧ (w.after e).Obeys b events))

instance [∀ c outcome, Decidable (b c outcome)] (w : World) (events : List Event) :
    Decidable (w.Obeys b events) := decidableObeys w events

/-- A run obeys outcomes if its front does, and what follows does so in the world after that. -/
theorem obeys_append {events later : List Event} :
    w.Obeys b (events ++ later) ↔ w.Obeys b events ∧ (w.run events).Obeys b later := by
  induction events generalizing w with
  | nil => exact (and_iff_right trivial).symm
  | cons e events ih => exact (and_congr_right fun _ ↦ ih).trans and_assoc.symm

theorem obeys_true (w : World) (events : List Event) : w.Obeys (fun _ _ ↦ True) events := by
  induction events generalizing w with
  | nil => exact trivial
  | cons e events ih =>
    refine ⟨?_, ih _⟩
    cases e with
    | ask => exact trivial
    | goOn => exact fun _ _ ↦ trivial

/-- No turn changes where the directory is or what time it is. -/
theorem Turn.repo_now_eq (ht : Turn w i outcome w') : w'.repo = w.repo ∧ w'.now = w.now := by
  cases ht with
  | stay _ hm => exact ⟨hm.grows.repo, hm.grows.now⟩
  | client _ hgo => exact ⟨hgo.1.grows.repo, hgo.1.grows.now⟩
  | beginCheck _ hm | know _ _ hm | refuse _ _ hm | build _ _ hm =>
    exact ⟨hm.grows.repo, hm.grows.now⟩
  | endBuild _ hm => exact ⟨hm.grows.repo, hm.grows.now⟩

/-- A history that nobody has asked knows nothing, so all of it is founded. -/
theorem founded_fresh (b : Outcomes) (repo : String) (now : Int) :
    (fresh repo now).world.Founded b where
  below below hbelow := by simp [fresh] at hbelow
  refused hrefused := by simp [fresh] at hrefused
  index x hx := by simp [fresh] at hx
  threads t ht := by simp [fresh] at ht
  told key cs hlookup := by simp [fresh] at hlookup

/-- An event with outcomes that commands may have keeps a world founded. -/
theorem founded_after (h : w.Founded b) (hc : w.Coherent) {e : Event} (he : e.IsExpected)
    (hb : e.Obeys b w) : (w.after e).Founded b := by
  cases e with
  | ask todo => exact h.moves (.single (.ask todo)) rfl
  | goOn i outcome => exact founded_resume h hc he hb

/-- A client that was asked questions is still there after an event, with answers that they may
have. -/
theorem hasAsked_after (h : w.Founded b) (hc : w.Coherent) {e : Event} (he : e.IsExpected)
    (hb : e.Obeys b w) {t : Thread} (ht : w.threads[i]? = some t)
    (hqs : HasAsked b w.repo w.now qs t) :
    ∃ t', (w.after e).threads[i]? = some t' ∧
      HasAsked b (w.after e).repo (w.after e).now qs t' := by
  cases e with
  | ask todo => exact ⟨t, (Move.ask todo).getElem? ht, hqs⟩
  | goOn j outcome =>
    obtain ⟨hrepo, hnow⟩ := (turn_resume hc he j).repo_now_eq
    show ∃ t', (w.resume j outcome).threads[i]? = some t' ∧
      HasAsked b (w.resume j outcome).repo (w.resume j outcome).now qs t'
    rw [hrepo, hnow]
    exact hasAsked_resume h hc he hb ht hqs

/-- A run that obeys outcomes keeps a world founded. -/
theorem Obeys.founded {events : List Event} (hobeys : w.Obeys b events) (h : w.Founded b)
    (hc : w.Coherent) (hevents : ∀ e ∈ events, e.IsExpected) : (w.run events).Founded b := by
  induction events generalizing w with
  | nil => exact h
  | cons e events ih =>
    obtain ⟨he, hevents⟩ := List.forall_mem_cons.1 hevents
    exact ih hobeys.2 (founded_after h hc he hobeys.1) (hc.after he) hevents

/-- In a run that obeys outcomes a client goes on with its questions, and has answers that they may
have. -/
theorem Obeys.exists_hasAsked {events : List Event} (hobeys : w.Obeys b events)
    (h : w.Founded b) (hc : w.Coherent) (hevents : ∀ e ∈ events, e.IsExpected) {t : Thread}
    (ht : w.threads[i]? = some t) (hqs : HasAsked b w.repo w.now qs t) :
    ∃ t', (w.run events).threads[i]? = some t' ∧
      HasAsked b (w.run events).repo (w.run events).now qs t' := by
  induction events generalizing w t with
  | nil => exact ⟨t, ht, hqs⟩
  | cons e events ih =>
    obtain ⟨he, hevents⟩ := List.forall_mem_cons.1 hevents
    obtain ⟨t', ht', hqs'⟩ := hasAsked_after h hc he hobeys.1 ht hqs
    exact ih hobeys.2 (founded_after h hc he hobeys.1) (hc.after he) hevents ht' hqs'

/-- No run changes where the directory is or what time it is. -/
theorem run_repo_now (hc : w.Coherent) {events : List Event}
    (hevents : ∀ e ∈ events, e.IsExpected) :
    (w.run events).repo = w.repo ∧ (w.run events).now = w.now := by
  refine (hc.run_induction (P := fun w' ↦ w'.repo = w.repo ∧ w'.now = w.now) ?_ ⟨rfl, rfl⟩
    hevents).2
  rintro w' e hc' he ⟨hrepo, hnow⟩
  cases e with
  | ask todo => exact ⟨hrepo, hnow⟩
  | goOn i outcome =>
    obtain ⟨hrepo', hnow'⟩ := (turn_resume hc' he i).repo_now_eq
    exact ⟨hrepo'.trans hrepo, hnow'.trans hnow⟩

/-! ### What a client ends with -/

/-- The thread of whoever asks after a run. -/
def askerAfter (w : World) (before : List Event) : Nat := (w.run before).threads.length

/-- A client that was asked `qs` may end like this: with an answer to each that it may have, or at
the first that fails, by a fault that it may have. -/
def MayEnd (b : Outcomes) (repo : String) (now : Int) (qs : List Query) :
    Except Fault Answer → Prop
  | .ok a => ∃ as, a = .all as ∧ List.Forall₂ (fun q a ↦ b.MayYield repo now q (.ok a)) qs as
  | .error e => ∃ asked q rest, qs = asked ++ q :: rest ∧ b.MayYield repo now q (.error e) ∧
    ∃ as, List.Forall₂ (fun q a ↦ b.MayYield repo now q (.ok a)) asked as

/-- A client that has ended has all its answers, or a fault that its next question may have. -/
theorem HasAsked.mayEnd {repo : String} {now : Int} {t : Thread} {r : Except Fault Answer}
    (h : HasAsked b repo now qs t) (ht : w.threads[i]? = some t) (hr : w.result? i = some r) :
    MayEnd b repo now qs r := by
  obtain ⟨job, hjob⟩ := result?_eq_some_iff.1 hr
  obtain rfl := Option.some.inj (ht.symm.trans hjob)
  cases job with
  | repoCheck | indexBuild => exact h.elim
  | client todo got =>
    obtain ⟨asked, rfl, hanswered, hends⟩ := h
    cases r with
    | ok a =>
      obtain ⟨rfl, rfl⟩ := hends
      exact ⟨got.reverse, rfl, by rwa [List.append_nil]⟩
    | error e =>
      obtain ⟨q, rest, rfl, he⟩ := hends
      exact ⟨asked, q, rest, rfl, he, got.reverse, hanswered⟩

/-- Whoever asks in the course of a run is a client to its end, with answers that the questions may
have. -/
theorem exists_hasAsked_of_ask {repo : String} {now : Int} {before later : List Event}
    (hevents : ∀ e ∈ before ++ .ask qs :: later, e.IsExpected)
    (hobeys : (fresh repo now).world.Obeys b (before ++ .ask qs :: later)) :
    ∃ t, ((fresh repo now).world.run (before ++ .ask qs :: later)).threads[
        (fresh repo now).world.askerAfter before]? = some t ∧
      HasAsked b (Path.absolute repo) now qs t := by
  have hfresh := coherent_fresh repo now
  obtain ⟨hbefore, hrest⟩ := List.forall_mem_append.1 hevents
  obtain ⟨-, hlater⟩ := List.forall_mem_cons.1 hrest
  obtain ⟨hobeysBefore, -, hobeysLater⟩ := obeys_append.1 hobeys
  have hc := hfresh.run hbefore
  have hw := hobeysBefore.founded (founded_fresh b repo now) hfresh hbefore
  set w := (fresh repo now).world.run before
  have hask : (w.after (.ask qs)).threads[w.threads.length]? = some ⟨.client qs [], .start⟩ := by
    simp [World.after, spawn]
  obtain ⟨t, ht, hqs⟩ := hobeysLater.exists_hasAsked (hw.moves (.single (.ask qs)) rfl)
    (hc.move (.ask qs)) hlater hask ⟨[], rfl, .nil, trivial⟩
  obtain ⟨hrepo, hnow⟩ := run_repo_now hfresh hevents
  rw [run_append] at hrepo hnow ⊢
  change ((w.after (.ask qs)).run later).repo = _ at hrepo
  change ((w.after (.ask qs)).run later).now = _ at hnow
  rw [hrepo, hnow] at hqs
  exact ⟨t, ht, hqs⟩

/-- Once nobody can go on, every client has ended. -/
theorem Coherent.isSome_result? (h : w.Coherent) (hstill : ∀ j, w.canGoOn j = false) {t : Thread}
    (ht : w.threads[i]? = some t) (hqs : ∃ repo now, HasAsked b repo now qs t) :
    (w.result? i).isSome := by
  obtain ⟨repo, now, hqs⟩ := hqs
  rcases t with ⟨⟨todo, got⟩ | _ | _, p⟩
  · by_cases hdone : ∃ r, p = .done r
    · obtain ⟨r, rfl⟩ := hdone
      rw [result?_eq_some_iff.2 ⟨_, ht⟩, Option.isSome_some]
    · obtain ⟨j, hj⟩ := h.exists_canGoOn ht fun r hr ↦ hdone ⟨r, hr⟩
      simp [hstill j] at hj
  · exact hqs.elim
  · exact hqs.elim

end World

/-! ### Which answers there are -/

/-- Whether an answer is of the kind that a question asks for. -/
def Answer.Fits : Query → Answer → Prop
  | .check, .nothing | .history _, .commits _ | .ownership _, .ownership _
  | .frequency _, .frequency _ | .together _ _, .related _ | .recent _, .recent _
  | .tracked, .tracked _ => True
  | _, _ => False

theorem fits_default (q : Query) : Answer.Fits q (World.default q) := by
  cases q <;> exact trivial

/-- What is made of the commits of a file is of the kind that is asked for. -/
theorem fits_answerOf {q : Query} {path : String} (h : World.historyPath? q = some path)
    (cs : List Commit) : Answer.Fits q (World.answerOf q cs) := by
  cases q with
  | history | ownership | frequency => exact trivial
  | check | together | recent | tracked => cases h

namespace Outcomes.MayYield

variable {b : Outcomes} {repo : String} {now : Int} {q : Query} {a : Answer} {e : Fault}

/-- All answers are of the kind that is asked for. -/
theorem fits (h : b.MayYield repo now q (.ok a)) : a.Fits q := by
  cases h with
  | outside | noKey | noIndex => exact fits_default q
  | file hpath | fileLost hpath => exact fits_answerOf hpath _
  | check | together | recent | tracked | untracked => exact trivial

/-- Only those who ask for the check itself are told that there is no repository. -/
theorem fault (h : b.MayYield repo now q (.error e)) :
    (q = .check ∧ e = .notARepository repo) ∨
      ∃ days fault, q = .recent days ∧ cutoff now days = .error fault ∧ e = .span fault := by
  cases h with
  | refused => exact Or.inl ⟨rfl, rfl⟩
  | noDate _ hsince => exact Or.inr ⟨_, _, rfl, hsince, rfl⟩

end Outcomes.MayYield

/-- The check fails. -/
def checkFails : Outcomes := fun c outcome ↦ c = .showPrefix → ∃ fault, outcome = .error fault

instance (c : Command) : (outcome : Outcome) → Decidable (checkFails c outcome)
  | .ok _ => decidable_of_iff (c ≠ .showPrefix) (by simp [checkFails])
  | .error fault => .isTrue fun _ ↦ ⟨fault, rfl⟩

/-- If the check fails, there is no repository. -/
theorem not_mayHaveRepository_checkFails : ¬checkFails.MayHaveRepository := by
  rintro ⟨below, output, houtput, -⟩
  obtain ⟨fault, hfault⟩ := houtput rfl
  cases hfault

theorem not_mayIndex_checkFails (x : LogIndex) : ¬checkFails.MayIndex x := by
  rintro ⟨below, log, hbelow, -⟩
  exact not_mayHaveRepository_checkFails ⟨below, hbelow⟩

/-- Without a repository there are no commits of a file. -/
theorem not_mayTell_checkFails (key : String) (cs : List Commit) : ¬checkFails.MayTell key cs := by
  rintro (⟨x, hx, -⟩ | ⟨hbelow, -⟩)
  · exact not_mayIndex_checkFails x hx
  · exact not_mayHaveRepository_checkFails hbelow

section CheckFails

variable {repo : String} {now : Int} {q : Query} {a : Answer} {e : Fault}

/-- Where the check fails, all answers are those for a directory without a history. -/
theorem eq_default_of_checkFails (h : checkFails.MayYield repo now q (.ok a)) :
    q ≠ .check ∧ a = World.default q := by
  cases h with
  | outside _ hq => exact ⟨hq, rfl⟩
  | noKey hpath =>
    refine ⟨?_, rfl⟩
    rintro rfl
    simp [Query.path?] at hpath
  | file _ _ hcs => exact absurd hcs (not_mayTell_checkFails _ _)
  | together _ hx | recent hx => exact absurd hx (not_mayIndex_checkFails _)
  | check hbelow | fileLost _ _ hbelow | noIndex _ _ hbelow | tracked hbelow | untracked hbelow =>
    exact absurd hbelow not_mayHaveRepository_checkFails

/-- If the check fails, only a question for the check itself fails. -/
theorem eq_check_of_checkFails (h : checkFails.MayYield repo now q (.error e)) :
    q = .check ∧ e = .notARepository repo := by
  cases h with
  | refused => exact ⟨rfl, rfl⟩
  | noDate hx => exact absurd hx (not_mayIndex_checkFails _)

theorem eq_map_default_of_checkFails {qs : List Query} {as : List Answer}
    (h : List.Forall₂ (fun q a ↦ checkFails.MayYield repo now q (.ok a)) qs as) :
    .check ∉ qs ∧ as = qs.map World.default := by
  induction h with
  | nil => exact ⟨List.not_mem_nil, rfl⟩
  | cons hq _ ih =>
    obtain ⟨hne, rfl⟩ := eq_default_of_checkFails hq
    obtain ⟨hnot, rfl⟩ := ih
    refine ⟨?_, rfl⟩
    rw [List.mem_cons, not_or]
    exact ⟨hne.symm, hnot⟩

/-- A client that does not ask for the check gets the answers for a directory without a history, and
one that does is told that there is no repository. -/
theorem World.MayEnd.of_checkFails {qs : List Query} {r : Except Fault Answer}
    (h : World.MayEnd checkFails repo now qs r) :
    (.check ∉ qs → r = .ok (.all (qs.map World.default))) ∧
      (.check ∈ qs → r = .error (.notARepository repo)) := by
  cases r with
  | ok a =>
    obtain ⟨as, rfl, has⟩ := h
    obtain ⟨hnot, rfl⟩ := eq_map_default_of_checkFails has
    exact ⟨fun _ ↦ rfl, fun hmem ↦ absurd hmem hnot⟩
  | error e =>
    obtain ⟨asked, q, rest, rfl, he, -⟩ := h
    obtain ⟨rfl, rfl⟩ := eq_check_of_checkFails he
    exact ⟨fun hnot ↦ absurd (by simp) hnot, fun _ ↦ rfl⟩

end CheckFails

/-! ### The end of questions -/

namespace World

/-- **Every question has an answer.** However threads take turns, and whichever commands fail in
ways that are expected: a client that has ended has an answer of the kind that it asked for to each
of its questions, unless it has asked for the check, or for a date that there is not, which alone
can fail. Where the check fails, the answers are those for a directory without a history. Once
nobody can go on, every client has ended, and that is so after a number of turns that the questions
determine. -/
theorem questions_end_in_answers (repo : String) (now : Int) {events : List Event}
    (hevents : ∀ e ∈ events, e.IsExpected) :
    let start := (fresh repo now).world
    (∀ before qs later, events = before ++ .ask qs :: later →
      let result := (start.run events).result? (start.askerAfter before)
      (∀ a, result = some (.ok a) → ∃ as, a = .all as ∧ List.Forall₂ Answer.Fits qs as) ∧
      (∀ e, result = some (.error e) → ∃ asked q rest, qs = asked ++ q :: rest ∧
        ((q = .check ∧ e = .notARepository (Path.absolute repo)) ∨ ∃ days fault,
          q = .recent days ∧ cutoff now days = .error fault ∧ e = .span fault)) ∧
      (start.Obeys checkFails events → ∀ r, result = some r →
        (.check ∉ qs → r = .ok (.all (qs.map default))) ∧
        (.check ∈ qs → r = .error (.notARepository (Path.absolute repo)))) ∧
      ((∀ j, (start.run events).canGoOn j = false) → result.isSome)) ∧
    start.turnsTaken events ≤ (events.map allowance).sum := by
  intro start
  have hfresh := coherent_fresh repo now
  refine ⟨?_, ?_⟩
  · rintro before qs later rfl result
    have hany : start.Obeys (fun _ _ ↦ True) (before ++ .ask qs :: later) := obeys_true _ _
    obtain ⟨t, ht, hqs⟩ := exists_hasAsked_of_ask hevents hany
    refine ⟨fun a ha ↦ ?_, fun e he ↦ ?_, fun hobeys r hr ↦ ?_, fun hstill ↦ ?_⟩
    · obtain ⟨as, rfl, has⟩ := hqs.mayEnd ht ha
      exact ⟨as, rfl, has.imp fun _ _ ↦ Outcomes.MayYield.fits⟩
    · obtain ⟨asked, q, rest, rfl, hfault, -⟩ := hqs.mayEnd ht he
      exact ⟨asked, q, rest, rfl, hfault.fault⟩
    -- the run obeys stricter outcomes here, so its clients are followed once more
    · obtain ⟨t', ht', hqs'⟩ := exists_hasAsked_of_ask hevents hobeys
      exact (hqs'.mayEnd ht' hr).of_checkFails
    · exact (hfresh.run hevents).isSome_result? hstill ht ⟨_, _, hqs⟩
  · calc start.turnsTaken events
        ≤ start.turnsTaken events + (start.run events).effort := Nat.le_add_right _ _
      _ ≤ start.effort + (events.map allowance).sum := turnsTaken_le hfresh hevents
      _ = (events.map allowance).sum := Nat.zero_add _

/-- Someone asks for the commits of a file and then for the check itself, where there is no
repository. The check is thread 1. -/
def outsideEvents : List Event :=
  [.ask [.history "a.js", .check], .goOn 0 (.ok ""), .goOn 1 (.ok ""),
    .goOn 1 (.error (.exit 128 "")), .goOn 0 (.ok "")]

/-- Outside of any repository someone gets the default for a file, and is told about the repository
when asking for it. -/
theorem questions_end_in_answers_of_outside :
    let start := (fresh "/srv/app" 63900000000000000).world
    (∀ e ∈ outsideEvents, e.IsExpected) ∧ start.Obeys checkFails outsideEvents ∧
      (start.run outsideEvents).result? 0 =
        some (.error (.notARepository (Path.absolute "/srv/app"))) ∧
      start.turnsTaken outsideEvents ≤ 21 := by
  intro start
  have hevents : ∀ e ∈ outsideEvents, e.IsExpected := by
    simp [outsideEvents, Event.IsExpected, Outcome.IsExpected, CommandFault.isExpected]
  have hobeys : start.Obeys checkFails outsideEvents := by decide +kernel
  have hended : ((start.run outsideEvents).result? 0).isSome := by decide +kernel
  obtain ⟨r, hr⟩ := Option.isSome_iff_exists.1 hended
  obtain ⟨hasked, hturns⟩ := questions_end_in_answers "/srv/app" 63900000000000000 hevents
  obtain ⟨-, -, hfails, -⟩ := hasked [] [.history "a.js", .check] _ rfl
  obtain rfl := (hfails hobeys r hr).2 (by simp)
  exact ⟨hevents, hobeys, hr, hturns⟩

end World

end RepoSurvey.History
