import RepoSurvey.Proofs.History.Coherence

/-!
# What a thread does when it goes on

Each operation of a history is a number of moves, and what it yields fits the world that it leaves:
a thread that must wait is told of a thread that is there, a failure is that of an ended check or
build, and a command is run only by those who may run it. There is one such statement for each
operation, from `leaveCheck_fits` up to `clientFrom_goes`; none of them looks into another
operation.

`Turn` puts them together. It lists all that can come of letting a thread go on, and
`turn_resume` says that nothing else does.
-/

namespace RepoSurvey.History

/-- A command succeeds, or fails in a way that a history answers without it. -/
def Outcome.IsExpected (outcome : Outcome) : Prop :=
  ∀ fault, outcome = .error fault → fault.isExpected = true

namespace World

variable {w w' : World}

/-! ### Waiting for the check and for the index -/

/-- What asking for the check may yield. -/
def CheckFits (w : World) : Awaited Unit → Prop
  | .ready _ => w.below.isSome
  | .failed e => w.refused = true ∧ e = .notARepository w.repo
  | .wait t => ∃ p, w.ChecksAt t p

/-- What asking for the index may yield. -/
def IndexFits (w : World) : Awaited LogIndex → Prop
  | .ready x => w.index = some x
  | .failed e => ∃ t, w.BuildsAt t (.done (.error e))
  | .wait t => ∃ p, w.BuildsAt t p

/-- Hearing of a check that has ended is a move, and tells what this check has found. -/
theorem leaveCheck_fits (h : w.Coherent) {t : Nat} {r : Except Fault Answer}
    (hdone : w.ChecksAt t (.done r)) :
    Moves w (w.leaveCheck t r).1 ∧ (w.leaveCheck t r).1.CheckFits (w.leaveCheck t r).2 := by
  have hpoint := h.checks hdone
  by_cases hslot : w.check = some t
  · have hmove := Move.leaveCheck hslot hdone
    cases r with
    | ok a =>
      rw [leaveCheck, if_pos hslot]
      exact ⟨.single hmove, hpoint⟩
    | error e =>
      rw [leaveCheck, if_pos hslot]
      exact ⟨.single hmove, hpoint⟩
  · cases r with
    | ok a =>
      rw [leaveCheck, if_neg hslot]
      exact ⟨.refl, hpoint⟩
    | error e =>
      rw [leaveCheck, if_neg hslot]
      exact ⟨.refl, hpoint⟩

/-- A check of which there is a result has ended with it. -/
theorem checksAt_done_of_result? {t : Nat} {r : Except Fault Answer}
    (ht : ∃ p, w.ChecksAt t p) (hr : w.result? t = some r) : w.ChecksAt t (.done r) := by
  obtain ⟨p, hp⟩ := ht
  obtain ⟨job, hjob⟩ := result?_eq_some_iff.1 hr
  obtain ⟨rfl, rfl⟩ := Thread.mk.inj (Option.some.inj (hp.symm.trans hjob))
  exact hp

/-- A build of which there is a result has ended with it. -/
theorem buildsAt_done_of_result? {t : Nat} {r : Except Fault Answer}
    (ht : ∃ p, w.BuildsAt t p) (hr : w.result? t = some r) : w.BuildsAt t (.done r) := by
  obtain ⟨p, hp⟩ := ht
  obtain ⟨job, hjob⟩ := result?_eq_some_iff.1 hr
  obtain ⟨rfl, rfl⟩ := Thread.mk.inj (Option.some.inj (hp.symm.trans hjob))
  exact hp

/-- Going on with the check that is there. -/
theorem awaitCheck_fits (h : w.Coherent) {t : Nat} (ht : ∃ p, w.ChecksAt t p) :
    let go := match w.result? t with
      | some result => w.leaveCheck t result
      | none => (w, .wait t)
    Moves w go.1 ∧ go.1.CheckFits go.2 := by
  rcases hr : w.result? t with - | r
  · exact ⟨.refl, ht⟩
  · exact leaveCheck_fits h (checksAt_done_of_result? ht hr)

/-- Asking for the check is a number of moves, and tells what is known, or whom to wait for. -/
theorem enterCheck_fits (h : w.Coherent) :
    Moves w w.enterCheck.1 ∧ w.enterCheck.1.CheckFits w.enterCheck.2 := by
  rw [enterCheck]
  by_cases hbelow : w.below.isSome
  · rw [if_pos hbelow]
    exact ⟨.refl, hbelow⟩
  rw [if_neg hbelow]
  by_cases hrefused : w.refused = true
  · rw [if_pos hrefused]
    exact ⟨.refl, hrefused, rfl⟩
  rw [if_neg hrefused]
  rcases hslot : w.check with - | t
  · -- the new check is gone on with like one that was there
    have hmove := Move.beginCheck (by simpa using hbelow) (by simpa using hrefused) hslot
    have hc := h.move hmove
    obtain ⟨hmoves, hfits⟩ := awaitCheck_fits hc (hc.check_slot _ rfl)
    exact ⟨.head hmove hmoves, hfits⟩
  · exact awaitCheck_fits h (h.check_slot t hslot)

/-- Hearing of a build that has ended is a move, and tells the index or why there is none. -/
theorem leaveIndex_fits (h : w.Coherent) {t : Nat} {r : Except Fault Answer}
    (hdone : w.BuildsAt t (.done r)) :
    Moves w (w.leaveIndex t r).1 ∧ (w.leaveIndex t r).1.IndexFits (w.leaveIndex t r).2 := by
  have hpoint := h.builds hdone
  cases r with
  | ok a =>
    obtain ⟨x, rfl⟩ := hpoint.1
    exact ⟨.single (.keepIndex hdone), rfl⟩
  | error e =>
    rw [leaveIndex]
    by_cases hslot : w.build = some t
    · have hmove := Move.forgetBuild hslot hdone
      simp only [if_pos hslot]
      split
      · exact ⟨.single hmove, t, hdone⟩
      · exact ⟨.tail (.single hmove) (.note _ _), t, hdone⟩
    · simp only [if_neg hslot]
      exact ⟨.refl, t, hdone⟩

/-- Going on with the build that is there. -/
theorem awaitIndex_fits (h : w.Coherent) {t : Nat} (ht : ∃ p, w.BuildsAt t p) :
    let go := match w.result? t with
      | some result => w.leaveIndex t result
      | none => (w, .wait t)
    Moves w go.1 ∧ go.1.IndexFits go.2 := by
  rcases hr : w.result? t with - | r
  · exact ⟨.refl, ht⟩
  · exact leaveIndex_fits h (buildsAt_done_of_result? ht hr)

/-- Asking for the index is a number of moves, and tells it, or whom to wait for. -/
theorem enterIndex_fits (h : w.Coherent) :
    Moves w w.enterIndex.1 ∧ w.enterIndex.1.IndexFits w.enterIndex.2 := by
  rw [enterIndex]
  rcases hindex : w.index with - | x
  · rcases hslot : w.build with - | t
    · have hmove := Move.beginBuild hindex hslot
      have hc := h.move hmove
      obtain ⟨hmoves, hfits⟩ := awaitIndex_fits hc (hc.build_slot _ rfl)
      exact ⟨.head hmove hmoves, hfits⟩
    · exact awaitIndex_fits h (h.build_slot t hslot)
  · exact ⟨.refl, hindex⟩

/-! ### Questions -/

/-- How a question may go on. -/
def QueryFits (w : World) (q : Query) : Progress → Prop
  | .answered _ => True
  | .failed e => w.MayFail q e
  | .waits p => w.Waits q p

/-- A question about a file is answered from the index, and what is found is remembered. -/
theorem fileFromIndex_fits (w : World) (q : Query) (path : String) (x : LogIndex) :
    Moves w (w.fileFromIndex q path x).1 ∧
      (w.fileFromIndex q path x).1.QueryFits q (w.fileFromIndex q path x).2 :=
  ⟨.single (.tell _), trivial⟩

/-- Commits that come to be remembered are a move. -/
theorem commitsFor_moves (w : World) (key : String) (x : LogIndex) :
    Moves w (w.commitsFor key x).1 := by
  rw [commitsFor]
  split
  · exact .refl
  · split
    · exact .refl
    · exact .single (.tell _)

/-- A build fails with the fault of its command, or because there is no repository. -/
theorem Coherent.isExpected_or_isNoRepository (h : w.Coherent) {t : Nat} {e : Fault}
    (hdone : w.BuildsAt t (.done (.error e))) :
    (w.refused = true ∧ e.isNoRepository = true) ∨ (w.below.isSome ∧ e.isExpected = true) := by
  rcases h.builds hdone with ⟨hrefused, rfl⟩ | hknown
  · exact Or.inl ⟨hrefused, rfl⟩
  · exact Or.inr hknown

/-- A question that knows of the index goes on as it may: it waits, has its answer, has failed, or
runs the command for the log of its file. -/
theorem afterIndex_fits (h : w.Coherent) {q : Query} {x : Awaited LogIndex} (hx : w.IndexFits x)
    (hq : historyPath? q ≠ none → w.below.isSome) :
    Moves w (w.afterIndex q x).1 ∧ (w.afterIndex q x).1.QueryFits q (w.afterIndex q x).2 := by
  cases x with
  | wait t => exact ⟨.refl, hx, hq⟩
  | failed e =>
    obtain ⟨t, hdone⟩ := hx
    have hfault := h.isExpected_or_isNoRepository hdone
    rcases hpath : historyPath? q with - | path
    · have hexpected : (e.isExpected || e.isNoRepository) = true := by
        rcases hfault with ⟨-, he⟩ | ⟨-, he⟩ <;> simp [he]
      simp only [afterIndex, hpath, hexpected, if_true]
      exact ⟨.refl, trivial⟩
    · -- who asks for one file has asked the check before, so the build lacks no repository
      have hbelow : w.below.isSome := hq (by simp [hpath])
      have hexpected : e.isExpected = true := by
        rcases hfault with ⟨hrefused, -⟩ | ⟨-, he⟩
        · simp [h.not_refused hbelow] at hrefused
        · exact he
      simp only [afterIndex, hpath, fileWithoutIndex, hexpected, if_true]
      exact ⟨.single (.note _ _), hbelow, trivial⟩
  | ready x =>
    cases q with
    | together path threshold =>
      simp only [afterIndex]
      exact ⟨commitsFor_moves w _ x, trivial⟩
    | recent days =>
      rcases hsince : cutoff w.now days with fault | since
      · simp only [afterIndex, hsince]
        exact ⟨.refl, Or.inr ⟨days, fault, rfl, hsince, rfl⟩⟩
      · simp only [afterIndex, hsince]
        exact ⟨.refl, trivial⟩
    | check | tracked => exact ⟨.refl, trivial⟩
    | history path | ownership path | frequency path =>
      simp only [afterIndex, historyPath?]
      exact fileFromIndex_fits w _ path x

/-- Asking for the index and going on with it. -/
theorem enterIndex_afterIndex_fits (h : w.Coherent) {q : Query}
    (hq : historyPath? q ≠ none → w.below.isSome) :
    let go := w.enterIndex.1.afterIndex q w.enterIndex.2
    Moves w go.1 ∧ go.1.QueryFits q go.2 := by
  obtain ⟨hmoves, hfits⟩ := enterIndex_fits h
  obtain ⟨hmoves', hfits'⟩ := afterIndex_fits (hmoves.coherent h) hfits fun hpath ↦
    hmoves.grows.below (hq hpath)
  exact ⟨hmoves.trans hmoves', hfits'⟩

/-- A question that knows of the check goes on as it may. -/
theorem afterCheck_fits (h : w.Coherent) {q : Query} {c : Awaited Unit} (hc : w.CheckFits c) :
    Moves w (w.afterCheck q c).1 ∧ (w.afterCheck q c).1.QueryFits q (w.afterCheck q c).2 := by
  cases c with
  | wait t => exact ⟨.refl, hc⟩
  | failed e =>
    obtain ⟨hrefused, rfl⟩ := hc
    cases q with
    | check => exact ⟨.refl, Or.inl ⟨rfl, rfl⟩⟩
    | history | ownership | frequency | together | recent | tracked => exact ⟨.refl, trivial⟩
  | ready =>
    have hbelow : w.below.isSome := hc
    cases q with
    | check | together | recent => exact ⟨.refl, trivial⟩
    | tracked => exact ⟨.refl, hbelow, trivial⟩
    | history path | ownership path | frequency path =>
      simp only [afterCheck, historyPath?]
      split
      · exact ⟨.refl, trivial⟩
      · split
        · exact ⟨.refl, trivial⟩
        · exact enterIndex_afterIndex_fits h fun _ ↦ hbelow

/-- Asking for the check and going on with it. -/
theorem enterCheck_afterCheck_fits (h : w.Coherent) (q : Query) :
    let go := w.enterCheck.1.afterCheck q w.enterCheck.2
    Moves w go.1 ∧ go.1.QueryFits q go.2 := by
  obtain ⟨hmoves, hfits⟩ := enterCheck_fits h
  obtain ⟨hmoves', hfits'⟩ := afterCheck_fits (q := q) (hmoves.coherent h) hfits
  exact ⟨hmoves.trans hmoves', hfits'⟩

/-- Every question begins as it may, by asking for the check or for the index. -/
theorem beginQuery_fits (h : w.Coherent) (q : Query) :
    Moves w (w.beginQuery q).1 ∧ (w.beginQuery q).1.QueryFits q (w.beginQuery q).2 := by
  cases q with
  | together path threshold =>
    simp only [beginQuery]
    split
    · exact ⟨.refl, trivial⟩
    · exact enterIndex_afterIndex_fits h fun hpath ↦ absurd rfl hpath
  | recent days =>
    simp only [beginQuery]
    exact enterIndex_afterIndex_fits h fun hpath ↦ absurd rfl hpath
  | check | history | ownership | frequency | tracked =>
    simp only [beginQuery]
    exact enterCheck_afterCheck_fits h _

/-- A question that has waited for a command is answered with its outcome. -/
theorem afterCommand_fits (w : World) (q : Query) {c : Command} {outcome : Outcome}
    (houtcome : outcome.IsExpected) :
    Moves w (w.afterCommand q c outcome).1 ∧
      (w.afterCommand q c outcome).1.QueryFits q (w.afterCommand q c outcome).2 := by
  cases outcome with
  | ok output =>
    cases c with
    | fileLog key => exact ⟨.single (.tell _), trivial⟩
    | showPrefix | fullLog | listFiles => exact ⟨.refl, trivial⟩
  | error fault =>
    have hfault : fault.isExpected = true := houtcome fault rfl
    cases c with
    | fileLog key =>
      simp only [afterCommand, hfault, if_true]
      exact ⟨.single (.note _ _), trivial⟩
    | showPrefix | fullLog | listFiles =>
      simp only [afterCommand, hfault, if_true]
      exact ⟨.refl, trivial⟩

/-! ### Clients -/

/-- A client has moved from a world to another one and stands where a client may stand there. -/
def ClientGoes (w : World) (go : World × Thread) : Prop :=
  Moves w go.1 ∧ ∃ todo got p, go.2 = ⟨.client todo got, p⟩ ∧ go.1.ClientPoint todo p

/-- A client that begins its questions comes to stand where a client may, after a number of moves.
-/
theorem clientFrom_goes (h : w.Coherent) (todo : List Query) (got : List Answer) :
    w.ClientGoes (w.clientFrom todo got) := by
  -- each question is begun in the world that the one before has left
  induction todo generalizing w got with
  | nil => exact ⟨.refl, [], got, _, rfl, trivial⟩
  | cons q todo ih =>
    obtain ⟨hmoves, hfits⟩ := beginQuery_fits h q
    rw [clientFrom]
    rcases hq : w.beginQuery q with ⟨w', a | e | p⟩ <;> rw [hq] at hmoves hfits
    · obtain ⟨hmoves', hpoint⟩ := ih (hmoves.coherent h) (a :: got)
      exact ⟨hmoves.trans hmoves', hpoint⟩
    · exact ⟨hmoves, q :: todo, got, _, rfl, q, todo, rfl, hfits⟩
    · exact ⟨hmoves, q :: todo, got, p, rfl, .of_waits hfits⟩

/-- So does a client of which a question has made progress. -/
theorem clientAfter_goes (h : w.Coherent) {q : Query} {go : World × Progress}
    (hgo : Moves w go.1 ∧ go.1.QueryFits q go.2) (todo : List Query) (got : List Answer) :
    w.ClientGoes (clientAfter q todo got go) := by
  obtain ⟨hmoves, hfits⟩ := hgo
  rcases go with ⟨w', a | e | p⟩
  · obtain ⟨hmoves', hpoint⟩ := clientFrom_goes (hmoves.coherent h) todo (a :: got)
    exact ⟨hmoves.trans hmoves', hpoint⟩
  · exact ⟨hmoves, q :: todo, got, _, rfl, q, todo, rfl, hfits⟩
  · exact ⟨hmoves, q :: todo, got, p, rfl, .of_waits hfits⟩

/-! ### The history's own threads -/

/-- What a build ends with, given what its command yields. -/
def buildResult (w : World) : Outcome → Except Fault Answer
  | .ok log => .ok (.index (parseLog (w.below.getD "") log))
  | .error fault => .error (.command .fullLog fault)

/-- An index says nothing but what is remembered of files. -/
theorem exists_tellAll_eq (w : World) (files : List (String × List Commit)) :
    ∃ told, w.tellAll files = { w with told } := by
  induction files generalizing w with
  | nil => exact ⟨w.told, rfl⟩
  | cons file files ih =>
    obtain ⟨told, htold⟩ := ih { w with
      told := Assoc.modify file.1 (fun old ↦ old.getD file.2) w.told }
    exact ⟨told, htold⟩

/-- The end of a build is a number of moves, and its result is told by its command. -/
theorem endBuild_moves (w : World) (outcome : Outcome) :
    Moves w (w.endBuild outcome).1 ∧ (w.endBuild outcome).2 = w.buildResult outcome := by
  cases outcome with
  | ok log =>
    obtain ⟨told, htold⟩ := exists_tellAll_eq w (parseLog (w.below.getD "") log).fileCommits
    simp only [endBuild, htold]
    exact ⟨.tail (.single (.tell told)) (.note _ _), rfl⟩
  | error fault => exact ⟨.refl, rfl⟩

/-- Where a build gets to that knows of the check. -/
theorem buildAfterCheck_fits {i : Nat} (hpending : w.BuildPending i) {c : Awaited Unit}
    (hc : w.CheckFits c) :
    (w.buildAfterCheck c).1 = w ∧ w.BuildPoint i (w.buildAfterCheck c).2 := by
  cases c with
  | ready => exact ⟨rfl, rfl, hpending, hc⟩
  | failed e => exact ⟨rfl, Or.inl hc⟩
  | wait t => exact ⟨rfl, hpending, hc⟩

/-! ### Turns -/

/-- The world in which the command that thread `i` runs has been run. -/
def called (w : World) (i : Nat) : World :=
  { w with calls := (w.nextCommand? i).toList ++ w.calls }

/-- All that can come of letting thread `i` go on. -/
inductive Turn (w : World) (i : Nat) (outcome : Outcome) : World → Prop
  /-- The thread stays where it is. -/
  | stay {w₁ : World} (hcommand : w.nextCommand? i = none) (hm : Moves w w₁) : Turn w i outcome w₁
  /-- A client goes on. -/
  | client {todo : List Query} {got : List Answer} {p : Point} {go : World × Thread}
    (hthread : w.threads[i]? = some ⟨.client todo got, p⟩) (hgo : (w.called i).ClientGoes go) :
    Turn w i outcome (go.1.setThread i go.2)
  /-- The check is about to run its command. -/
  | beginCheck {w₁ : World} (hthread : w.ChecksAt i .start) (hm : Moves w w₁) :
    Turn w i outcome (w₁.setThread i ⟨.repoCheck, .command .showPrefix⟩)
  /-- The check has found a repository. -/
  | know {w₁ : World} {output below : String} (hthread : w.ChecksAt i (.command .showPrefix))
    (houtcome : outcome = .ok output) (hm : Moves w w₁) :
    Turn w i outcome
      ({ w₁.call .showPrefix with below := some below }.setThread i
        ⟨.repoCheck, .done (.ok .nothing)⟩)
  /-- The check has found no repository. -/
  | refuse {w₁ : World} {fault : CommandFault} (hthread : w.ChecksAt i (.command .showPrefix))
    (houtcome : outcome = .error fault) (hm : Moves w w₁) :
    Turn w i outcome
      ({ w₁.call .showPrefix with refused := true }.setThread i
        ⟨.repoCheck, .done (.error (.notARepository w₁.repo))⟩)
  /-- A build goes on. -/
  | build {p p' : Point} {w₁ : World} (hthread : w.BuildsAt i p)
    (hcommand : w.nextCommand? i = none) (hm : Moves w w₁) (hpoint : w₁.BuildPoint i p') :
    Turn w i outcome (w₁.setThread i ⟨.indexBuild, p'⟩)
  /-- A build ends. -/
  | endBuild {w₁ : World} (hthread : w.BuildsAt i (.command .fullLog))
    (hm : Moves (w.call .fullLog) w₁) :
    Turn w i outcome (w₁.setThread i ⟨.indexBuild, .done (w.buildResult outcome)⟩)

/-- A thread runs a command when it goes on if it stands at this command. -/
theorem nextCommand?_eq_some_iff {i : Nat} {c : Command} :
    w.nextCommand? i = some c ↔ ∃ job, w.threads[i]? = some ⟨job, .command c⟩ := by
  rw [nextCommand?]
  split
  · rename_i job c' hthread
    simp [hthread, eq_comm]
  · rename_i hother
    simp only [reduceCtorEq, false_iff, not_exists]
    exact fun job hjob ↦ hother job c hjob

theorem called_eq_self {i : Nat} (h : w.nextCommand? i = none) : w.called i = w := by
  rw [called, h]
  rfl

theorem called_eq_call {i : Nat} {c : Command} (h : w.nextCommand? i = some c) :
    w.called i = w.call c := by
  rw [called, h]
  rfl

theorem nextCommand?_eq_none {i : Nat} {t : Thread} (ht : w.threads[i]? = some t)
    (hpoint : ∀ c, t.point ≠ .command c) : w.nextCommand? i = none := by
  refine Option.eq_none_iff_forall_ne_some.2 fun c hc ↦ ?_
  obtain ⟨job, hjob⟩ := nextCommand?_eq_some_iff.1 hc
  obtain rfl := Option.some.inj (ht.symm.trans hjob)
  exact hpoint c rfl

/-- A command that a client runs keeps a world coherent. -/
theorem Coherent.call (h : w.Coherent) (hbelow : w.below.isSome) {c : Command}
    (hc : c ≠ .showPrefix) : (w.call c).Coherent where
  check_unique := h.check_unique
  check_slot := h.check_slot
  build_slot := h.build_slot
  not_refused := h.not_refused
  calls_unknown hnone := by
    have hnone : w.below = none := hnone
    simp [hnone] at hbelow
  calls_refused hrefused := by
    have hrefused : w.refused = true := hrefused
    simp [h.not_refused hbelow] at hrefused
  calls_known _ := by
    rw [World.call, List.count_cons_of_ne hc]
    exact h.calls_known hbelow
  fits i t ht := h.fits i t ht

/-- A turn begins no threads before it, and leaves its own where it has come to. -/
theorem resume_eq_setThread {i : Nat} {t : Thread} (ht : w.threads[i]? = some t)
    (outcome : Outcome) :
    w.resume i outcome =
      let go := { w with begun := [] }.advance t outcome
      go.1.setThread i go.2 := by
  rw [resume, ht]

/-- A client that goes on comes to stand where a client may. -/
theorem clientGoes_advance (h : w.Coherent) {outcome : Outcome} (houtcome : outcome.IsExpected)
    {i : Nat} {todo : List Query} {got : List Answer} {p : Point}
    (hthread : w.threads[i]? = some ⟨.client todo got, p⟩) :
    (w.called i).ClientGoes (w.advance ⟨.client todo got, p⟩ outcome) := by
  have hpoint := h.clients hthread
  cases p with
  | start =>
    rw [called_eq_self (nextCommand?_eq_none hthread (by simp))]
    exact clientFrom_goes h todo got
  | onCheck s =>
    rw [called_eq_self (nextCommand?_eq_none hthread (by simp))]
    obtain ⟨q, rest, rfl, hs⟩ := hpoint
    rcases hr : w.result? s with - | r
    · simp only [advance, hr]
      exact ⟨.refl, _, _, _, rfl, q, rest, rfl, hs⟩
    · obtain ⟨hmoves, hfits⟩ := leaveCheck_fits h (checksAt_done_of_result? hs hr)
      obtain ⟨hmoves', hfits'⟩ := afterCheck_fits (q := q) (hmoves.coherent h) hfits
      simp only [advance, hr]
      exact clientAfter_goes h ⟨hmoves.trans hmoves', hfits'⟩ rest got
  | onIndex s =>
    rw [called_eq_self (nextCommand?_eq_none hthread (by simp))]
    obtain ⟨q, rest, rfl, hs, hbelow⟩ := hpoint
    rcases hr : w.result? s with - | r
    · simp only [advance, hr]
      exact ⟨.refl, _, _, _, rfl, q, rest, rfl, hs, hbelow⟩
    · obtain ⟨hmoves, hfits⟩ := leaveIndex_fits h (buildsAt_done_of_result? hs hr)
      obtain ⟨hmoves', hfits'⟩ := afterIndex_fits (hmoves.coherent h) hfits fun hq ↦
        hmoves.grows.below (hbelow hq)
      simp only [advance, hr]
      exact clientAfter_goes h ⟨hmoves.trans hmoves', hfits'⟩ rest got
  | command c =>
    obtain ⟨q, rest, rfl, hbelow, hc⟩ := hpoint
    -- the command has been run by the time its outcome is looked at
    have hne : c ≠ .showPrefix := by
      rintro rfl
      exact hc
    rw [called_eq_call (nextCommand?_eq_some_iff.2 ⟨_, hthread⟩)]
    simp only [advance]
    exact clientAfter_goes (h.call hbelow hne) (afterCommand_fits _ q houtcome) rest got
  | done r =>
    rw [called_eq_self (nextCommand?_eq_none hthread (by simp))]
    exact ⟨.refl, _, _, _, rfl, hpoint⟩

/-- What comes of letting a client go on is a turn. -/
theorem turn_client (h : w.Coherent) {outcome : Outcome} (houtcome : outcome.IsExpected)
    {i : Nat} {todo : List Query} {got : List Answer} {p : Point}
    (hthread : w.threads[i]? = some ⟨.client todo got, p⟩) :
    Turn w i outcome (w.resume i outcome) := by
  obtain ⟨hmoves, hpoint⟩ := clientGoes_advance (h.move .rest) houtcome hthread
  rw [resume_eq_setThread hthread]
  exact .client hthread ⟨.head .rest hmoves, hpoint⟩

/-- What comes of letting the check go on is a turn. -/
theorem turn_check (h : w.Coherent) (outcome : Outcome) (houtcome : outcome.IsExpected)
    {i : Nat} {p : Point} (hthread : w.ChecksAt i p) : Turn w i outcome (w.resume i outcome) := by
  have hpoint := h.checks hthread
  rw [resume_eq_setThread hthread]
  cases p with
  | start => exact .beginCheck hthread (.single .rest)
  | onCheck s | onIndex s => exact hpoint.elim
  | command c =>
    obtain ⟨rfl, -⟩ := hpoint
    cases outcome with
    | ok output => exact .know hthread rfl (.single .rest)
    | error fault =>
      have hfault : fault.isExpected = true := houtcome fault rfl
      simp only [advance, endCheck, hfault, if_true]
      exact .refuse hthread rfl (.tail (.single .rest) (.note _ _))
  | done r =>
    have hself : ({ w with begun := [] } : World).setThread i ⟨.repoCheck, .done r⟩ =
        { w with begun := [] } := setThread_self hthread
    simp only [advance, hself]
    exact .stay (nextCommand?_eq_none hthread (by simp)) (.single .rest)

/-- What comes of letting the build go on is a turn. -/
theorem turn_build (h : w.Coherent) (outcome : Outcome) {i : Nat} {p : Point}
    (hthread : w.BuildsAt i p) : Turn w i outcome (w.resume i outcome) := by
  have hpoint := h.builds hthread
  have hrest := h.move .rest
  rw [resume_eq_setThread hthread]
  cases p with
  | start =>
    obtain ⟨hmoves, hfits⟩ := enterCheck_fits hrest
    -- asking for the check leaves this build the one that is pending
    have hpending := (hmoves.coherent hrest).builds (hmoves.getElem? hthread)
    obtain ⟨heq, hpoint'⟩ := buildAfterCheck_fits hpending hfits
    simp only [advance, heq]
    have hcommand := nextCommand?_eq_none hthread (by simp)
    exact .build hthread hcommand (.head .rest hmoves) hpoint'
  | onCheck s =>
    have hcommand := nextCommand?_eq_none hthread (by simp)
    rcases hr : w.result? s with - | r
    · have hr' : ({ w with begun := [] } : World).result? s = none := hr
      simp only [advance, hr']
      exact .build hthread hcommand (.single .rest) hpoint
    · obtain ⟨hmoves, hfits⟩ := leaveCheck_fits hrest (checksAt_done_of_result? hpoint.2 hr)
      have hpending := (hmoves.coherent hrest).builds (hmoves.getElem? hthread)
      obtain ⟨heq, hpoint'⟩ := buildAfterCheck_fits hpending.1 hfits
      have hr' : ({ w with begun := [] } : World).result? s = some r := hr
      simp only [advance, hr', heq]
      exact .build hthread hcommand (.head .rest hmoves) hpoint'
  | onIndex s => exact hpoint.elim
  | command c =>
    obtain ⟨rfl, -⟩ := hpoint
    obtain ⟨hmoves, hresult⟩ :=
      endBuild_moves (({ w with begun := [] } : World).call .fullLog) outcome
    simp only [advance, hresult]
    exact .endBuild hthread (.head .rest hmoves)
  | done r =>
    have hself : ({ w with begun := [] } : World).setThread i ⟨.indexBuild, .done r⟩ =
        { w with begun := [] } := setThread_self hthread
    simp only [advance, hself]
    exact .stay (nextCommand?_eq_none hthread (by simp)) (.single .rest)

/-- Nothing but a turn comes of letting a thread go on. -/
theorem turn_resume (h : w.Coherent) {outcome : Outcome} (houtcome : outcome.IsExpected)
    (i : Nat) : Turn w i outcome (w.resume i outcome) := by
  rcases hthread : w.threads[i]? with - | ⟨_ | _ | _, p⟩
  · have hcommand : w.nextCommand? i = none := by rw [nextCommand?, hthread]
    have hself : w.resume i outcome = w := by rw [resume, hthread]
    rw [hself]
    exact .stay hcommand .refl
  · exact turn_client h houtcome hthread
  · exact turn_check h outcome houtcome hthread
  · exact turn_build h outcome hthread

end World

end RepoSurvey.History
