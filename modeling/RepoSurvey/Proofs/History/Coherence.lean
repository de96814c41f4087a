import Mathlib.Logic.Relation
import RepoSurvey.History.World

/-!
# What the threads of a history know of each other

A history shares two slots between its threads: `check` names the thread that finds out whether
there is a repository, and `build` the one that reads the whole log. Both are filled by whoever
needs the answer first and emptied by whoever sees the thread ended, so between the end of a thread
and the return of those who wait for it the slots may still name it, or already name another one.

`World.Coherent` says at which points a thread may stand, and what a thread that stands there says
of the slots. It rests on two facts:

* a thread that has not ended is named by its slot (`CheckPending`, `BuildPending`), so there is
  never more than one of either kind;
* a check that has ended has left its outcome in `below` or `refused`, and a build that has
  succeeded is named by its slot until the index is kept.

`World.Move` lists all that may happen to the slots while threads stand where they are. Each move
keeps a world coherent (`Coherent.move`) and only adds to it (`Move.grows`). A thread may come to
any point that fits the world it leaves (`Coherent.setThread`).
-/

namespace RepoSurvey.History

namespace World

variable {w w' : World}

/-! ### Where threads stand -/

/-- Thread `i` finds out whether there is a repository, and stands at a point. -/
def ChecksAt (w : World) (i : Nat) (p : Point) : Prop := w.threads[i]? = some ⟨.repoCheck, p⟩

/-- Thread `i` reads the whole log, and stands at a point. -/
def BuildsAt (w : World) (i : Nat) (p : Point) : Prop := w.threads[i]? = some ⟨.indexBuild, p⟩

/-- Thread `i` is the one that is to find out whether there is a repository. -/
def CheckPending (w : World) (i : Nat) : Prop :=
  w.check = some i ∧ w.below = none ∧ w.refused = false

/-- Thread `i` is the one that is to read the whole log. -/
def BuildPending (w : World) (i : Nat) : Prop := w.build = some i ∧ w.index = none

/-- The commands that clients run. -/
def IsClientCommand : Command → Prop
  | .fileLog _ | .listFiles => True
  | .showPrefix | .fullLog => False

/-- The faults by which a question may fail. -/
def MayFail (w : World) (q : Query) (e : Fault) : Prop :=
  (q = .check ∧ e = .notARepository w.repo) ∨
    ∃ days fault, q = .recent days ∧ cutoff w.now days = .error fault ∧ e = .span fault

/-- The points at which a question may wait. Those who ask for the commits of a file wait for the
log only when they know that there is a repository. -/
def Waits (w : World) (q : Query) : Point → Prop
  | .onCheck t => ∃ p, w.ChecksAt t p
  | .onIndex t => (∃ p, w.BuildsAt t p) ∧ (historyPath? q ≠ none → w.below.isSome)
  | .command c => w.below.isSome ∧ IsClientCommand c
  | .start | .done _ => False

/-- The points at which a client may stand. -/
def ClientPoint (w : World) (todo : List Query) : Point → Prop
  | .start | .done (.ok _) => True
  | .done (.error e) => ∃ q rest, todo = q :: rest ∧ w.MayFail q e
  | p => ∃ q rest, todo = q :: rest ∧ w.Waits q p

/-- The points at which the check `i` may stand. -/
def CheckPoint (w : World) (i : Nat) : Point → Prop
  | .start => w.CheckPending i
  | .command c => c = .showPrefix ∧ w.CheckPending i
  | .done (.ok _) => w.below.isSome
  | .done (.error e) => w.refused = true ∧ e = .notARepository w.repo
  | .onCheck _ | .onIndex _ => False

/-- The points at which the build `i` may stand. -/
def BuildPoint (w : World) (i : Nat) : Point → Prop
  | .start => w.BuildPending i
  | .onCheck t => w.BuildPending i ∧ ∃ p, w.ChecksAt t p
  | .command c => c = .fullLog ∧ w.BuildPending i ∧ w.below.isSome
  | .done (.ok a) => (∃ x, a = .index x) ∧ (w.index = none → w.build = some i)
  | .done (.error e) =>
    (w.refused = true ∧ e = .notARepository w.repo) ∨ (w.below.isSome ∧ e.isExpected = true)
  | .onIndex _ => False

/-- The thread may stand where it stands, if it is thread `i`. -/
def Fits (w : World) (i : Nat) (t : Thread) : Prop :=
  match t.job with
  | .client todo _ => w.ClientPoint todo t.point
  | .repoCheck => w.CheckPoint i t.point
  | .indexBuild => w.BuildPoint i t.point

/-- What is shared names threads that are there, and the commands that have been run are those that
were needed to know it. -/
structure Settled (w : World) : Prop where
  check_unique : ∀ i j p q, w.ChecksAt i p → w.ChecksAt j q → i = j
  check_slot : ∀ t, w.check = some t → ∃ p, w.ChecksAt t p
  build_slot : ∀ t, w.build = some t → ∃ p, w.BuildsAt t p
  not_refused : w.below.isSome → w.refused = false
  calls_unknown : w.below = none → w.refused = false → w.calls = []
  calls_refused : w.refused = true → w.calls = [.showPrefix]
  calls_known : w.below.isSome → w.calls.count .showPrefix = 1

/-- What is shared is settled, and every thread stands at a point that fits it. -/
structure Coherent (w : World) : Prop extends Settled w where
  fits : ∀ (i : Nat) (t : Thread), w.threads[i]? = some t → w.Fits i t

/-- In a coherent world each client stands at a point that fits it. -/
theorem Coherent.clients (h : w.Coherent) {i : Nat} {todo : List Query} {got : List Answer}
    {p : Point} (hp : w.threads[i]? = some ⟨.client todo got, p⟩) : w.ClientPoint todo p :=
  h.fits i _ hp

theorem Coherent.checks (h : w.Coherent) {i : Nat} {p : Point} (hp : w.ChecksAt i p) :
    w.CheckPoint i p := h.fits i _ hp

theorem Coherent.builds (h : w.Coherent) {i : Nat} {p : Point} (hp : w.BuildsAt i p) :
    w.BuildPoint i p := h.fits i _ hp

/-- What stays true of a world while its threads go on. -/
structure Grows (w w' : World) : Prop where
  repo : w'.repo = w.repo
  now : w'.now = w.now
  checksAt : ∀ t, (∃ p, w.ChecksAt t p) → ∃ p, w'.ChecksAt t p
  buildsAt : ∀ t, (∃ p, w.BuildsAt t p) → ∃ p, w'.BuildsAt t p
  below : w.below.isSome → w'.below.isSome
  refused : w.refused = true → w'.refused = true

theorem Grows.refl (w : World) : w.Grows w := ⟨rfl, rfl, fun _ ↦ id, fun _ ↦ id, id, id⟩

/-- A world that grows twice has grown. -/
theorem Grows.trans {w₁ w₂ w₃ : World} (h : w₁.Grows w₂) (h' : w₂.Grows w₃) : w₁.Grows w₃ where
  repo := h'.repo.trans h.repo
  now := h'.now.trans h.now
  checksAt t ht := h'.checksAt t (h.checksAt t ht)
  buildsAt t ht := h'.buildsAt t (h.buildsAt t ht)
  below hb := h'.below (h.below hb)
  refused hr := h'.refused (h.refused hr)

theorem MayFail.mono (hw : w.Grows w') {q : Query} {e : Fault} (h : w.MayFail q e) :
    w'.MayFail q e := by
  rwa [MayFail, hw.repo, hw.now]

/-- Where a question could wait, it can go on waiting. -/
theorem Waits.mono (hw : w.Grows w') {q : Query} {p : Point} (h : w.Waits q p) : w'.Waits q p := by
  cases p with
  | start => exact h
  | onCheck t => exact hw.checksAt t h
  | onIndex t => exact ⟨hw.buildsAt t h.1, fun hq ↦ hw.below (h.2 hq)⟩
  | command c => exact ⟨hw.below h.1, h.2⟩
  | done r => exact h

/-- A client may wait where its first question may. -/
theorem ClientPoint.of_waits {q : Query} {rest : List Query} {p : Point} (h : w.Waits q p) :
    w.ClientPoint (q :: rest) p := by
  cases p with
  | start | done r => exact h.elim
  | onCheck t | onIndex t | command c => exact ⟨q, rest, rfl, h⟩

/-- A client may stay where it stands while the world grows. -/
theorem ClientPoint.mono (hw : w.Grows w') {todo : List Query} {p : Point}
    (h : w.ClientPoint todo p) : w'.ClientPoint todo p := by
  cases p with
  | start => exact trivial
  | onCheck t | onIndex t | command c =>
    obtain ⟨q, rest, rfl, hwaits⟩ := h
    exact ⟨q, rest, rfl, hwaits.mono hw⟩
  | done r =>
    cases r with
    | ok a => exact trivial
    | error e =>
      obtain ⟨q, rest, rfl, hfail⟩ := h
      exact ⟨q, rest, rfl, hfail.mono hw⟩

/-- A result is there exactly if the thread has ended with it. -/
theorem result?_eq_some_iff {i : Nat} {r : Except Fault Answer} :
    w.result? i = some r ↔ ∃ job, w.threads[i]? = some ⟨job, .done r⟩ := by
  rw [result?]
  split
  · rename_i job r' hthread
    simp [hthread, eq_comm]
  · rename_i hother
    simp only [reduceCtorEq, false_iff, not_exists]
    exact fun job hjob ↦ hother job r hjob

theorem eq_of_checksAt {i : Nat} {p q : Point} (h : w.ChecksAt i p) (h' : w.ChecksAt i q) :
    p = q := by
  have := h.symm.trans h'
  simpa using this

theorem eq_of_buildsAt {i : Nat} {p q : Point} (h : w.BuildsAt i p) (h' : w.BuildsAt i q) :
    p = q := by
  have := h.symm.trans h'
  simpa using this

/-- A check that is not pending has ended. -/
theorem CheckPoint.pending_or_done {i : Nat} {p : Point} (h : w.CheckPoint i p) :
    w.CheckPending i ∨ ∃ r, p = .done r := by
  cases p with
  | start => exact Or.inl h
  | onCheck t | onIndex t => exact h.elim
  | command c => exact Or.inl h.2
  | done r => exact Or.inr ⟨r, rfl⟩

/-- A build that is not pending has ended. -/
theorem BuildPoint.pending_or_done {i : Nat} {p : Point} (h : w.BuildPoint i p) :
    w.BuildPending i ∨ ∃ r, p = .done r := by
  cases p with
  | start => exact Or.inl h
  | onCheck t => exact Or.inl h.1
  | onIndex t => exact h.elim
  | command c => exact Or.inl h.2.1
  | done r => exact Or.inr ⟨r, rfl⟩

/-- A check may stay where it stands while the world grows, provided that it stays pending. -/
theorem CheckPoint.mono (hw : w.Grows w') {i : Nat} {p : Point} (h : w.CheckPoint i p)
    (hpending : (∀ r, p ≠ .done r) → w.CheckPending i → w'.CheckPending i) :
    w'.CheckPoint i p := by
  cases p with
  | start => exact hpending (by simp) h
  | onCheck t | onIndex t => exact h
  | command c => exact ⟨h.1, hpending (by simp) h.2⟩
  | done r =>
    cases r with
    | ok a => exact hw.below h
    | error e => exact ⟨hw.refused h.1, hw.repo ▸ h.2⟩

/-- A build may stay where it stands while the world grows, provided that it stays pending, and that
a result nobody has fetched yet stays within reach. -/
theorem BuildPoint.mono (hw : w.Grows w') {i : Nat} {p : Point} (h : w.BuildPoint i p)
    (hpending : (∀ r, p ≠ .done r) → w.BuildPending i → w'.BuildPending i)
    (hkept : (∃ a, p = .done (.ok a)) → (w.index = none → w.build = some i) →
      w'.index = none → w'.build = some i) : w'.BuildPoint i p := by
  cases p with
  | start => exact hpending (by simp) h
  | onCheck t => exact ⟨hpending (by simp) h.1, hw.checksAt t h.2⟩
  | onIndex t => exact h
  | command c => exact ⟨h.1, hpending (by simp) h.2.1, hw.below h.2.2⟩
  | done r =>
    cases r with
    | ok a => exact ⟨h.1, hkept ⟨a, rfl⟩ h.2⟩
    | error e => exact h.imp (fun h ↦ ⟨hw.refused h.1, hw.repo ▸ h.2⟩) fun h ↦ ⟨hw.below h.1, h.2⟩

/-- A pending build is not a build that has ended. -/
theorem not_buildPending_of_done {t i : Nat} {r : Except Fault Answer} {p : Point}
    (hdone : w.BuildsAt t (.done r)) (hslot : w.build = some t) (hp : w.BuildsAt i p)
    (hpoint : ∀ r, p ≠ .done r) : ¬w.BuildPending i := by
  rintro ⟨hi, -⟩
  obtain rfl : t = i := Option.some.inj (hslot.symm.trans hi)
  exact hpoint r (eq_of_buildsAt hp hdone)

/-! ### Moves -/

/-- What may happen to a world while its threads stand where they are: someone new asks, or the
thread that goes on does one thing to what is shared, apart from running a command. -/
inductive Move (w : World) : World → Prop
  | ask (todo : List Query) : Move w (w.spawn (.client todo [])).1
  | rest : Move w { w with begun := [] }
  | note (level : Level) (message : String) : Move w (w.note level message)
  | tell (told : List (String × List Commit)) : Move w { w with told }
  | beginCheck (hbelow : w.below = none) (hrefused : w.refused = false) (hcheck : w.check = none) :
    Move w { (w.spawn .repoCheck).1 with check := some (w.spawn .repoCheck).2 }
  | leaveCheck {t : Nat} {r : Except Fault Answer} (hcheck : w.check = some t)
    (hdone : w.ChecksAt t (.done r)) : Move w { w with check := none }
  | beginBuild (hindex : w.index = none) (hbuild : w.build = none) :
    Move w { (w.spawn .indexBuild).1 with build := some (w.spawn .indexBuild).2 }
  | keepIndex {t : Nat} {x : LogIndex} (hdone : w.BuildsAt t (.done (.ok (.index x)))) :
    Move w { w with index := some x, build := none }
  | forgetBuild {t : Nat} {e : Fault} (hbuild : w.build = some t)
    (hdone : w.BuildsAt t (.done (.error e))) : Move w { w with build := none }

/-- A move leaves the threads as they are, and may begin another one. -/
theorem Move.threads (h : Move w w') :
    w'.threads = w.threads ∨ ∃ job, w'.threads = w.threads ++ [⟨job, .start⟩] := by
  cases h with
  | rest | note | tell | leaveCheck | keepIndex | forgetBuild => exact Or.inl rfl
  | ask | beginCheck | beginBuild => exact Or.inr ⟨_, rfl⟩

/-- A move leaves the threads where they are. -/
theorem Move.getElem? (h : Move w w') {i : Nat} {t : Thread} (ht : w.threads[i]? = some t) :
    w'.threads[i]? = some t := by
  obtain heq | ⟨job, heq⟩ := h.threads
  · rw [heq, ht]
  · obtain ⟨hi, -⟩ := List.getElem?_eq_some_iff.1 ht
    rw [heq, List.getElem?_append_left hi, ht]

/-- A move only adds to what is known and what has been run. -/
theorem Move.grows (h : Move w w') : w.Grows w' where
  repo := by cases h <;> rfl
  now := by cases h <;> rfl
  checksAt t := fun ⟨p, hp⟩ ↦ ⟨p, h.getElem? hp⟩
  buildsAt t := fun ⟨p, hp⟩ ↦ ⟨p, h.getElem? hp⟩
  below hb := by cases h <;> exact hb
  refused hr := by cases h <;> exact hr

theorem Move.below_eq (h : Move w w') : w'.below = w.below := by cases h <;> rfl

theorem Move.refused_eq (h : Move w w') : w'.refused = w.refused := by cases h <;> rfl

theorem Move.calls_eq (h : Move w w') : w'.calls = w.calls := by cases h <;> rfl

/-- A thread of a world with one more is an old one or the new one. -/
theorem getElem?_concat_eq_some {ts : List Thread} {t t' : Thread} {i : Nat}
    (h : (ts ++ [t])[i]? = some t') : ts[i]? = some t' ∨ (i = ts.length ∧ t' = t) := by
  rw [List.getElem?_append] at h
  split at h
  · exact Or.inl h
  · obtain ⟨hi, ht⟩ := List.getElem?_eq_some_iff.1 h
    rw [List.length_singleton] at hi
    refine Or.inr ⟨by omega, ?_⟩
    simpa using ht.symm

/-! ### Moves keep a world coherent -/

namespace Coherent

/-- Where nobody has begun a check that counts, there is none at all. -/
theorem not_checksAt (h : w.Coherent) (hbelow : w.below = none) (hrefused : w.refused = false)
    (hcheck : w.check = none) (i : Nat) (p : Point) : ¬w.ChecksAt i p := by
  intro hp
  have hpoint := h.checks hp
  rcases hpoint.pending_or_done with hpending | ⟨r, rfl⟩
  · rw [CheckPending, hcheck] at hpending
    exact absurd hpending.1 (by simp)
  · cases r with
    | ok a => simp [CheckPoint, hbelow] at hpoint
    | error e => simp [CheckPoint, hrefused] at hpoint

/-- Where no build is awaited and no index is kept, the builds there were have failed. -/
theorem exists_error_of_buildsAt (h : w.Coherent) (hindex : w.index = none)
    (hbuild : w.build = none) {i : Nat} {p : Point} (hp : w.BuildsAt i p) :
    ∃ e, p = .done (.error e) := by
  have hpoint := h.builds hp
  rcases hpoint.pending_or_done with hpending | ⟨r, rfl⟩
  · rw [BuildPending, hbuild] at hpending
    exact absurd hpending.1 (by simp)
  · cases r with
    | ok a =>
      have := hpoint.2 hindex
      rw [hbuild] at this
      exact absurd this (by simp)
    | error e => exact ⟨e, rfl⟩

/-- A move leaves every check at a point that fits it, be it a new one or an old one. -/
theorem checkPoint_move (h : w.Coherent) (hm : Move w w') {i : Nat} {p : Point}
    (hp : w'.ChecksAt i p) : w'.CheckPoint i p := by
  cases hm with
  | rest | note | tell | keepIndex | forgetBuild => exact h.checks hp
  | beginCheck hbelow hrefused hcheck =>
    rcases getElem?_concat_eq_some hp with hp | ⟨rfl, heq⟩
    · exact absurd hp (h.not_checksAt hbelow hrefused hcheck i p)
    · obtain rfl : p = .start := by simpa using heq
      exact ⟨rfl, hbelow, hrefused⟩
  | leaveCheck hcheck hdone =>
    refine (h.checks hp).mono (Move.leaveCheck hcheck hdone).grows fun hnot hpending ↦ ?_
    obtain rfl := Option.some.inj (hcheck.symm.trans hpending.1)
    exact absurd (eq_of_checksAt hp hdone) (hnot _)
  | ask | beginBuild =>
    rcases getElem?_concat_eq_some hp with hp | ⟨-, heq⟩
    · exact h.checks hp
    · simp at heq

/-- A move leaves every build at a point that fits it, be it a new one or an old one. -/
theorem buildPoint_move (h : w.Coherent) (hm : Move w w') {i : Nat} {p : Point}
    (hp : w'.BuildsAt i p) : w'.BuildPoint i p := by
  have hgrows := hm.grows
  cases hm with
  | rest | note | tell | leaveCheck => exact h.builds hp
  | ask | beginCheck =>
    rcases getElem?_concat_eq_some hp with hp | ⟨-, heq⟩
    · exact (h.builds hp).mono hgrows (fun _ ↦ id) fun _ ↦ id
    · simp at heq
  | beginBuild hindex hbuild =>
    rcases getElem?_concat_eq_some hp with hp | ⟨rfl, heq⟩
    · obtain ⟨e, rfl⟩ := h.exists_error_of_buildsAt hindex hbuild hp
      exact h.builds hp
    · obtain rfl : p = .start := by simpa using heq
      exact ⟨rfl, hindex⟩
  | keepIndex hdone =>
    -- a build that is still pending would have to be the one that has ended
    refine (h.builds hp).mono hgrows (fun hnot hpending ↦ ?_) fun _ _ hnone ↦ by simp at hnone
    have hslot := (h.builds hdone).2 hpending.2
    exact absurd hpending (not_buildPending_of_done hdone hslot hp hnot)
  | forgetBuild hslot hdone =>
    -- the slot named a build that has failed, so it named none that is pending or has succeeded
    refine (h.builds hp).mono hgrows (fun hnot hpending ↦ ?_) fun ⟨a, ha⟩ hkept hnone ↦ ?_
    · exact absurd hpending (not_buildPending_of_done hdone hslot hp hnot)
    · obtain rfl := Option.some.inj (hslot.symm.trans (hkept hnone))
      exact absurd (ha ▸ eq_of_buildsAt hp hdone) (by simp)

/-- No second check is begun while one counts. -/
theorem check_unique_move (h : w.Coherent) (hm : Move w w') {i j : Nat} {p q : Point}
    (hp : w'.ChecksAt i p) (hq : w'.ChecksAt j q) : i = j := by
  cases hm with
  | rest | note | tell | leaveCheck | keepIndex | forgetBuild => exact h.check_unique i j p q hp hq
  | beginCheck hbelow hrefused hcheck =>
    -- the new check is the only one
    have hnone := h.not_checksAt hbelow hrefused hcheck
    rcases getElem?_concat_eq_some hp with hp | ⟨rfl, -⟩
    · exact absurd hp (hnone i p)
    · rcases getElem?_concat_eq_some hq with hq | ⟨rfl, -⟩
      · exact absurd hq (hnone j q)
      · rfl
  | ask | beginBuild =>
    rcases getElem?_concat_eq_some hp with hp | ⟨-, heq⟩
    · rcases getElem?_concat_eq_some hq with hq | ⟨-, heq⟩
      · exact h.check_unique i j p q hp hq
      · simp at heq
    · simp at heq

/-- The slot for the check names a check after any move. -/
theorem check_slot_move (h : w.Coherent) (hm : Move w w') {t : Nat} (ht : w'.check = some t) :
    ∃ p, w'.ChecksAt t p := by
  have hgrows := hm.grows
  cases hm with
  | ask | rest | note | tell | beginBuild | keepIndex | forgetBuild =>
    exact hgrows.checksAt t (h.check_slot t ht)
  | beginCheck =>
    obtain rfl := Option.some.inj ht
    exact ⟨.start, by simp [ChecksAt, spawn]⟩
  | leaveCheck => simp at ht

/-- The slot for the build names a build after any move. -/
theorem build_slot_move (h : w.Coherent) (hm : Move w w') {t : Nat} (ht : w'.build = some t) :
    ∃ p, w'.BuildsAt t p := by
  have hgrows := hm.grows
  cases hm with
  | ask | rest | note | tell | beginCheck | leaveCheck =>
    exact hgrows.buildsAt t (h.build_slot t ht)
  | beginBuild =>
    obtain rfl := Option.some.inj ht
    exact ⟨.start, by simp [BuildsAt, spawn]⟩
  | keepIndex | forgetBuild => simp at ht

/-- A move leaves every client at a point that fits it: what a client waits for does not go away. -/
theorem clientPoint_move (h : w.Coherent) (hm : Move w w') {i : Nat} {todo : List Query}
    {got : List Answer} {p : Point} (hp : w'.threads[i]? = some ⟨.client todo got, p⟩) :
    w'.ClientPoint todo p := by
  obtain heq | ⟨job, heq⟩ := hm.threads
  · exact (h.clients (heq ▸ hp)).mono hm.grows
  · rcases getElem?_concat_eq_some (heq ▸ hp) with hp | ⟨-, heq⟩
    · exact (h.clients hp).mono hm.grows
    · obtain rfl : p = .start := (Thread.mk.inj heq).2
      exact trivial

/-- **A move keeps a world coherent.** Each part of what is coherent has been looked at by itself
above. -/
theorem move (h : w.Coherent) (hm : Move w w') : w'.Coherent where
  check_unique _ _ _ _ hp hq := h.check_unique_move hm hp hq
  check_slot _ ht := h.check_slot_move hm ht
  build_slot _ ht := h.build_slot_move hm ht
  not_refused := by
    rw [hm.below_eq, hm.refused_eq]
    exact h.not_refused
  calls_unknown := by
    rw [hm.below_eq, hm.refused_eq, hm.calls_eq]
    exact h.calls_unknown
  calls_refused := by
    rw [hm.refused_eq, hm.calls_eq]
    exact h.calls_refused
  calls_known := by
    rw [hm.below_eq, hm.calls_eq]
    exact h.calls_known
  fits i t ht := by
    rcases t with ⟨_ | _ | _, p⟩
    · exact h.clientPoint_move hm ht
    · exact h.checkPoint_move hm ht
    · exact h.buildPoint_move hm ht

end Coherent

/-- Any number of moves, one after the other. -/
abbrev Moves : World → World → Prop := Relation.ReflTransGen Move

namespace Moves

/-- Any number of moves keeps a world coherent. -/
theorem coherent (hm : Moves w w') (h : w.Coherent) : w'.Coherent := by
  induction hm with
  | refl => exact h
  | tail _ hm ih => exact ih.move hm

/-- A world grows by any number of moves. -/
theorem grows (hm : Moves w w') : w.Grows w' := by
  induction hm with
  | refl => exact .refl w
  | tail _ hm ih => exact ih.trans hm.grows

/-- Threads stand where they stood after any number of moves. -/
theorem getElem? (hm : Moves w w') {i : Nat} {t : Thread} (ht : w.threads[i]? = some t) :
    w'.threads[i]? = some t := by
  induction hm with
  | refl => exact ht
  | tail _ hm ih => exact hm.getElem? ih

theorem below_eq (hm : Moves w w') : w'.below = w.below := by
  induction hm with
  | refl => rfl
  | tail _ hm ih => rw [hm.below_eq, ih]

theorem refused_eq (hm : Moves w w') : w'.refused = w.refused := by
  induction hm with
  | refl => rfl
  | tail _ hm ih => rw [hm.refused_eq, ih]

/-- Moves run no commands, however many there are. -/
theorem calls_eq (hm : Moves w w') : w'.calls = w.calls := by
  induction hm with
  | refl => rfl
  | tail _ hm ih => rw [hm.calls_eq, ih]

end Moves

/-! ### A thread comes to another point -/

/-- Jobs between which a thread may change while it goes on. -/
def SameKind : Job → Job → Prop
  | .client _ _, .client _ _ | .repoCheck, .repoCheck | .indexBuild, .indexBuild => True
  | _, _ => False

theorem SameKind.eq_repoCheck {job : Job} (h : SameKind .repoCheck job) : job = .repoCheck := by
  cases job with
  | repoCheck => rfl
  | client | indexBuild => cases h

theorem SameKind.eq_indexBuild {job : Job} (h : SameKind .indexBuild job) : job = .indexBuild := by
  cases job with
  | indexBuild => rfl
  | client | repoCheck => cases h

section SetThread

variable {i : Nat} {t t' : Thread}

/-- The thread that is set stands at its new point, and the others where they stood. -/
theorem getElem?_setThread (ht : w.threads[i]? = some t) (j : Nat) :
    (w.setThread i t').threads[j]? = if j = i then some t' else w.threads[j]? := by
  obtain ⟨hi, -⟩ := List.getElem?_eq_some_iff.1 ht
  rw [setThread, List.getElem?_set]
  by_cases hj : j = i
  · subst hj
    simp [hi]
  · simp [hj, Ne.symm hj]

theorem setThread_self (ht : w.threads[i]? = some t) : w.setThread i t = w := by
  obtain ⟨hi, rfl⟩ := List.getElem?_eq_some_iff.1 ht
  rw [setThread, List.set_getElem_self]

/-- Whoever does the only job of its kind goes on with it. -/
theorem exists_point_setThread (ht : w.threads[i]? = some t) (hkind : SameKind t.job t'.job)
    {job : Job} (hjob : ∀ job', SameKind job job' → job' = job) {j : Nat}
    (h : ∃ p, w.threads[j]? = some ⟨job, p⟩) :
    ∃ p, (w.setThread i t').threads[j]? = some ⟨job, p⟩ := by
  obtain ⟨p, hp⟩ := h
  simp only [getElem?_setThread ht]
  split
  · rename_i hj
    subst hj
    obtain rfl := Option.some.inj (ht.symm.trans hp)
    obtain rfl := hjob _ hkind
    exact ⟨t'.point, rfl⟩
  · exact ⟨p, hp⟩

/-- A world grows when a thread of it comes to another point, with a job of the same kind. -/
theorem setThread_grows (ht : w.threads[i]? = some t) (hkind : SameKind t.job t'.job) :
    w.Grows (w.setThread i t') where
  repo := rfl
  now := rfl
  checksAt _ := exists_point_setThread ht hkind fun _ ↦ SameKind.eq_repoCheck
  buildsAt _ := exists_point_setThread ht hkind fun _ ↦ SameKind.eq_indexBuild
  below := id
  refused := id

/-- Who is found to check after a thread has been set has checked before. -/
theorem exists_checksAt_of_setThread (ht : w.threads[i]? = some t)
    (hkind : SameKind t.job t'.job) {j : Nat} {p : Point} (hp : (w.setThread i t').ChecksAt j p) :
    ∃ q, w.ChecksAt j q := by
  rw [ChecksAt, getElem?_setThread ht] at hp
  split at hp
  · rename_i hj
    subst hj
    obtain rfl := Option.some.inj hp
    rcases t with ⟨_ | _ | _, q⟩
    · exact hkind.elim
    · exact ⟨q, ht⟩
    · exact hkind.elim
  · exact ⟨p, hp⟩

/-- A thread fits its point in a world that has grown, if what is shared is the same. -/
theorem Fits.mono (hw : w.Grows w') (hcheck : w'.check = w.check) (hbelow : w'.below = w.below)
    (hrefused : w'.refused = w.refused) (hbuild : w'.build = w.build)
    (hindex : w'.index = w.index) {j : Nat} (h : w.Fits j t) : w'.Fits j t := by
  rcases t with ⟨_ | _ | _, p⟩
  · exact ClientPoint.mono hw h
  · refine CheckPoint.mono hw h fun _ hpending ↦ ?_
    rwa [CheckPending, hcheck, hbelow, hrefused]
  · refine BuildPoint.mono hw h (fun _ hpending ↦ ?_) fun _ hkept ↦ ?_
    · rwa [BuildPending, hbuild, hindex]
    · rwa [hbuild, hindex]

/-- A thread that comes to a point that fits leaves a world coherent in which all others stood at
points that fit. -/
theorem Settled.setThread (h : w.Settled) (ht : w.threads[i]? = some t)
    (hkind : SameKind t.job t'.job)
    (hothers : ∀ j s, j ≠ i → w.threads[j]? = some s → w.Fits j s) (hfits : w.Fits i t') :
    (w.setThread i t').Coherent where
  check_unique j k p q hp hq := by
    obtain ⟨p', hp'⟩ := exists_checksAt_of_setThread ht hkind hp
    obtain ⟨q', hq'⟩ := exists_checksAt_of_setThread ht hkind hq
    exact h.check_unique j k p' q' hp' hq'
  check_slot j hj := (setThread_grows ht hkind).checksAt j (h.check_slot j hj)
  build_slot j hj := (setThread_grows ht hkind).buildsAt j (h.build_slot j hj)
  not_refused := h.not_refused
  calls_unknown := h.calls_unknown
  calls_refused := h.calls_refused
  calls_known := h.calls_known
  fits j s hs := by
    rw [getElem?_setThread ht] at hs
    split at hs
    · rename_i hj
      subst hj
      obtain rfl := Option.some.inj hs
      exact hfits.mono (setThread_grows ht hkind) rfl rfl rfl rfl rfl
    · rename_i hj
      exact (hothers j s hj hs).mono (setThread_grows ht hkind) rfl rfl rfl rfl rfl

/-- **A thread that comes to a point that fits it leaves a coherent world coherent.** -/
theorem Coherent.setThread (h : w.Coherent) (ht : w.threads[i]? = some t)
    (hkind : SameKind t.job t'.job) (hfits : w.Fits i t') : (w.setThread i t').Coherent :=
  h.toSettled.setThread ht hkind (fun j s _ hs ↦ h.fits j s hs) hfits

end SetThread

end World

end RepoSurvey.History
