import Mathlib.Algebra.GroupWithZero.Nat
import RepoSurvey.Proofs.History.Runs

/-!
# Questions come to an end

A thread can go on if it has not ended and does not wait for a thread that has not ended
(`World.canGoOn`). This module is about what a history does when threads that can go on do so, in
whatever order.

`World.effort` bounds the turns that are still to be taken. What a thread begins is paid for by the
turn in which it begins it: a question that waits for the check may yet begin a build and wait for
it, so it counts more than both; a build may begin a check. Each operation begins threads at a cost
that is stated beside it (`World.Begins`), from `begins_enterCheck` up to `costs_clientFrom`; so a
thread that goes on spends some of its effort (`spends_advance`), every turn of a thread that can go
on lowers that of its world (`effort_resume_lt`), and a run takes no more turns than the questions
that are asked in it allow (`turnsTaken_le`).

Nobody waits for ever either: as long as a client has not ended, some thread can go on
(`Coherent.exists_canGoOn`). Clients wait for the check and the build, the build waits for the
check, and the check waits for nobody.
-/

namespace RepoSurvey.History

/-! ### Effort -/

/-- The turns that a question takes from a point on, with those of the threads it may begin. -/
def Point.effort : Point → Nat
  | .start => 11
  -- it may begin a build, which takes five, and wait for it, which takes two
  | .onCheck _ => 8
  -- it may read the log of one file after this turn
  | .onIndex _ => 2
  | .command _ => 1
  | .done _ => 0

/-- The turns that a thread may take, with those of the threads it may begin. -/
def Thread.effort : Thread → Nat
  | ⟨_, .done _⟩ => 0
  | ⟨.client todo _, .start⟩ => 10 * todo.length + 1
  | ⟨.client todo _, p⟩ => p.effort + 10 * todo.tail.length
  | ⟨.repoCheck, .start⟩ => 2
  -- it may begin a check, which takes two, and wait for it, which takes two
  | ⟨.indexBuild, .start⟩ => 5
  | ⟨_, .onCheck _⟩ => 2
  | ⟨_, _⟩ => 1

/-- The turns that a thread may take that begins to do something. -/
def Job.effort (job : Job) : Nat := Thread.effort ⟨job, .start⟩

/-- A client that stands at a point of its first question has this question to finish, and ten turns
at most for each of the others. -/
theorem Thread.effort_client_le (q : Query) (todo : List Query) (got : List Answer) (p : Point) :
    Thread.effort ⟨.client (q :: todo) got, p⟩ ≤ p.effort + 10 * todo.length := by
  cases p with
  | start =>
    rw [Thread.effort, Point.effort, List.length_cons]
    omega
  | onCheck | onIndex | command => exact Nat.le_refl _
  | done => exact Nat.zero_le _

namespace World

variable {w w' w'' : World} {i : Nat} {outcome : Outcome}

/-- How much a question that has made progress may still cost. -/
def Progress.effort : Progress → Nat
  | .waits p => p.effort
  | .answered _ | .failed _ => 0

/-- The turns that the threads of a world may take. -/
def effort (w : World) : Nat := (w.threads.map Thread.effort).sum

/-! ### Threads that are begun -/

/-- Threads have been begun that may take `n` turns, and are noted as begun; those that were there
stand where they stood. -/
def Begins (w : World) (n : Nat) (w' : World) : Prop :=
  ∃ jobs : List Job, w'.threads = w.threads ++ jobs.map (Thread.mk · .start) ∧
    w'.begun.reverse = w.begun.reverse ++ List.range' w.threads.length jobs.length ∧
    (jobs.map Job.effort).sum ≤ n

/-- Nothing is begun where the threads and what is noted as begun stay the same. -/
theorem begins_of_eq (hthreads : w'.threads = w.threads) (hbegun : w'.begun = w.begun) (n : Nat) :
    w.Begins n w' :=
  ⟨[], by simpa using hthreads, by simp [hbegun], Nat.zero_le n⟩

theorem Begins.refl (w : World) (n : Nat) : w.Begins n w := begins_of_eq rfl rfl n

/-- What is begun in one step and in the next one is begun in both. -/
theorem Begins.trans {m n : Nat} (h : w.Begins m w') (h' : w'.Begins n w'') :
    w.Begins (m + n) w'' := by
  obtain ⟨jobs, hthreads, hbegun, hle⟩ := h
  obtain ⟨jobs', hthreads', hbegun', hle'⟩ := h'
  refine ⟨jobs ++ jobs', ?_, ?_, ?_⟩
  · rw [hthreads', hthreads, List.map_append, List.append_assoc]
  · rw [hbegun', hbegun, hthreads, List.length_append, List.length_map, List.length_append,
      List.append_assoc, List.range'_append_1]
  · rw [List.map_append, List.sum_append]
    exact Nat.add_le_add hle hle'

theorem begins_spawn (w : World) (job : Job) : w.Begins job.effort (w.spawn job).1 :=
  ⟨[job], rfl, by simp [spawn], by simp⟩

/-- What has been begun is added to the effort. -/
theorem Begins.effort_le {n : Nat} (h : w.Begins n w') : w'.effort ≤ w.effort + n := by
  obtain ⟨jobs, hthreads, -, hle⟩ := h
  rw [effort, hthreads, List.map_append, List.sum_append, List.map_map]
  exact Nat.add_le_add_left hle _

/-- A thread rests at a point when it runs a command next, waits for a thread that has not ended, or
has ended itself. -/
def Rests (w : World) : Point → Prop
  | .start => False
  | .onCheck s | .onIndex s => w.result? s = none
  | .command _ | .done _ => True

/-! ### What operations begin -/

/-- To hear of a check that has ended begins nothing. -/
theorem begins_leaveCheck (w : World) (t : Nat) (r : Except Fault Answer) :
    w.Begins 0 (w.leaveCheck t r).1 := by
  refine begins_of_eq ?_ ?_ 0
  all_goals
    by_cases hslot : w.check = some t
    · cases r <;> rw [leaveCheck, if_pos hslot]
    · cases r <;> rw [leaveCheck, if_neg hslot]

/-- Who hears of a check that has ended does not wait for it any more. -/
theorem leaveCheck_ne_wait (w : World) (t : Nat) (r : Except Fault Answer) (s : Nat) :
    (w.leaveCheck t r).2 ≠ .wait s := by
  cases r <;> simp [leaveCheck]

theorem begins_leaveIndex (w : World) (t : Nat) (r : Except Fault Answer) :
    w.Begins 0 (w.leaveIndex t r).1 := by
  rcases r with e | a
  · rw [leaveIndex]
    split
    · dsimp only
      split <;> exact begins_of_eq rfl rfl 0
    · exact .refl w 0
  · cases a <;> exact begins_of_eq rfl rfl 0

/-- Who hears of a build that has ended does not wait for it any more. -/
theorem leaveIndex_ne_wait (w : World) (t : Nat) (r : Except Fault Answer) (s : Nat) :
    (w.leaveIndex t r).2 ≠ .wait s := by
  rcases r with e | a
  · rw [leaveIndex]
    split <;> simp
  · cases a <;> simp [leaveIndex]

section Await

/-! Waiting for the check and waiting for the index differ only in what `leave` does with the result
of the thread that has ended. -/

variable {α : Type} {leave : World → Nat → Except Fault Answer → World × Awaited α}

/-- Waiting for a thread begins nothing, whether it has ended or not. -/
theorem begins_await (hleave : ∀ (w : World) t r, w.Begins 0 (leave w t r).1) (w : World)
    (t : Nat) : w.Begins 0 (match w.result? t with
      | some result => leave w t result
      | none => (w, .wait t)).1 := by
  split
  · exact hleave w t _
  · exact .refl w 0

/-- Who has to wait for a thread waits for one that has not ended. -/
theorem result?_of_await (hleave : ∀ w t r s, (leave w t r).2 ≠ .wait s) {t s : Nat}
    (h : (match w.result? t with
      | some result => leave w t result
      | none => (w, .wait t)).2 = .wait s) :
    (match w.result? t with
      | some result => leave w t result
      | none => (w, .wait t)).1.result? s = none := by
  rcases hr : w.result? t with - | r
  · rw [hr] at h
    obtain rfl := Awaited.wait.inj h
    exact hr
  · rw [hr] at h
    exact absurd h (hleave w t r s)

end Await

/-- Asking for the check may begin it. -/
theorem begins_enterCheck (w : World) : w.Begins 2 w.enterCheck.1 := by
  rw [enterCheck]
  split
  · exact .refl w 2
  split
  · exact .refl w 2
  rcases w.check with - | t
  · have hspawn : w.Begins 2 { (w.spawn .repoCheck).1 with check := some w.threads.length } :=
      begins_spawn w .repoCheck
    exact hspawn.trans (begins_await begins_leaveCheck _ _)
  · exact (Begins.refl w 2).trans (begins_await begins_leaveCheck w t)

/-- Asking for the index may begin a build. -/
theorem begins_enterIndex (w : World) : w.Begins 5 w.enterIndex.1 := by
  rw [enterIndex]
  split
  · exact .refl w 5
  rcases w.build with - | t
  · have hspawn : w.Begins 5 { (w.spawn .indexBuild).1 with build := some w.threads.length } :=
      begins_spawn w .indexBuild
    exact hspawn.trans (begins_await begins_leaveIndex _ _)
  · exact (Begins.refl w 5).trans (begins_await begins_leaveIndex w t)

/-- Whoever waits for the check waits for a thread that has not ended. -/
theorem result?_of_enterCheck {s : Nat} (h : w.enterCheck.2 = .wait s) :
    w.enterCheck.1.result? s = none := by
  rw [enterCheck] at h ⊢
  split at h
  · cases h
  split at h
  · cases h
  rename_i hbelow hrefused
  rw [if_neg hbelow, if_neg hrefused]
  rcases hslot : w.check with - | t <;> rw [hslot] at h
  · exact result?_of_await leaveCheck_ne_wait h
  · exact result?_of_await leaveCheck_ne_wait h

/-- Whoever waits for the build waits for a thread that has not ended. -/
theorem result?_of_enterIndex {s : Nat} (h : w.enterIndex.2 = .wait s) :
    w.enterIndex.1.result? s = none := by
  rw [enterIndex] at h ⊢
  rcases hindex : w.index with - | x <;> rw [hindex] at h
  · rcases hslot : w.build with - | t <;> rw [hslot] at h
    · exact result?_of_await leaveIndex_ne_wait h
    · exact result?_of_await leaveIndex_ne_wait h
  · cases h

/-- To look up the commits of a key in the index begins nothing. -/
theorem begins_commitsFor (w : World) (key : String) (x : LogIndex) :
    w.Begins 0 (w.commitsFor key x).1 := by
  rw [commitsFor]
  split
  · exact .refl w 0
  · split <;> exact begins_of_eq rfl rfl 0

/-! ### What questions cost -/

/-- Where a question rests that has made progress. -/
def Progress.Rests (w : World) : Progress → Prop
  | .waits p => w.Rests p
  | .answered _ | .failed _ => True

/-- A question that has made progress has begun threads, and may still begin some, at a cost of
`n` turns in all, and rests. -/
def Costs (w : World) (n : Nat) (go : World × Progress) : Prop :=
  ∃ m, w.Begins m go.1 ∧ m + go.2.effort ≤ n ∧ go.2.Rests go.1

/-- Costs are bounds, so they may be raised. -/
theorem Costs.mono {m n : Nat} {go : World × Progress} (h : w.Costs m go) (hle : m ≤ n) :
    w.Costs n go := by
  obtain ⟨k, hbegins, hk, hrests⟩ := h
  exact ⟨k, hbegins, Nat.le_trans hk hle, hrests⟩

/-- What has been begun before a question goes on is added to its costs. -/
theorem Costs.after {m n : Nat} {go : World × Progress} (h : w'.Costs n go) (hw : w.Begins m w') :
    w.Costs (m + n) go := by
  obtain ⟨k, hbegins, hk, hrests⟩ := h
  exact ⟨m + k, hw.trans hbegins, by omega, hrests⟩

/-- A question that has been answered, or has failed, costs nothing more. -/
theorem costs_answered {n : Nat} (h : w.Begins n w') (a : Answer) :
    w.Costs n (w', .answered a) :=
  ⟨n, h, Nat.le_refl n, trivial⟩

theorem costs_failed {n : Nat} (h : w.Begins n w') (e : Fault) : w.Costs n (w', .failed e) :=
  ⟨n, h, Nat.le_refl n, trivial⟩

/-- A question that runs a command has one more turn to take. -/
theorem costs_command {n : Nat} (h : w.Begins n w') (c : Command) :
    w.Costs (n + 1) (w', .waits (.command c)) :=
  ⟨n, h, Nat.le_refl (n + 1), trivial⟩

/-- A question that knows of the index, or that it cannot be had, runs one command at most. -/
theorem costs_afterIndex (w : World) (q : Query) {x : Awaited LogIndex} (hx : ∀ t, x ≠ .wait t) :
    w.Costs 1 (w.afterIndex q x) := by
  cases x with
  | wait t => exact absurd rfl (hx t)
  | failed e =>
    rcases hpath : historyPath? q with - | path
    · simp only [afterIndex, hpath]
      split
      · exact costs_answered (.refl w 1) _
      · exact costs_failed (.refl w 1) e
    · simp only [afterIndex, hpath, fileWithoutIndex]
      split
      · exact costs_command (begins_of_eq rfl rfl 0) _
      · exact costs_failed (.refl w 1) e
  | ready x =>
    cases q with
    | together path threshold =>
      have hbegins := begins_commitsFor w (keyOf w.repo (keyOf w.repo path)) x
      rcases hfor : w.commitsFor (keyOf w.repo (keyOf w.repo path)) x with ⟨w', cs⟩
      rw [hfor] at hbegins
      simp only [afterIndex, hfor]
      exact (costs_answered hbegins _).mono (Nat.zero_le 1)
    | recent days =>
      rcases hsince : cutoff w.now days with fault | since
      · simp only [afterIndex, hsince]
        exact costs_failed (.refl w 1) _
      · simp only [afterIndex, hsince]
        exact costs_answered (.refl w 1) _
    | check | tracked => exact costs_answered (.refl w 1) _
    | history | ownership | frequency =>
      simp only [afterIndex, historyPath?, fileFromIndex]
      exact costs_answered (begins_of_eq rfl rfl 1) _

/-- A question that asks for the index may begin a build, wait for it and run a command of its own:
seven turns. -/
theorem costs_enterIndex_afterIndex (w : World) (q : Query) :
    w.Costs 7 (w.enterIndex.1.afterIndex q w.enterIndex.2) := by
  have henter := begins_enterIndex w
  by_cases hwait : ∃ t, w.enterIndex.2 = .wait t
  · obtain ⟨t, ht⟩ := hwait
    have hrests := result?_of_enterIndex ht
    rw [ht]
    exact ⟨5, henter, Nat.le_refl 7, hrests⟩
  · have hafter := costs_afterIndex w.enterIndex.1 q fun t ht ↦ hwait ⟨t, ht⟩
    exact (hafter.after henter).mono (Nat.le_succ 6)

/-- A question that knows of the check may wait for a build that it begins. -/
theorem costs_afterCheck (w : World) (q : Query) {c : Awaited Unit} (hc : ∀ t, c ≠ .wait t) :
    w.Costs 7 (w.afterCheck q c) := by
  cases c with
  | wait t => exact absurd rfl (hc t)
  | failed e =>
    cases q with
    | check => exact costs_failed (.refl w 7) e
    | history | ownership | frequency | together | recent | tracked =>
      simp only [afterCheck]
      split
      · exact costs_answered (.refl w 7) _
      · exact costs_failed (.refl w 7) e
  | ready =>
    cases q with
    | check | together | recent => exact costs_answered (.refl w 7) _
    | tracked => exact costs_command (.refl w 6) _
    | history path | ownership path | frequency path =>
      simp only [afterCheck, historyPath?]
      split
      · exact costs_answered (.refl w 7) _
      split
      · exact costs_answered (.refl w 7) _
      · exact costs_enterIndex_afterIndex w _

/-- A question that asks for the check may begin it, wait for it, and ask for the index then: ten
turns. -/
theorem costs_enterCheck_afterCheck (w : World) (q : Query) :
    w.Costs 10 (w.enterCheck.1.afterCheck q w.enterCheck.2) := by
  have henter := begins_enterCheck w
  by_cases hwait : ∃ t, w.enterCheck.2 = .wait t
  · obtain ⟨t, ht⟩ := hwait
    have hrests := result?_of_enterCheck ht
    rw [ht]
    exact ⟨2, henter, Nat.le_refl 10, hrests⟩
  · have hafter := costs_afterCheck w.enterCheck.1 q fun t ht ↦ hwait ⟨t, ht⟩
    exact (hafter.after henter).mono (Nat.le_succ 9)

/-- So ten turns are enough for any question. -/
theorem costs_beginQuery (w : World) (q : Query) : w.Costs 10 (w.beginQuery q) := by
  cases q with
  | together path threshold =>
    simp only [beginQuery]
    split
    · exact costs_answered (.refl w 10) _
    · exact (costs_enterIndex_afterIndex w _).mono (Nat.le_add_right 7 3)
  | recent days => exact (costs_enterIndex_afterIndex w _).mono (Nat.le_add_right 7 3)
  | check | history | ownership | frequency | tracked => exact costs_enterCheck_afterCheck w _

/-- A question whose command has ended has its answer, and costs nothing more. -/
theorem costs_afterCommand (w : World) (q : Query) (c : Command) (outcome : Outcome) :
    w.Costs 0 (w.afterCommand q c outcome) := by
  cases outcome with
  | ok output => cases c <;> exact costs_answered (begins_of_eq rfl rfl 0) _
  | error fault =>
    cases c with
    | showPrefix | fullLog | fileLog | listFiles =>
      simp only [afterCommand]
      split
      · exact costs_answered (begins_of_eq rfl rfl 0) _
      · exact costs_failed (begins_of_eq rfl rfl 0) _

/-! ### What threads spend -/

/-- A thread that has gone on has begun others, and may go on itself, at a cost of `n` turns in
all, and rests. -/
def CostsThread (w : World) (n : Nat) (go : World × Thread) : Prop :=
  ∃ m, w.Begins m go.1 ∧ m + go.2.effort ≤ n ∧ go.1.Rests go.2.point

/-- Beginning questions costs ten turns for each. -/
theorem costs_clientFrom (w : World) (todo : List Query) (got : List Answer) :
    w.CostsThread (10 * todo.length) (w.clientFrom todo got) := by
  induction todo generalizing w got with
  | nil => exact ⟨0, .refl w 0, Nat.le_refl 0, trivial⟩
  | cons q todo ih =>
    obtain ⟨m, hbegins, hm, hrests⟩ := costs_beginQuery w q
    rw [clientFrom, List.length_cons]
    rcases hq : w.beginQuery q with ⟨w', a | e | p⟩ <;> rw [hq] at hbegins hm hrests
    · obtain ⟨n, hbegins', hn, hrests'⟩ := ih w' (a :: got)
      simp only [Progress.effort] at hm
      exact ⟨m + n, hbegins.trans hbegins', by dsimp only; omega, hrests'⟩
    · simp only [Progress.effort] at hm
      exact ⟨m, hbegins, by show m + 0 ≤ _; omega, trivial⟩
    · have hle := Thread.effort_client_le q todo got p
      simp only [Progress.effort] at hm
      exact ⟨m, hbegins, by dsimp only; omega, hrests⟩

/-- A client whose question has made progress goes on with it, or with the questions behind it. -/
theorem costs_clientAfter {n : Nat} {go : World × Progress} (h : w.Costs n go) (q : Query)
    (todo : List Query) (got : List Answer) :
    w.CostsThread (n + 10 * todo.length) (clientAfter q todo got go) := by
  obtain ⟨m, hbegins, hm, hrests⟩ := h
  rcases go with ⟨w', a | e | p⟩
  · obtain ⟨k, hbegins', hk, hrests'⟩ := costs_clientFrom w' todo (a :: got)
    simp only [Progress.effort] at hm
    exact ⟨m + k, hbegins.trans hbegins', by dsimp only [clientAfter]; omega, hrests'⟩
  · simp only [Progress.effort] at hm
    exact ⟨m, hbegins, by show m + 0 ≤ _; omega, trivial⟩
  · have hle := Thread.effort_client_le q todo got p
    simp only [Progress.effort] at hm
    exact ⟨m, hbegins, by dsimp only [clientAfter]; omega, hrests⟩

/-- Whether a thread that stands at a point can go on. -/
def isReady (w : World) : Point → Bool
  | .start | .command _ => true
  | .onCheck t | .onIndex t => (w.result? t).isSome
  | .done _ => false

/-- Whether a thread can go on. -/
def canGoOn (w : World) (i : Nat) : Bool :=
  match w.threads[i]? with
  | some t => w.isReady t.point
  | none => false

theorem canGoOn_eq {t : Thread} (ht : w.threads[i]? = some t) :
    w.canGoOn i = w.isReady t.point := by
  simp [canGoOn, ht]

/-- A thread that can go on is there, and stands at a point where it can. -/
theorem exists_of_canGoOn (h : w.canGoOn i = true) :
    ∃ t, w.threads[i]? = some t ∧ w.isReady t.point = true := by
  rcases ht : w.threads[i]? with - | t
  · simp [canGoOn, ht] at h
  · exact ⟨t, rfl, (canGoOn_eq ht).symm.trans h⟩

/-- A thread that has gone on has less ahead of it than before, with what it has begun, and
rests. -/
def Spends (w : World) (t : Thread) (go : World × Thread) : Prop :=
  ∃ m, w.Begins m go.1 ∧ m + go.2.effort < t.effort ∧ go.1.Rests go.2.point

/-- A thread that goes on at a cost below what it might still cost has spent some of its effort. -/
theorem CostsThread.spends {n : Nat} {t : Thread} {go : World × Thread} (h : w.CostsThread n go)
    (hn : n < t.effort) : w.Spends t go := by
  obtain ⟨m, hbegins, hm, hrests⟩ := h
  exact ⟨m, hbegins, by omega, hrests⟩

/-- A client that stands at a question has this question before it. -/
theorem exists_cons_of_clientPoint {todo : List Query} {p : Point} (h : w.ClientPoint todo p)
    (hstart : p ≠ .start) (hready : w.isReady p = true) : ∃ q rest, todo = q :: rest := by
  cases p with
  | start => exact absurd rfl hstart
  | onCheck | onIndex | command =>
    obtain ⟨q, rest, rfl, -⟩ := h
    exact ⟨q, rest, rfl⟩
  | done r => simp [isReady] at hready

/-- A client that stands at a question goes on with it, at a cost below what it may still cost. -/
theorem exists_costs_advance {p : Point} (hstart : p ≠ .start) (hready : w.isReady p = true)
    (q : Query) (rest : List Query) (got : List Answer) (outcome : Outcome) :
    ∃ go n, w.advance ⟨.client (q :: rest) got, p⟩ outcome = clientAfter q rest got go ∧
      w.Costs n go ∧ n ≤ 7 ∧ n + 10 * rest.length < Thread.effort ⟨.client (q :: rest) got, p⟩ := by
  cases p with
  | start => exact absurd rfl hstart
  | onCheck s =>
    obtain ⟨r, hr⟩ := Option.isSome_iff_exists.1 hready
    have hafter := (costs_afterCheck (w.leaveCheck s r).1 q (leaveCheck_ne_wait w s r)).after
      (begins_leaveCheck w s r)
    refine ⟨_, 0 + 7, by simp only [advance, hr], hafter, by omega, ?_⟩
    show 0 + 7 + 10 * rest.length < 8 + 10 * rest.length
    omega
  | onIndex s =>
    obtain ⟨r, hr⟩ := Option.isSome_iff_exists.1 hready
    have hafter := (costs_afterIndex (w.leaveIndex s r).1 q (leaveIndex_ne_wait w s r)).after
      (begins_leaveIndex w s r)
    refine ⟨_, 0 + 1, by simp only [advance, hr], hafter, by omega, ?_⟩
    show 0 + 1 + 10 * rest.length < 2 + 10 * rest.length
    omega
  | command c =>
    have hafter := (costs_afterCommand (w.call c) q c outcome).after
      (begins_of_eq (w := w) rfl rfl 0)
    refine ⟨_, 0 + 0, rfl, hafter, by omega, ?_⟩
    show 0 + 0 + 10 * rest.length < 1 + 10 * rest.length
    omega
  | done r => simp [isReady] at hready

/-- A client that goes on spends effort, whatever the outcome of its command. -/
theorem spends_client (h : w.Coherent) {todo : List Query} {got : List Answer} {p : Point}
    (hthread : w.threads[i]? = some ⟨.client todo got, p⟩) (hready : w.isReady p = true)
    (outcome : Outcome) :
    w.Spends ⟨.client todo got, p⟩ (w.advance ⟨.client todo got, p⟩ outcome) := by
  by_cases hstart : p = .start
  · subst hstart
    exact (costs_clientFrom w todo got).spends (Nat.lt_succ_self _)
  · obtain ⟨q, rest, rfl⟩ := exists_cons_of_clientPoint (h.clients hthread) hstart hready
    obtain ⟨go, n, hgo, hcosts, -, hlt⟩ := exists_costs_advance hstart hready q rest got outcome
    rw [hgo]
    exact (costs_clientAfter hcosts q rest got).spends hlt

theorem begins_endCheck (w : World) (outcome : Outcome) : w.Begins 0 (w.endCheck outcome).1 := by
  cases outcome with
  | ok output => exact begins_of_eq rfl rfl 0
  | error fault =>
    simp only [endCheck]
    split <;> exact begins_of_eq rfl rfl 0

theorem begins_endBuild (w : World) (outcome : Outcome) : w.Begins 0 (w.endBuild outcome).1 := by
  cases outcome with
  | ok log =>
    obtain ⟨told, htold⟩ := exists_tellAll_eq w (parseLog (w.below.getD "") log).fileCommits
    simp only [endBuild, htold]
    exact begins_of_eq rfl rfl 0
  | error fault => exact .refl w 0

/-- The check spends its one turn in ending. -/
theorem spends_check (h : w.Coherent) {p : Point} (hthread : w.ChecksAt i p)
    (hready : w.isReady p = true) (outcome : Outcome) :
    w.Spends ⟨.repoCheck, p⟩ (w.advance ⟨.repoCheck, p⟩ outcome) := by
  have hpoint := h.checks hthread
  cases p with
  | start => exact ⟨0, .refl w 0, Nat.lt_succ_self 1, trivial⟩
  | onCheck s | onIndex s => exact hpoint.elim
  | command c =>
    have hcall : w.Begins 0 (w.call c) := begins_of_eq rfl rfl 0
    exact ⟨0, hcall.trans (begins_endCheck (w.call c) outcome), Nat.one_pos, trivial⟩
  | done r => simp [isReady] at hready

theorem buildAfterCheck_fst (w : World) (c : Awaited Unit) : (w.buildAfterCheck c).1 = w := by
  cases c <;> rfl

/-- A build that has asked for the check may wait for it and run its command: two turns. -/
theorem effort_buildAfterCheck_le (w : World) (c : Awaited Unit) :
    Thread.effort ⟨.indexBuild, (w.buildAfterCheck c).2⟩ ≤ 2 := by
  cases c with
  | ready => exact Nat.le_succ 1
  | failed => exact Nat.zero_le 2
  | wait => exact Nat.le_refl 2

/-- A build that need not wait any more only runs its command. -/
theorem effort_buildAfterCheck_le_one (w : World) {c : Awaited Unit} (hc : ∀ t, c ≠ .wait t) :
    Thread.effort ⟨.indexBuild, (w.buildAfterCheck c).2⟩ ≤ 1 := by
  cases c with
  | ready => exact Nat.le_refl 1
  | failed => exact Nat.zero_le 1
  | wait t => exact absurd rfl (hc t)

/-- A build that has asked for the check rests: it runs its command, has failed, or waits for a
check that has not ended. -/
theorem rests_buildAfterCheck {c : Awaited Unit} (hc : ∀ t, c = .wait t → w.result? t = none) :
    w.Rests (w.buildAfterCheck c).2 := by
  cases c with
  | ready | failed => exact trivial
  | wait t => exact hc t rfl

/-- A build that goes on spends effort: it comes from the check to its command, and from that to its
end. -/
theorem spends_build (h : w.Coherent) {p : Point} (hthread : w.BuildsAt i p)
    (hready : w.isReady p = true) (outcome : Outcome) :
    w.Spends ⟨.indexBuild, p⟩ (w.advance ⟨.indexBuild, p⟩ outcome) := by
  have hpoint := h.builds hthread
  cases p with
  | start =>
    have hbuild := effort_buildAfterCheck_le w.enterCheck.1 w.enterCheck.2
    simp only [Spends, advance, buildAfterCheck_fst]
    refine ⟨2, begins_enterCheck w, ?_, rests_buildAfterCheck fun _ ↦ result?_of_enterCheck⟩
    show _ < 5
    omega
  | onCheck s =>
    obtain ⟨r, hr⟩ := Option.isSome_iff_exists.1 hready
    have hbuild := effort_buildAfterCheck_le_one (w.leaveCheck s r).1 (leaveCheck_ne_wait w s r)
    simp only [Spends, advance, hr, buildAfterCheck_fst]
    refine ⟨0, begins_leaveCheck w s r, ?_, rests_buildAfterCheck fun t ht ↦ ?_⟩
    · show _ < 2
      omega
    · exact absurd ht (leaveCheck_ne_wait w s r t)
  | onIndex s => exact hpoint.elim
  | command c =>
    have hcall : w.Begins 0 (w.call c) := begins_of_eq rfl rfl 0
    exact ⟨0, hcall.trans (begins_endBuild (w.call c) outcome), Nat.one_pos, trivial⟩
  | done r => simp [isReady] at hready

/-- Every thread that goes on spends some of its effort, and rests behind its turn. -/
theorem spends_advance (h : w.Coherent) {t : Thread} (ht : w.threads[i]? = some t)
    (hready : w.isReady t.point = true) (outcome : Outcome) :
    w.Spends t (w.advance t outcome) := by
  rcases t with ⟨todo, got⟩ | _ | _
  · exact spends_client h ht hready outcome
  · exact spends_check h ht hready outcome
  · exact spends_build h ht hready outcome

/-! ### Turns of threads that can go on -/

/-- A thread that has gone on stands where it stood at another point, and the threads that it has
begun stand behind those that were there and are noted. -/
structure Goes (w : World) (i : Nat) (t : Thread) (w' : World) (t' : Thread) (jobs : List Job) :
    Prop where
  threads : w'.threads = w.threads.set i t' ++ jobs.map (Thread.mk · .start)
  begun : w'.begun.reverse = List.range' w.threads.length jobs.length
  effort : (jobs.map Job.effort).sum + t'.effort < t.effort
  rests : w'.Rests t'.point

/-- The results of other threads do not change when a thread comes to another point. -/
theorem result?_setThread_of_ne {s : Nat} {t : Thread} (hs : s ≠ i) :
    (w.setThread i t).result? s = w.result? s := by
  rw [result?, result?, getElem?_setThread_of_ne hs]

theorem result?_eq_none {s : Nat} {t : Thread} (hs : w.threads[s]? = some t)
    (hdone : ∀ r, t.point ≠ .done r) : w.result? s = none := by
  refine Option.eq_none_iff_forall_ne_some.2 fun r hr ↦ ?_
  obtain ⟨job, hjob⟩ := result?_eq_some_iff.1 hr
  obtain rfl := Option.some.inj (hs.symm.trans hjob)
  exact hdone r rfl

/-- A thread that rests does so when it stands where it rests. -/
theorem Rests.setThread {t t' : Thread} (h : w.Rests t'.point) (ht : w.threads[i]? = some t) :
    (w.setThread i t').Rests t'.point := by
  rcases t' with ⟨job, p⟩
  have hself : (w.setThread i ⟨job, p⟩).threads[i]? = some ⟨job, p⟩ :=
    (getElem?_setThread ht i).trans (if_pos rfl)
  cases p with
  | start => exact h
  | command | done => exact trivial
  | onCheck s | onIndex s =>
    by_cases hs : s = i
    · subst hs
      exact result?_eq_none hself (by simp)
    · exact (result?_setThread_of_ne hs).trans h

/-- A turn of a thread that can go on moves this thread, and adds those that it begins. -/
theorem exists_goes_resume (h : w.Coherent) {t : Thread} (ht : w.threads[i]? = some t)
    (hready : w.isReady t.point = true) (outcome : Outcome) :
    ∃ t' jobs, w.Goes i t (w.resume i outcome) t' jobs := by
  obtain ⟨m, ⟨jobs, hthreads, hbegun, hle⟩, hm, hrests⟩ :=
    spends_advance (h.move .rest) ht hready outcome
  obtain ⟨hi, -⟩ := List.getElem?_eq_some_iff.1 ht
  rw [resume_eq_setThread ht]
  -- a turn begins with nothing noted as begun, so all that is noted after it is new
  refine ⟨({ w with begun := [] }.advance t outcome).2, jobs, ?_, hbegun, by omega, ?_⟩
  · dsimp only [setThread]
    rw [hthreads]
    exact List.set_append_left _ _ hi
  · refine hrests.setThread (t := t) ?_
    rw [hthreads]
    exact (List.getElem?_append_left hi).trans ht

/-- A sum over a list in which one item is replaced. -/
theorem sum_map_set (f : Thread → Nat) {ts : List Thread} {t : Thread} (h : ts[i]? = some t)
    (t' : Thread) : ((ts.set i t').map f).sum + f t = (ts.map f).sum + f t' := by
  induction ts generalizing i with
  | nil => simp at h
  | cons s ts ih =>
    cases i with
    | zero =>
      obtain rfl : s = t := by simpa using h
      simp only [List.set_cons_zero, List.map_cons, List.sum_cons]
      omega
    | succ i =>
      have hrest := ih (i := i) (by simpa using h)
      simp only [List.set_cons_succ, List.map_cons, List.sum_cons]
      omega

/-- A turn of a thread that can go on lowers the effort that is ahead. -/
theorem effort_resume_lt (h : w.Coherent) (hgo : w.canGoOn i = true) (outcome : Outcome) :
    (w.resume i outcome).effort < w.effort := by
  obtain ⟨t, ht, hready⟩ := exists_of_canGoOn hgo
  obtain ⟨t', jobs, hgoes⟩ := exists_goes_resume h ht hready outcome
  have hlt := hgoes.effort
  have hset := sum_map_set Thread.effort ht t'
  have hnew : (jobs.map (Thread.mk · .start)).map Thread.effort = jobs.map Job.effort :=
    List.map_map
  rw [effort, effort, hgoes.threads, List.map_append, List.sum_append, hnew]
  omega

/-- A thread that cannot go on stays where it is. -/
theorem advance_of_not_isReady {t : Thread} (hready : w.isReady t.point = false)
    (outcome : Outcome) : w.advance t outcome = (w, t) := by
  rcases t with ⟨job, p⟩
  cases p with
  | start | command => simp [isReady] at hready
  | onCheck s =>
    have hr : w.result? s = none := by simpa [isReady] using hready
    simp only [advance, hr]
  | onIndex s =>
    have hr : w.result? s = none := by simpa [isReady] using hready
    rcases job with ⟨_ | _, _⟩ | _ | _ <;> simp only [advance, hr]
  | done r => rfl

/-- A turn of a thread that cannot go on changes no thread. -/
theorem resume_threads_of_not_canGoOn (hgo : w.canGoOn i = false) (outcome : Outcome) :
    (w.resume i outcome).threads = w.threads := by
  rcases hthread : w.threads[i]? with - | t
  · rw [resume, hthread]
  · rw [canGoOn_eq hthread] at hgo
    rw [resume_eq_setThread hthread, advance_of_not_isReady (w := { w with begun := [] }) hgo]
    show (({ w with begun := [] } : World).setThread i t).threads = w.threads
    rw [setThread_self (w := { w with begun := [] }) hthread]

/-! ### Somebody can go on -/

namespace Coherent

/-- Threads that have not ended wait for nobody, or for the check. -/
theorem exists_canGoOn_of_checksAt (h : w.Coherent) {p : Point} (hp : w.ChecksAt i p)
    (hdone : ∀ r, p ≠ .done r) : w.canGoOn i = true := by
  have hpoint := h.checks hp
  rw [canGoOn_eq hp]
  cases p with
  | start | command => rfl
  | onCheck | onIndex => exact hpoint.elim
  | done r => exact absurd rfl (hdone r)

/-- Whoever waits for a check can go on, or the check can. -/
theorem exists_canGoOn_of_onCheck (h : w.Coherent) {t : Thread} {s : Nat}
    (ht : w.threads[i]? = some t) (hpoint : t.point = .onCheck s) (hs : ∃ p, w.ChecksAt s p) :
    ∃ j, w.canGoOn j = true := by
  obtain ⟨p, hp⟩ := hs
  by_cases hdone : ∃ r, p = .done r
  · obtain ⟨r, rfl⟩ := hdone
    have hr := result?_eq_some_iff.2 ⟨_, hp⟩
    exact ⟨i, by rw [canGoOn_eq ht, hpoint, isReady, hr, Option.isSome_some]⟩
  · exact ⟨s, h.exists_canGoOn_of_checksAt hp fun r hr ↦ hdone ⟨r, hr⟩⟩

/-- A build that has not ended can go on, or waits for a check that can. -/
theorem exists_canGoOn_of_buildsAt (h : w.Coherent) {p : Point} (hp : w.BuildsAt i p)
    (hdone : ∀ r, p ≠ .done r) : ∃ j, w.canGoOn j = true := by
  have hpoint := h.builds hp
  cases p with
  | start | command => exact ⟨i, by rw [canGoOn_eq hp]; rfl⟩
  | onCheck s => exact h.exists_canGoOn_of_onCheck hp rfl hpoint.2
  | onIndex => exact hpoint.elim
  | done r => exact absurd rfl (hdone r)

/-- While a client has not ended, some thread can go on. -/
theorem exists_canGoOn (h : w.Coherent) {todo : List Query} {got : List Answer} {p : Point}
    (hthread : w.threads[i]? = some ⟨.client todo got, p⟩) (hdone : ∀ r, p ≠ .done r) :
    ∃ j, w.canGoOn j = true := by
  have hpoint := h.clients hthread
  cases p with
  | start | command => exact ⟨i, by rw [canGoOn_eq hthread]; rfl⟩
  | onCheck s =>
    obtain ⟨q, rest, -, hs⟩ := hpoint
    exact h.exists_canGoOn_of_onCheck hthread rfl hs
  | onIndex s =>
    obtain ⟨q, rest, -, ⟨p, hp⟩, -⟩ := hpoint
    by_cases hbuilt : ∃ r, p = .done r
    · obtain ⟨r, rfl⟩ := hbuilt
      have hr := result?_eq_some_iff.2 ⟨_, hp⟩
      exact ⟨i, by rw [canGoOn_eq hthread, isReady, hr, Option.isSome_some]⟩
    · exact h.exists_canGoOn_of_buildsAt hp fun r hr ↦ hbuilt ⟨r, hr⟩
  | done r => exact absurd rfl (hdone r)

end Coherent

/-! ### Turns of a run -/

/-- The number of turns that are taken in an event by threads that can go on. -/
def turnsIn (w : World) : Event → Nat
  | .ask _ => 0
  | .goOn i _ => (w.canGoOn i).toNat

/-- The number of turns that are taken in a run by threads that can go on. -/
def turnsTaken (w : World) : List Event → Nat
  | [] => 0
  | e :: events => w.turnsIn e + (w.after e).turnsTaken events

/-- The number of turns that an event allows. -/
def allowance : Event → Nat
  | .ask todo => 10 * todo.length + 1
  | .goOn _ _ => 0

/-- The effort that is ahead pays for the turns of an event, and what the event allows is added to
it. -/
theorem turnsIn_le (h : w.Coherent) (e : Event) :
    w.turnsIn e + (w.after e).effort ≤ w.effort + allowance e := by
  cases e with
  | ask todo =>
    have hspawn : w.Begins (10 * todo.length + 1) (w.after (.ask todo)) :=
      begins_spawn w (.client todo [])
    rw [turnsIn, allowance, Nat.zero_add]
    exact hspawn.effort_le
  | goOn i outcome =>
    show (w.canGoOn i).toNat + (w.resume i outcome).effort ≤ w.effort
    rcases hgo : w.canGoOn i
    · rw [effort, resume_threads_of_not_canGoOn hgo outcome]
      exact Nat.le_of_eq (Nat.zero_add _)
    · have hlt := effort_resume_lt h hgo outcome
      rw [Bool.toNat_true]
      omega

/-- A run takes no more turns than the questions that are asked in it allow. -/
theorem turnsTaken_le (h : w.Coherent) {events : List Event}
    (hevents : ∀ e ∈ events, e.IsExpected) :
    w.turnsTaken events + (w.run events).effort ≤ w.effort + (events.map allowance).sum := by
  induction events generalizing w with
  | nil => exact Nat.le_of_eq (Nat.zero_add _)
  | cons e events ih =>
    obtain ⟨he, hevents⟩ := List.forall_mem_cons.1 hevents
    have hfirst := turnsIn_le h e
    have hrest := ih (h.after he) hevents
    have hrun : w.run (e :: events) = (w.after e).run events := rfl
    rw [turnsTaken, List.map_cons, List.sum_cons, hrun]
    omega

end World

end RepoSurvey.History
