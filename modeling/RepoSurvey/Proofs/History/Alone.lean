import RepoSurvey.Proofs.History.Memory

/-!
# Asking alone

Where one question is asked at a time, the threads of a history take turns as one program would run:
the client begins the thread that reads the whole log, which begins the one for the check, and each
of them goes on when the one that it waits for has ended. So an answer is that of the sequential
program, and the history knows afterwards what the program then knows (`Turns.AtRest.ask`).

Turns are composed by `Turns.Leads`, and before each of them a single thread is in the queue
(`Turns.Poised`). What a world shows of a memory, threads apart, is `World.Shows`. Whoever asks for
the check or for the index comes to be told what the program finds (`Turns.Poised.check`,
`Turns.Poised.index`), after which the cases of a question are those of the program.
-/

namespace RepoSurvey.History

/-- A world that forgets who was begun last. -/
def World.rested (w : World) : World := { w with begun := [] }

namespace Turns

variable {script : Script} {i j n m : Nat} {t t' t'' : Turns}

/-! ### Turns one after the other -/

/-- Turns lead from one state of a schedule to another. Before each of them somebody was in the
queue, and client `i` had not ended. -/
inductive Leads (script : Script) (i : Nat) : Nat → Turns → Turns → Prop
  | rest (t : Turns) : Leads script i 0 t t
  | turn {n : Nat} {t t' : Turns} (hready : t.ready ≠ []) (hlive : t.world.result? i = none)
    (h : Leads script i n (t.next script) t') : Leads script i (n + 1) t t'

/-- Turns behind turns lead on from where those have led. -/
theorem Leads.trans (h : Leads script i n t t') (h' : Leads script i m t' t'') :
    Leads script i (n + m) t t'' := by
  induction h with
  | rest => rwa [Nat.zero_add]
  | turn hready hlive _ ih =>
    rw [Nat.add_right_comm]
    exact .turn hready hlive (ih h')

/-- A schedule that is driven comes to where the turns lead, if nobody is in the queue there. -/
theorem Leads.drive (h : Leads script i n t t') (hrest : t'.ready = []) {fuel : Nat}
    (hfuel : n ≤ fuel) :
    ∃ fault, t.drive script [i] fuel = (t', fault) ∧ (fault = none ∨ fault = t'.fault? i) := by
  induction h generalizing fuel with
  | rest t =>
    refine ⟨none, ?_, Or.inl rfl⟩
    cases fuel with
    | zero => rfl
    | succ fuel => rw [Turns.drive, hrest]
  | @turn n t t' hready hlive h ih =>
    obtain ⟨fuel, rfl⟩ : ∃ k, fuel = k + 1 := ⟨fuel - 1, by omega⟩
    obtain ⟨j, ready, hj⟩ := List.exists_cons_of_ne_nil hready
    have hall : [i].all t.isDone = false := by simp [isDone, hlive]
    rw [Turns.drive, hj]
    simp only [hall, Bool.false_eq_true, if_false]
    split
    · rename_i e he
      -- the client has failed, so no turn follows
      have hfault : (t.next script).fault? i = some e := by
        by_cases hij : j = i
        · subst hij
          simpa using he
        · simp [hij] at he
      cases h with
      | rest => exact ⟨some e, rfl, Or.inr hfault.symm⟩
      | turn _ hlive => simp [fault?, hlive] at hfault
    · exact ih hrest (by omega)

/-- The client that asks a question, after its first turn. -/
def asking (script : Script) (t : Turns) (q : Query) : Turns :=
  ({ t with world := (t.world.spawn (.client [q] [])).1 } : Turns).turn script
    t.world.threads.length

/-- A question is answered where turns lead to the end of its client, if there are no more of them
than one asking allows and the queue is empty then. -/
theorem Leads.ask {q : Query} {r : Except Fault Answer}
    (h : Leads script t.world.threads.length n (t.asking script q) t') (hn : n ≤ 16)
    (hrest : t'.ready = [])
    (hr : t'.world.result? t.world.threads.length = some (r.map fun a ↦ .all [a])) :
    t.ask script q = (t', r) := by
  have hfuel : n ≤ (t.asking script q).fuelFor 1 := by
    rw [fuelFor]
    omega
  obtain ⟨fault, hdrive, hfault⟩ := h.drive hrest hfuel
  have hsnd := ask_snd script t q
  have hasked : t.asked script q = (t', fault) := hdrive
  have hfst : (t.ask script q).1 = (t.asked script q).1 := by
    simp only [Turns.ask, asked]
    split <;> rfl
  refine Prod.ext (by rw [hfst, hasked]) ?_
  rw [hsnd, hasked]
  have hor : fault.or (t'.fault? t.world.threads.length) = t'.fault? t.world.threads.length := by
    rcases hfault with rfl | rfl
    · rfl
    · cases t'.fault? t.world.threads.length <;> rfl
  simp only [answerFor, hor]
  simp only [fault?, answers, List.map_singleton, hr]
  cases r <;> rfl

/-! ### The turn of the only thread in the queue -/

/-- Where a schedule stands after a turn of the only thread in the queue. -/
def place (waiting : List (Nat × Nat)) (j : Nat) (go : World × Thread) : Turns :=
  let world := go.1.setThread j go.2
  let ready := go.1.begun.reverse
  match go.2.point with
  | .start => { world, ready, waiting }
  | .command _ => { world, ready := ready ++ [j], waiting }
  | .onCheck s | .onIndex s => { world, ready, waiting := waiting ++ [(s, j)] }
  | .done _ =>
    { world
      ready := ready ++ (waiting.filter fun p ↦ p.1 == j).map Prod.snd
      waiting := waiting.filter fun p ↦ !(p.1 == j) }

/-- A turn of the only thread in the queue changes this thread and what it has changed in the world.
-/
theorem world_place (waiting : List (Nat × Nat)) (j : Nat) (go : World × Thread) :
    (place waiting j go).world = go.1.setThread j go.2 := by
  rw [place]
  split <;> rfl

/-- If one thread is in the queue, the next turn is its own. -/
theorem next_eq_place {u : Thread} (hready : t.ready = [j]) (hu : t.world.threads[j]? = some u)
    {go : World × Thread} (hgo : t.world.rested.advance u (outcomeFor script t.world j) = go)
    (hj : j < go.1.threads.length) : t.next script = place t.waiting j go := by
  have hself : (go.1.setThread j go.2).threads[j]? = some go.2 := by
    rw [World.setThread, List.getElem?_set_self hj]
  have hresume : t.world.resume j (outcomeFor script t.world j) = go.1.setThread j go.2 := by
    subst hgo
    rw [World.resume, hu]
    rfl
  rw [next, hready]
  simp only [turn, hresume, hself, Option.map_some, List.nil_append, place]
  rcases go with ⟨w, ⟨job, p⟩⟩
  cases p with
  | done r =>
    simp only [List.partition_eq_filter_filter]
    rfl
  | start | command | onCheck | onIndex => rfl

/-- A thread that ends hands the queue over to the one that waits for it. -/
theorem place_done {ws : List (Nat × Nat)} {s : Nat} (hws : ∀ p ∈ ws, p.1 ≠ j) {w : World}
    (hbegun : w.begun = []) (job : Job) (r : Except Fault Answer) :
    place (ws ++ [(j, s)]) j (w, ⟨job, .done r⟩) =
      { world := w.setThread j ⟨job, .done r⟩, ready := [s], waiting := ws } := by
  have hnone : ws.filter (fun p ↦ p.1 == j) = [] :=
    List.filter_eq_nil_iff.2 fun p hp ↦ by simpa using hws p hp
  have hall : ws.filter (fun p ↦ !(p.1 == j)) = ws :=
    List.filter_eq_self.2 fun p hp ↦ by simpa using hws p hp
  simp [place, hbegun, hnone, hall]

/-- The only thread in the queue is about to take a turn that leads it to `go`, whatever the outcome
of a command would be; client `i` has not ended. -/
structure Poised (i : Nat) (t : Turns) (j : Nat) (ws : List (Nat × Nat)) (go : World × Thread) :
    Prop where
  ready : t.ready = [j]
  waiting : t.waiting = ws
  live : t.world.result? i = none
  turn : ∃ u, t.world.threads[j]? = some u ∧ ∀ outcome, t.world.rested.advance u outcome = go

/-- A thread that is poised takes its turn. -/
theorem Poised.leads (script : Script) {ws : List (Nat × Nat)} {go : World × Thread}
    (h : Poised i t j ws go) (hj : j < go.1.threads.length) :
    Leads script i 1 t (place ws j go) := by
  obtain ⟨u, hu, hgo⟩ := h.turn
  refine .turn (by simp [h.ready]) h.live ?_
  rw [next_eq_place h.ready hu (hgo _) hj, h.waiting]
  exact .rest _

/-- A thread at a command runs it. -/
theorem leads_command {job : Job} {command : Command} {go : World × Thread}
    (hready : t.ready = [j]) (hj : t.world.threads[j]? = some ⟨job, .command command⟩)
    (hlive : t.world.result? i = none)
    (hgo : t.world.rested.advance ⟨job, .command command⟩ (script t.world.calls command) = go)
    (hlen : j < go.1.threads.length) : Leads script i 1 t (place t.waiting j go) := by
  have houtcome : outcomeFor script t.world j = script t.world.calls command := by
    have hnext : t.world.nextCommand? j = some command := by rw [World.nextCommand?, hj]
    rw [outcomeFor, hnext]
  rw [← houtcome] at hgo
  refine .turn (by simp [hready]) hlive ?_
  rw [next_eq_place hready hj hgo hlen]
  exact .rest _

end Turns

/-! ### What a world shows -/

/-- All of a world, apart from its notes and from who was begun last. -/
structure World.Shows (w : World) (m : Memory) (check build : Option Nat) (threads : List Thread) :
    Prop where
  memory : w.memory = m
  check : w.check = check
  build : w.build = build
  threads : w.threads = threads

/-- What the check yields. -/
def World.checked (repo : String) (found : Bool) : Except Fault Answer :=
  if found then .ok .nothing else .error (.notARepository repo)

/-- What those are told who wait for the check. -/
def World.tellsCheck (repo : String) (found : Bool) : World.Awaited Unit :=
  if found then .ready () else .failed (.notARepository repo)

/-- What the thread yields that is to read the whole log: the index, or why there is none. -/
def World.Built (r : Except Fault Answer) (found : Bool) : Option LogIndex → Prop
  | some x => r = .ok (.index x)
  | none => ∃ e, r = .error e ∧ if found then e.isExpected = true else e.isNoRepository = true

/-- What those are told who wait for the index. -/
def World.TellsIndex (a : World.Awaited LogIndex) (found : Bool) : Option LogIndex → Prop
  | some x => a = .ready x
  | none => ∃ e, a = .failed e ∧ if found then e.isExpected = true else e.isNoRepository = true

namespace World.Shows

variable {script : Script} {w : World} {m : Memory} {check build : Option Nat}
  {threads : List Thread}

/-- A world that shows a memory shows it when a thread stands elsewhere. -/
theorem setThread (h : w.Shows m check build threads) (j : Nat) (u : Thread) :
    (w.setThread j u).Shows m check build (threads.set j u) :=
  ⟨h.memory, h.check, h.build, by rw [World.setThread, h.threads]⟩

theorem rested (h : w.Shows m check build threads) : w.rested.Shows m check build threads :=
  ⟨h.memory, h.check, h.build, h.threads⟩

theorem calls (h : w.Shows m check build threads) : w.calls = m.calls := by
  rw [← h.memory, World.memory]

theorem repo (h : w.Shows m check build threads) : w.repo = m.repo := by
  rw [← h.memory, World.memory]

theorem now (h : w.Shows m check build threads) : w.now = m.now := by
  rw [← h.memory, World.memory]

theorem told (h : w.Shows m check build threads) : w.told = m.told := by
  rw [← h.memory, World.memory]

/-- A command is noted in the world as in the memory. -/
theorem call (h : w.Shows m check build threads) (c : Command) :
    (w.call c).Shows (m.call c) check build threads := by
  obtain ⟨rfl, rfl, rfl, rfl⟩ := h
  exact ⟨rfl, rfl, rfl, rfl⟩

/-- Commits of a file are remembered in the world as in the memory. -/
theorem tell (h : w.Shows m check build threads) (key : String) (cs : List Commit) :
    (w.tell key cs).Shows (m.tell key cs) check build threads := by
  obtain ⟨rfl, rfl, rfl, rfl⟩ := h
  exact ⟨rfl, rfl, rfl, rfl⟩

/-- The commits of a key are found in the index, in the world as in the memory, and remembered in
both. -/
theorem commitsFor (h : w.Shows m check build threads) (key : String) (x : LogIndex) :
    (w.commitsFor key x).1.Shows (m.commitsFor key x).1 check build threads ∧
      (w.commitsFor key x).1.begun = w.begun ∧ (w.commitsFor key x).2 = (m.commitsFor key x).2 := by
  rw [World.commitsFor, Memory.commitsFor, h.told]
  split
  · exact ⟨h, rfl, rfl⟩
  · rcases m.told.lookup key with - | cs
    · exact ⟨h.tell key _, rfl, rfl⟩
    · exact ⟨h, rfl, rfl⟩

/-- The check ends in the world as in the memory: what it has found is known in both, and nobody has
been begun. -/
theorem endCheck (h : w.Shows m check build threads) (hscript : script.IsExpected) :
    let go := (w.call .showPrefix).endCheck (script m.calls .showPrefix)
    go.1.Shows (m.look script).1 check build threads ∧ go.1.begun = w.begun ∧
      go.2 = checked m.repo (m.look script).2 := by
  obtain ⟨rfl, rfl, rfl, rfl⟩ := h
  have hexpected := hscript w.memory.calls .showPrefix
  simp only [Memory.look]
  rcases houtcome : script w.memory.calls .showPrefix with fault | output
  · have hfault : fault.isExpected = true := hexpected fault houtcome
    simp only [World.endCheck, hfault, if_true]
    exact ⟨⟨rfl, rfl, rfl, rfl⟩, rfl, rfl⟩
  · exact ⟨⟨rfl, rfl, rfl, rfl⟩, rfl, rfl⟩

/-- All files of an index are remembered in the world as in the memory. -/
theorem tellAll (h : w.Shows m check build threads) (files : List (String × List Commit)) :
    (w.tellAll files).Shows (m.tellAll files) check build threads ∧
      (w.tellAll files).begun = w.begun := by
  induction files generalizing w m with
  | nil => exact ⟨h, rfl⟩
  | cons file files ih =>
    obtain ⟨rfl, rfl, rfl, rfl⟩ := h
    exact ih (w := { w with told := Assoc.modify file.1 (fun old ↦ old.getD file.2) w.told })
      ⟨rfl, rfl, rfl, rfl⟩

/-- The build ends in the world as in the memory: the index is kept in both, or there is none in
either. -/
theorem endBuild (h : w.Shows m check build threads) (hscript : script.IsExpected) :
    let go := (w.call .fullLog).endBuild (script m.calls .fullLog)
    go.1.Shows (m.readLog script).1 check build threads ∧ go.1.begun = w.begun ∧
      Built go.2 true (m.readLog script).2 := by
  have hcall := h.call .fullLog
  obtain ⟨rfl, rfl, rfl, rfl⟩ := h
  have hexpected := hscript w.memory.calls .fullLog
  simp only [Memory.readLog]
  rcases houtcome : script w.memory.calls .fullLog with fault | log
  · exact ⟨hcall, rfl, _, rfl, hexpected fault houtcome⟩
  · obtain ⟨⟨hmemory, hcheck, hbuild, hthreads⟩, hbegun⟩ :=
      hcall.tellAll (parseLog (w.below.getD "") log).fileCommits
    exact ⟨⟨hmemory, hcheck, hbuild, hthreads⟩, hbegun, rfl⟩

/-- Somebody who asks for the check is told what is known, or begins it. -/
theorem enterCheck (script : Script) (h : w.Shows m none build threads) (hbegun : w.begun = []) :
    (m.check script).1 = m ∧ w.enterCheck = (w, tellsCheck m.repo (m.check script).2) ∨
      m.check script = m.look script ∧ ∃ w', w.enterCheck = (w', .wait threads.length) ∧
        w'.Shows m (some threads.length) build (threads ++ [⟨.repoCheck, .start⟩]) ∧
        w'.begun = [threads.length] := by
  obtain ⟨rfl, hcheck, rfl, rfl⟩ := h
  have hbelow : w.memory.below = w.below := rfl
  have hrefused : w.memory.refused = w.refused := rfl
  rw [Memory.check, hbelow, hrefused, World.enterCheck]
  by_cases hsome : w.below.isSome = true
  · rw [if_pos hsome, if_pos hsome]
    exact Or.inl ⟨rfl, rfl⟩
  by_cases hnone : w.refused = true
  · rw [if_neg hsome, if_neg hsome, if_pos hnone, if_pos hnone]
    exact Or.inl ⟨rfl, rfl⟩
  · rw [if_neg hsome, if_neg hsome, if_neg hnone, if_neg hnone, hcheck]
    refine Or.inr ⟨rfl, { (w.spawn .repoCheck).1 with check := some w.threads.length }, ?_,
      ⟨rfl, rfl, rfl, rfl⟩, congrArg (_ :: ·) hbegun⟩
    have hnew : World.result? { (w.spawn .repoCheck).1 with check := some w.threads.length }
        w.threads.length = none := by
      simp [World.result?, World.spawn]
    dsimp only
    split
    · rename_i r hr
      exact absurd (hr.symm.trans hnew) (by simp)
    · rfl

/-- Whoever waited for the check is told what it has found, and it is awaited no longer. -/
theorem leaveCheck {c : Nat} (h : w.Shows m (some c) build threads) (repo : String) (found : Bool) :
    ∃ w', w.leaveCheck c (checked repo found) = (w', tellsCheck repo found) ∧
      w'.Shows m none build threads ∧ w'.begun = w.begun := by
  obtain ⟨rfl, hcheck, rfl, rfl⟩ := h
  refine ⟨{ w with check := none }, ?_, ⟨rfl, rfl, rfl, rfl⟩, rfl⟩
  cases found <;> simp [World.leaveCheck, hcheck, checked, tellsCheck]

/-- Somebody who asks for the index is told it, or begins to read the whole log. -/
theorem enterIndex (h : w.Shows m none none threads) (hbegun : w.begun = []) :
    (∃ x, m.index = some x ∧ w.enterIndex = (w, .ready x)) ∨
      m.index = none ∧ ∃ w', w.enterIndex = (w', .wait threads.length) ∧
        w'.Shows m none (some threads.length) (threads ++ [⟨.indexBuild, .start⟩]) ∧
        w'.begun = [threads.length] := by
  obtain ⟨rfl, hcheck, hbuild, rfl⟩ := h
  have hindex : w.memory.index = w.index := rfl
  rw [hindex, World.enterIndex]
  rcases w.index with - | x
  · refine Or.inr ⟨rfl, { (w.spawn .indexBuild).1 with build := some w.threads.length }, ?_,
      ⟨rfl, hcheck, rfl, rfl⟩, congrArg (_ :: ·) hbegun⟩
    have hnew : World.result? { (w.spawn .indexBuild).1 with build := some w.threads.length }
        w.threads.length = none := by
      simp [World.result?, World.spawn]
    rw [hbuild]
    dsimp only
    split
    · rename_i r hr
      exact absurd (hr.symm.trans hnew) (by simp)
    · rfl
  · exact Or.inl ⟨x, rfl, rfl⟩

/-- Whoever waited for the index is told it or why there is none, and it is awaited no longer. -/
theorem leaveIndex {b : Nat} (h : w.Shows m none (some b) threads) {r : Except Fault Answer}
    {found : Bool} {index : Option LogIndex} (hr : Built r found index) :
    ∃ w' a, w.leaveIndex b r = (w', a) ∧ TellsIndex a found index ∧
      w'.Shows (index.elim m m.keep) none none threads ∧ w'.begun = w.begun := by
  obtain ⟨rfl, hcheck, hbuild, rfl⟩ := h
  rcases index with - | x
  · obtain ⟨e, rfl, he⟩ := hr
    rw [World.leaveIndex, if_pos hbuild]
    dsimp only
    by_cases hnone : e.isNoRepository = true
    · rw [if_pos hnone]
      exact ⟨_, _, rfl, ⟨e, rfl, he⟩, ⟨rfl, hcheck, rfl, rfl⟩, rfl⟩
    · rw [if_neg hnone]
      exact ⟨_, _, rfl, ⟨e, rfl, he⟩, ⟨rfl, hcheck, rfl, rfl⟩, rfl⟩
  · obtain rfl : r = .ok (.index x) := hr
    exact ⟨_, _, rfl, rfl, ⟨rfl, hcheck, rfl, rfl⟩, rfl⟩

end World.Shows

/-! ### The check -/

/-- What a thread goes on with once it is known whether there is a repository. -/
structure AfterCheck (job : Job) (k : World × World.Awaited Unit → World × Thread) : Prop where
  waits : ∀ w c, k (w, .wait c) = (w, ⟨job, .onCheck c⟩)
  resumes : ∀ (w : World) c r outcome, w.result? c = some r →
    w.advance ⟨job, .onCheck c⟩ outcome = k (w.leaveCheck c r)

namespace Turns

variable {script : Script} {i j n : Nat} {t : Turns} {m : Memory} {build : Option Nat}
  {threads : List Thread} {ws : List (Nat × Nat)} {s c : Nat}

/-- The result of a client does not change when another thread goes on. -/
theorem result?_of_set_ne {w w' : World} {u : Thread} (hi : i ≠ c)
    (hthreads : w'.threads = w.threads.set c u) : w'.result? i = w.result? i := by
  rw [World.result?, hthreads, List.getElem?_set_ne (Ne.symm hi), World.result?]

/-- A thread that comes to stand at a command runs it in its next turn. -/
theorem Poised.run {check : Option Nat} {job : Job} {command : Command} {w : World} {m' : Memory}
    {R : Thread → Prop} (h : Poised i t j ws (w, ⟨job, .command command⟩))
    (hw : w.Shows m check build threads) (hbegun : w.begun = []) (hj : j < threads.length)
    (hlive : i ≠ j → w.result? i = none)
    (hrun : ∀ {w₁ : World} {threads₁ : List Thread}, w₁.Shows m check build threads₁ →
      ∃ go, w₁.advance ⟨job, .command command⟩ (script m.calls command) = go ∧
        go.1.Shows m' check build threads₁ ∧ go.1.begun = w₁.begun ∧ R go.2) :
    ∃ go, Leads script i 2 t (place ws j go) ∧
      go.1.Shows m' check build (threads.set j ⟨job, .command command⟩) ∧ go.1.begun = [] ∧
      R go.2 := by
  -- it comes to stand at its command
  have hfirst := h.leads script (by rwa [hw.threads])
  set t₁ := place ws j (w, ⟨job, .command command⟩)
  have hnow : t₁.world.Shows m check build (threads.set j ⟨job, .command command⟩) :=
    hw.setThread j _
  have hself : t₁.world.threads[j]? = some ⟨job, .command command⟩ := by
    rw [hnow.threads, List.getElem?_set_self hj]
  have hlive₁ : t₁.world.result? i = none := by
    by_cases hij : i = j
    · rw [World.result?, hij, hself]
    · exact (result?_of_set_ne hij rfl).trans (hlive hij)
  -- it runs the command
  obtain ⟨go, hadvance, hgo, hbegun', hr⟩ := hrun hnow.rested
  rw [← hnow.calls] at hadvance
  have hlen : j < go.1.threads.length := by rwa [hgo.threads, List.length_set]
  have hready : t₁.ready = [j] := by simp [t₁, place, hbegun]
  exact ⟨go, hfirst.trans (leads_command hready hself hlive₁ hadvance hlen), hgo, hbegun', hr⟩

/-- A thread for which another waits runs a command and ends; the queue comes to the other. -/
theorem Poised.runs {check : Option Nat} {job : Job} {command : Command} {w : World} {m' : Memory}
    {R : Except Fault Answer → Prop}
    (h : Poised i t c (ws ++ [(c, s)]) (w, ⟨job, .command command⟩)) (hws : ∀ p ∈ ws, p.1 ≠ c)
    (hw : w.Shows m check build threads) (hbegun : w.begun = []) (hc : c < threads.length)
    (hlive : w.result? i = none)
    (hrun : ∀ {w₁ : World} {threads₁ : List Thread}, w₁.Shows m check build threads₁ →
      ∃ w₂ r, w₁.advance ⟨job, .command command⟩ (script m.calls command) = (w₂, ⟨job, .done r⟩) ∧
        w₂.Shows m' check build threads₁ ∧ w₂.begun = w₁.begun ∧ R r) :
    ∃ w' r, Leads script i 2 t { world := w', ready := [s], waiting := ws } ∧ R r ∧
      w'.Shows m' check build (threads.set c ⟨job, .done r⟩) := by
  obtain ⟨⟨w₂, u⟩, hleads, hw₂, hbegun₂, r, rfl, hr⟩ :=
    h.run (R := fun u ↦ ∃ r, u = ⟨job, .done r⟩ ∧ R r) hw hbegun hc (fun _ ↦ hlive) fun hw₁ ↦ by
      obtain ⟨w₂, r, hadvance, hw₂, hbegun₂, hr⟩ := hrun hw₁
      exact ⟨_, hadvance, hw₂, hbegun₂, r, rfl, hr⟩
  rw [place_done hws hbegun₂] at hleads
  have hlast := hw₂.setThread c ⟨job, .done r⟩
  rw [List.set_set] at hlast
  exact ⟨_, r, hleads, hr, hlast⟩

/-- The two turns in which it is found out whether there is a repository. -/
theorem leads_repoCheck {check : Option Nat} (hscript : script.IsExpected) (hready : t.ready = [c])
    (hwaiting : t.waiting = ws ++ [(c, s)]) (hws : ∀ p ∈ ws, p.1 ≠ c)
    (hshows : t.world.Shows m check build threads)
    (hc : threads[c]? = some ⟨.repoCheck, .start⟩) (hlive : t.world.result? i = none) :
    ∃ w, Leads script i 2 t { world := w, ready := [s], waiting := ws } ∧
      w.Shows (m.look script).1 check build
        (threads.set c ⟨.repoCheck, .done (World.checked m.repo (m.look script).2)⟩) := by
  obtain ⟨hlt, -⟩ := List.getElem?_eq_some_iff.1 hc
  have hpoised : Poised i t c (ws ++ [(c, s)])
      (t.world.rested, ⟨.repoCheck, .command .showPrefix⟩) :=
    ⟨hready, hwaiting, hlive, _, by rw [hshows.threads]; exact hc, fun _ ↦ rfl⟩
  obtain ⟨w, r, hleads, rfl, hw⟩ :=
    hpoised.runs (R := fun r ↦ r = World.checked m.repo (m.look script).2) hws hshows.rested rfl
      hlt hlive fun hw₁ ↦ by
        obtain ⟨hend, hbegun, hresult⟩ := hw₁.endCheck hscript
        exact ⟨_, _, rfl, hend, hbegun, hresult⟩
  exact ⟨w, hleads, hw⟩

/-- The threads after `j` has begun another and has come to stand elsewhere. -/
def begunBy (threads : List Thread) (j : Nat) (new stands : Thread) : List Thread :=
  (threads ++ [new]).set j stands

theorem length_begunBy (threads : List Thread) (j : Nat) (new stands : Thread) :
    (begunBy threads j new stands).length = threads.length + 1 := by
  rw [begunBy, List.length_set, List.length_append, List.length_singleton]

theorem getElem?_begunBy_new {new stands : Thread} (hj : j < threads.length) :
    (begunBy threads j new stands)[threads.length]? = some new := by
  rw [begunBy, List.getElem?_set_ne (Nat.ne_of_lt hj), List.getElem?_concat_length]

/-- The thread that has begun it stands where it has come to. -/
theorem getElem?_begunBy_self {new stands : Thread} (hj : j < threads.length) :
    (begunBy threads j new stands)[j]? = some stands := by
  refine List.getElem?_set_self ?_
  rw [List.length_append]
  exact Nat.lt_add_right _ hj

theorem getElem?_begunBy_of_ne {new stands : Thread} {l : Nat} (hl : l < threads.length)
    (hlj : l ≠ j) : (begunBy threads j new stands)[l]? = threads[l]? := by
  rw [begunBy, List.getElem?_set_ne hlj.symm, List.getElem?_append_left hl]

/-- A thread begins another and waits for it: the queue comes to the other. -/
theorem Poised.begins (script : Script) {check : Option Nat} {new : Thread} {job : Job} {p : Point}
    {w : World} (h : Poised i t j ws (w, ⟨job, p⟩))
    (hp : p = .onCheck threads.length ∨ p = .onIndex threads.length)
    (hw : w.Shows m check build (threads ++ [new])) (hbegun : w.begun = [threads.length])
    (hj : j < threads.length) (hlive : i ≠ j → w.result? i = none) :
    ∃ t', Leads script i 1 t t' ∧ t'.ready = [threads.length] ∧
      t'.waiting = ws ++ [(threads.length, j)] ∧ t'.world.result? i = none ∧
      t'.world.Shows m check build (begunBy threads j new ⟨job, p⟩) := by
  have hlen : j < w.threads.length := by
    rw [hw.threads, List.length_append]
    exact Nat.lt_add_right _ hj
  have hworld := world_place ws j (w, ⟨job, p⟩)
  have hshows : (place ws j (w, ⟨job, p⟩)).world.Shows m check build
      (begunBy threads j new ⟨job, p⟩) := by
    rw [hworld]
    exact hw.setThread j _
  refine ⟨_, h.leads script hlen, ?_, ?_, ?_, hshows⟩
  · rcases hp with rfl | rfl <;> simp [place, hbegun]
  · rcases hp with rfl | rfl <;> rfl
  · by_cases hij : i = j
    · rw [World.result?, hshows.threads, hij, getElem?_begunBy_self hj]
      rcases hp with rfl | rfl <;> rfl
    · rw [hworld, result?_of_set_ne hij rfl]
      exact hlive hij

/-- A thread that is about to ask for the check comes to know what it finds; the other threads stay
where they are. -/
theorem Poised.check {job : Job} {k : World × World.Awaited Unit → World × Thread}
    (hscript : script.IsExpected) (hk : AfterCheck job k) {w : World}
    (h : Poised i t j ws (k w.enterCheck)) (hw : w.Shows m none build threads)
    (hbegun : w.begun = []) (hj : j < threads.length) (hi : i < threads.length)
    (hws : ∀ p ∈ ws, p.1 < threads.length)
    (hlive : i ≠ j → w.result? i = none) :
    ∃ n ≤ 3, ∃ t' w' threads', Leads script i n t t' ∧
      Poised i t' j ws (k (w', World.tellsCheck m.repo (m.check script).2)) ∧
      w'.Shows (m.check script).1 none build threads' ∧ w'.begun = [] ∧
      threads.length ≤ threads'.length ∧
      ∀ l < threads.length, l ≠ j → threads'[l]? = threads[l]? := by
  rcases hw.enterCheck script hbegun with
    ⟨hsame, henter⟩ | ⟨hlook, w₁, henter, hw₁, hbegun₁⟩
  · -- it is known already
    rw [henter] at h
    refine ⟨0, by omega, t, w, threads, .rest t, h, ?_, hbegun, le_rfl, fun _ _ _ ↦ rfl⟩
    rwa [hsame]
  · -- it waits for the thread that finds it out
    rw [henter, hk.waits] at h
    have hlive₁ : i ≠ j → w₁.result? i = none := by
      intro hij
      rw [← hlive hij, World.result?, World.result?, hw₁.threads, hw.threads,
        List.getElem?_append_left hi]
    obtain ⟨t₁, hfirst, hready, hwaiting, hlive₁, hnow⟩ :=
      h.begins script (Or.inl rfl) hw₁ hbegun₁ hj hlive₁
    set c := threads.length
    obtain ⟨w₂, hrun, hw₂⟩ := leads_repoCheck hscript hready hwaiting
      (fun p hp ↦ Nat.ne_of_lt (hws p hp)) hnow (getElem?_begunBy_new hj) hlive₁
    -- the thread that has waited goes on
    obtain ⟨w', hleave, hw', hbegun'⟩ := hw₂.rested.leaveCheck m.repo (m.look script).2
    have hdone : w₂.rested.result? c = some (World.checked m.repo (m.look script).2) := by
      rw [World.result?, hw₂.rested.threads, List.getElem?_set_self (by rw [length_begunBy]; omega)]
    have hlive₂ : w₂.result? i = none := by
      rw [← hlive₁]
      exact result?_of_set_ne (Nat.ne_of_lt hi) (by rw [hw₂.threads, hnow.threads])
    have hself : w₂.threads[j]? = some ⟨job, .onCheck c⟩ := by
      rw [hw₂.threads, List.getElem?_set_ne (Nat.ne_of_gt hj), getElem?_begunBy_self hj]
    rw [← hlook] at hw'
    refine ⟨1 + 2, by omega, _, w', _, hfirst.trans hrun,
      ⟨rfl, rfl, hlive₂, _, hself, fun outcome ↦ ?_⟩, hw', hbegun', ?_, fun l hl hlj ↦ ?_⟩
    · rw [hk.resumes _ _ _ _ hdone, hleave, hlook]
    · rw [List.length_set, length_begunBy]
      exact Nat.le_succ c
    · rw [List.getElem?_set_ne (Nat.ne_of_gt hl), getElem?_begunBy_of_ne hl hlj]

end Turns

/-! ### The index -/

/-- What the thread goes on with that is to read the whole log. -/
def readNext (go : World × World.Awaited Unit) : World × Thread :=
  ((go.1.buildAfterCheck go.2).1, ⟨.indexBuild, (go.1.buildAfterCheck go.2).2⟩)

/-- The build runs its command once there is a repository, and ends at once where there is none. -/
theorem afterCheck_readNext : AfterCheck .indexBuild readNext where
  waits _ _ := rfl
  resumes w c r outcome hr := by
    rw [World.advance]
    simp only [hr]
    rfl

/-- What a thread goes on with once the index can be had or not. -/
structure AfterIndex (job : Job) (k : World × World.Awaited LogIndex → World × Thread) : Prop where
  waits : ∀ w b, k (w, .wait b) = (w, ⟨job, .onIndex b⟩)
  resumes : ∀ (w : World) b r outcome, w.result? b = some r →
    w.advance ⟨job, .onIndex b⟩ outcome = k (w.leaveIndex b r)

namespace Turns

variable {script : Script} {i n : Nat} {t : Turns} {m : Memory} {threads : List Thread} {b : Nat}

/-- The thread that reads the whole log ends, and the queue comes to the client that waits. -/
theorem Poised.build (hscript : script.IsExpected) {w : World}
    (h : Poised i t b [(b, i)] (readNext w.enterCheck)) (hw : w.Shows m none (some b) threads)
    (hbegun : w.begun = []) (hb : b < threads.length) (hi : i < b) (hlive : w.result? i = none) :
    ∃ n ≤ 5, ∃ w' threads' r, Leads script i n t { world := w', ready := [i] } ∧
      World.Built r (m.check script).2 (m.build script).2 ∧
      w'.Shows (m.build script).1 none (some b) threads' ∧
      threads'[b]? = some ⟨.indexBuild, .done r⟩ ∧ threads'[i]? = threads[i]? ∧
      threads.length ≤ threads'.length := by
  obtain ⟨n, hn, t', w', threads', hleads, hpoised, hw', hbegun', hlen, hstay⟩ :=
    h.check hscript afterCheck_readNext hw hbegun hb (hi.trans hb) (by simpa using hb)
      fun _ ↦ hlive
  have hb' : b < w'.threads.length := by
    rw [hw'.threads]
    exact lt_of_lt_of_le hb hlen
  have hself := hstay i (hi.trans hb) (Nat.ne_of_lt hi)
  have hnone : ∀ p ∈ ([] : List (Nat × Nat)), p.1 ≠ b := by simp
  rw [Memory.build]
  rcases hcheck : m.check script with ⟨m', found⟩
  rw [hcheck] at hpoised hw'
  cases found with
  | false =>
    -- there is no repository, which is the thread's end
    have hend := hpoised.leads script hb'
    have hplace : place [(b, i)] b (readNext (w', World.tellsCheck m.repo false)) = _ :=
      place_done hnone hbegun' .indexBuild (.error (.notARepository m.repo))
    rw [hplace] at hend
    refine ⟨n + 1, by omega, _, _, _, hleads.trans hend, ⟨.notARepository m.repo, rfl, ?_⟩,
      hw'.setThread b _, ?_, ?_, ?_⟩
    · simp [Fault.isNoRepository]
    · exact List.getElem?_set_self (by rwa [hw'.threads] at hb')
    · rw [List.getElem?_set_ne (Nat.ne_of_gt hi), hself]
    · rwa [List.length_set]
  | true =>
    have hlive' : w'.result? i = none := by
      rw [← hlive, World.result?, World.result?, hw'.threads, hw.threads, hself]
    have hruns : Poised i t' b ([] ++ [(b, i)]) (w', ⟨.indexBuild, .command .fullLog⟩) := hpoised
    obtain ⟨w₂, r, hend, hr, hw₂⟩ :=
      hruns.runs (R := fun r ↦ World.Built r true (m'.readLog script).2) hnone hw' hbegun'
        (by rwa [hw'.threads] at hb') hlive' fun hw₁ ↦ by
          obtain ⟨hend, hbegun, hresult⟩ := hw₁.endBuild hscript
          exact ⟨_, _, rfl, hend, hbegun, hresult⟩
    refine ⟨n + 2, by omega, w₂, _, r, hleads.trans hend, hr, hw₂, ?_, ?_, ?_⟩
    · exact List.getElem?_set_self (by rwa [hw'.threads] at hb')
    · rw [List.getElem?_set_ne (Nat.ne_of_gt hi), hself]
    · rwa [List.length_set]

/-- A client that is about to ask for the index comes to be told it, or why there is none. -/
theorem Poised.index {job : Job} {k : World × World.Awaited LogIndex → World × Thread}
    (hscript : script.IsExpected) (hk : AfterIndex job k) {w : World}
    (h : Poised i t i [] (k w.enterIndex)) (hw : w.Shows m none none threads)
    (hbegun : w.begun = []) (hi : i < threads.length) :
    ∃ n ≤ 6, ∃ t' w' a threads', Leads script i n t t' ∧ Poised i t' i [] (k (w', a)) ∧
      World.TellsIndex a (m.check script).2 (m.readIndex script).2 ∧
      w'.Shows (m.readIndex script).1 none none threads' ∧ w'.begun = [] ∧
      threads.length ≤ threads'.length := by
  rw [Memory.readIndex]
  rcases hw.enterIndex hbegun with ⟨x, hindex, henter⟩ | ⟨hindex, w₁, henter, hw₁, hbegun₁⟩
  · -- it is known already
    rw [henter] at h
    rw [hindex]
    exact ⟨0, by omega, t, w, _, threads, .rest t, h, rfl, hw, hbegun, le_rfl⟩
  · -- it waits for the thread that reads the whole log
    rw [henter, hk.waits] at h
    obtain ⟨t₁, hfirst, hready, hwaiting, hlive, hnow⟩ :=
      h.begins script (Or.inr rfl) hw₁ hbegun₁ hi fun hne ↦ absurd rfl hne
    set b := threads.length
    have hpoised : Poised i t₁ b [(b, i)] (readNext t₁.world.rested.enterCheck) :=
      ⟨hready, hwaiting, hlive, _, hnow.threads ▸ getElem?_begunBy_new hi, fun _ ↦ rfl⟩
    obtain ⟨n, hn, w₂, threads₂, r, hruns, hr, hw₂, hdone, hstay, hlen⟩ :=
      hpoised.build hscript hnow.rested rfl (by rw [length_begunBy]; omega) hi hlive
    -- the client goes on
    obtain ⟨w', a, hleave, ha, hw', hbegun'⟩ := hw₂.rested.leaveIndex hr
    have hself : w₂.threads[i]? = some ⟨job, .onIndex b⟩ := by
      rw [hw₂.threads, hstay, getElem?_begunBy_self hi]
    have hresult : w₂.rested.result? b = some r := by
      rw [World.result?, hw₂.rested.threads, hdone]
    have hlive₂ : w₂.result? i = none := by rw [World.result?, hself]
    refine ⟨1 + n, by omega, _, w', a, threads₂, hfirst.trans hruns,
      ⟨rfl, rfl, hlive₂, _, hself, fun outcome ↦ ?_⟩, ?_, ?_, hbegun', ?_⟩
    · rw [hk.resumes _ _ _ _ hresult, hleave]
    · rw [hindex]
      rcases hbuilt : m.build script with ⟨m', _ | x⟩ <;> rw [hbuilt] at ha <;> exact ha
    · rw [hindex]
      rcases hbuilt : m.build script with ⟨m', _ | x⟩ <;> rw [hbuilt] at hw' <;> exact hw'
    · rw [length_begunBy] at hlen
      omega

end Turns

/-! ### Questions -/

/-- In a repository a question about a file has its default without a key, and its answer from what
is remembered; without either it comes to ask for the index. -/
theorem World.afterCheck_ready_of_path {q : Query} {path : String}
    (hpath : World.historyPath? q = some path) (w : World) :
    w.afterCheck q (.ready ()) =
      if keyOf w.repo path = "" then (w, .answered (World.default q))
      else (w.told.lookup (keyOf w.repo path)).elim (w.enterIndex.1.afterIndex q w.enterIndex.2)
        fun cs ↦ (w, .answered (World.answerOf q cs)) := by
  cases q <;> cases hpath <;> simp only [World.afterCheck, World.historyPath?] <;>
    rcases w.told.lookup (keyOf w.repo path) with - | cs <;> rfl

/-- With the index a question about a file is answered from it. -/
theorem World.afterIndex_ready_of_path {q : Query} {path : String}
    (hpath : World.historyPath? q = some path) (w : World) (x : LogIndex) :
    w.afterIndex q (.ready x) = w.fileFromIndex q path x := by
  cases q <;> cases hpath <;> rfl

/-- Nobody waits and nothing is under way, and the history knows what a memory says. -/
structure Turns.AtRest (t : Turns) (m : Memory) : Prop where
  ready : t.ready = []
  waiting : t.waiting = []
  shows : ∃ threads, t.world.Shows m none none threads

/-- A history that has not been asked anything is at rest, and knows nothing. -/
theorem atRest_fresh (repo : String) (now : Int) :
    (fresh repo now).AtRest { repo := Path.absolute repo, now } :=
  ⟨rfl, rfl, [], rfl, rfl, rfl, rfl⟩

/-- What a client goes on with that asks one question, once it knows of the check. -/
def askNext (q : Query) (go : World × World.Awaited Unit) : World × Thread :=
  World.clientAfter q [] [] (go.1.afterCheck q go.2)

/-- What a client goes on with that asks one question, once it knows of the index. -/
def askByIndex (q : Query) (go : World × World.Awaited LogIndex) : World × Thread :=
  World.clientAfter q [] [] (go.1.afterIndex q go.2)

/-- A client waits for the check and goes on with what it tells. -/
theorem afterCheck_askNext (q : Query) : AfterCheck (.client [q] []) (askNext q) where
  waits _ _ := rfl
  resumes w c r outcome hr := by
    rw [World.advance]
    simp only [hr]
    rfl

/-- A client waits for the index and goes on with what it tells. -/
theorem afterIndex_askByIndex (q : Query) : AfterIndex (.client [q] []) (askByIndex q) where
  waits _ _ := rfl
  resumes w b r outcome hr := by
    rw [World.advance]
    simp only [hr]
    rfl

namespace Turns

variable {script : Script} {i n k : Nat} {t t' : Turns} {m : Memory} {threads : List Thread}
  {q : Query} {w : World}

/-- Client `i` ends with an answer within some turns, and leaves the history at rest. -/
def Comes (script : Script) (i k : Nat) (t : Turns) (go : Memory × Except Fault Answer) : Prop :=
  ∃ n ≤ k, ∃ t', Leads script i n t t' ∧ t'.AtRest go.1 ∧
    t'.world.result? i = some (go.2.map fun a ↦ .all [a])

/-- If turns lead to where a client comes to its end, they are part of the way there. -/
theorem Leads.comes {go : Memory × Except Fault Answer} (h : Leads script i n t t')
    (h' : Comes script i k t' go) : Comes script i (n + k) t go := by
  obtain ⟨n', hn', t'', hleads, hrest, hresult⟩ := h'
  exact ⟨n + n', by omega, t'', h.trans hleads, hrest, hresult⟩

/-- A client that ends within some turns does so within more. -/
theorem Comes.mono {go : Memory × Except Fault Answer} (h : Comes script i n t go) (hn : n ≤ k) :
    Comes script i k t go := by
  obtain ⟨n', hn', h⟩ := h
  exact ⟨n', hn'.trans hn, h⟩

/-- A client that has its answer, or a fault, ends. -/
theorem Poised.ends {job : Job} {r : Except Fault Answer}
    (h : Poised i t i [] (w, ⟨job, .done (r.map fun a ↦ .all [a])⟩))
    (hw : w.Shows m none none threads) (hbegun : w.begun = []) (hi : i < threads.length) :
    Comes script i 1 t (m, r) := by
  have hlen : i < w.threads.length := by rwa [hw.threads]
  have hready : (place [] i (w, ⟨job, .done (r.map fun a ↦ .all [a])⟩)).ready = [] := by
    simp [place, hbegun]
  refine ⟨1, le_rfl, _, h.leads script hlen, ⟨hready, rfl, _, hw.setThread i _⟩, ?_⟩
  exact World.result?_eq_some_iff.2 ⟨job, List.getElem?_set_self hlen⟩

/-- A client whose question has been answered ends in one turn, and leaves the history at rest. -/
theorem Poised.answered {a : Answer}
    (h : Poised i t i [] (World.clientAfter q [] [] (w, .answered a)))
    (hw : w.Shows m none none threads) (hbegun : w.begun = []) (hi : i < threads.length) :
    Comes script i 1 t (m, .ok a) :=
  Poised.ends (r := .ok a) h hw hbegun hi

/-- A client whose question has failed ends in one turn, and leaves the history at rest. -/
theorem Poised.failed {e : Fault}
    (h : Poised i t i [] (World.clientAfter q [] [] (w, .failed e)))
    (hw : w.Shows m none none threads) (hbegun : w.begun = []) (hi : i < threads.length) :
    Comes script i 1 t (m, .error e) :=
  Poised.ends (r := .error e) h hw hbegun hi

/-- A client that must run a command has its answer after that. -/
theorem Poised.command {c : Command} {m' : Memory} {a : Answer}
    (h : Poised i t i [] (World.clientAfter q [] [] (w, .waits (.command c))))
    (hw : w.Shows m none none threads) (hbegun : w.begun = []) (hi : i < threads.length)
    (hrun : ∀ {w₁ : World} {threads₁ : List Thread}, w₁.Shows m none none threads₁ →
      ∃ w₂, (w₁.call c).afterCommand q c (script m.calls c) = (w₂, .answered a) ∧
        w₂.Shows m' none none threads₁ ∧ w₂.begun = w₁.begun) :
    Comes script i 2 t (m', .ok a) := by
  obtain ⟨⟨w₂, u⟩, hleads, hw₂, hbegun₂, hu⟩ :=
    Poised.run (R := fun u ↦ u = ⟨.client [] [a], .done (.ok (.all [a]))⟩) h hw hbegun hi
      (fun hne ↦ absurd rfl hne) fun hw₁ ↦ by
        obtain ⟨w₂, hadvance, hw₂, hbegun₂⟩ := hrun hw₁
        exact ⟨_, congrArg (World.clientAfter q [] []) hadvance, hw₂, hbegun₂, rfl⟩
  obtain rfl : u = _ := hu
  have hlen : i < w₂.threads.length := by rwa [hw₂.threads, List.length_set]
  have hbegun₃ : w₂.begun = [] := hbegun₂
  refine ⟨2, le_rfl, _, hleads, ⟨?_, rfl, _, hw₂.setThread i _⟩, ?_⟩
  · simp [place, hbegun₃]
  · exact World.result?_eq_some_iff.2 ⟨_, List.getElem?_set_self hlen⟩

/-- What a client does that must read the log of a file. -/
theorem Poised.readFile {key : String} (hscript : script.IsExpected)
    (h : Poised i t i [] (World.clientAfter q [] [] (w, .waits (.command (.fileLog key)))))
    (hw : w.Shows m none none threads) (hbegun : w.begun = []) (hi : i < threads.length) :
    Comes script i 2 t
      ((m.readFile script key).1, .ok (World.answerOf q (m.readFile script key).2)) := by
  refine h.command hw hbegun hi fun {w₁ threads₁} hw₁ ↦ ?_
  have hexpected := hscript m.calls (.fileLog key)
  have hcall := hw₁.call (.fileLog key)
  rw [Memory.readFile]
  rcases houtcome : script m.calls (.fileLog key) with fault | log
  · have hfault : fault.isExpected = true := hexpected fault houtcome
    simp only [World.afterCommand, hfault, if_true]
    exact ⟨_, rfl, ⟨hcall.memory, hcall.check, hcall.build, hcall.threads⟩, rfl⟩
  · exact ⟨_, rfl, hcall.tell key _, rfl⟩

/-- What a client does that asks about the commits of a file, and must look them up. -/
theorem Poised.lookUp {path : String} (hscript : script.IsExpected)
    (hpath : World.historyPath? q = some path) (hfound : (m.check script).2 = true)
    (h : Poised i t i [] (askByIndex q w.enterIndex)) (hw : w.Shows m none none threads)
    (hbegun : w.begun = []) (hi : i < threads.length) :
    Comes script i 8 t
      ((m.lookUp script (keyOf m.repo path)).1,
        .ok (World.answerOf q (m.lookUp script (keyOf m.repo path)).2)) := by
  obtain ⟨n, hn, t', w', a, threads', hleads, hpoised, ha, hw', hbegun', hlen⟩ :=
    h.index hscript (afterIndex_askByIndex q) hw hbegun hi
  have hkey : keyOf w'.repo path = keyOf m.repo path := by
    rw [hw'.repo, Memory.repo_readIndex]
  have hi' := hi.trans_le hlen
  rw [hfound] at ha
  rw [Memory.lookUp]
  rcases hread : m.readIndex script with ⟨m', index⟩
  rw [hread] at ha hw'
  cases index with
  | some x =>
    obtain rfl : a = .ready x := ha
    have hnext : w'.afterIndex q (.ready x) =
        (w'.tell (keyOf m.repo path) (x.commitsOf (keyOf m.repo path)),
          .answered (World.answerOf q (x.commitsOf (keyOf m.repo path)))) := by
      rw [World.afterIndex_ready_of_path hpath, World.fileFromIndex, hkey]
    rw [askByIndex, hnext] at hpoised
    exact (hleads.comes (hpoised.answered (hw'.tell _ _) hbegun' hi')).mono (by omega)
  | none =>
    -- the index is not to be had, so the log of the file is read instead
    obtain ⟨e, rfl, he⟩ := ha
    have hexpected : e.isExpected = true := he
    have hnext : w'.afterIndex q (.failed e) = (w'.note .debug
        s!"History index unavailable ({e.message}); reading log for {keyOf m.repo path}",
        .waits (.command (.fileLog (keyOf m.repo path)))) := by
      simp only [World.afterIndex, hpath, World.fileWithoutIndex, hexpected, if_true, hkey]
    rw [askByIndex, hnext] at hpoised
    exact (hleads.comes (hpoised.readFile hscript
      ⟨hw'.memory, hw'.check, hw'.build, hw'.threads⟩ hbegun' hi')).mono (by omega)

/-- What a client does whose question is about the whole history, once it has the index. -/
theorem Poised.answerFrom {x : LogIndex} (hpath : World.historyPath? q = none)
    (h : Poised i t i [] (askByIndex q (w, .ready x))) (hw : w.Shows m none none threads)
    (hbegun : w.begun = []) (hi : i < threads.length) :
    Comes script i 1 t (m.answerFrom x q) := by
  cases q with
  | together path threshold =>
    rw [Memory.answerFrom]
    obtain ⟨hkept, hbegun', hcommits⟩ := hw.commitsFor (keyOf m.repo (keyOf m.repo path)) x
    have hnext : w.afterIndex (.together path threshold) (.ready x) =
        ((w.commitsFor (keyOf m.repo (keyOf m.repo path)) x).1, .answered (.related
          (relatedOf x (keyOf m.repo path)
            (m.commitsFor (keyOf m.repo (keyOf m.repo path)) x).2 threshold))) := by
      simp only [World.afterIndex, hw.repo, hcommits]
    rw [askByIndex, hnext] at h
    exact h.answered hkept (hbegun'.trans hbegun) hi
  | recent days =>
    have hnow := hw.now
    rcases hsince : cutoff m.now days with fault | since
    · have hnext : w.afterIndex (.recent days) (.ready x) = (w, .failed (.span fault)) := by
        simp only [World.afterIndex, hnow, hsince]
      rw [askByIndex, hnext] at h
      simp only [Memory.answerFrom, hsince]
      exact h.failed hw hbegun hi
    · have hnext : w.afterIndex (.recent days) (.ready x) =
          (w, .answered (.recent (recentOf x since))) := by
        simp only [World.afterIndex, hnow, hsince]
      rw [askByIndex, hnext] at h
      simp only [Memory.answerFrom, hsince]
      exact h.answered hw hbegun hi
  | check | tracked => exact h.answered hw hbegun hi
  | history | ownership | frequency => cases hpath

/-- What a client does whose question is about the whole history. -/
theorem Poised.answerWhole (hscript : script.IsExpected) (hpath : World.historyPath? q = none)
    (h : Poised i t i [] (askByIndex q w.enterIndex)) (hw : w.Shows m none none threads)
    (hbegun : w.begun = []) (hi : i < threads.length) :
    Comes script i 7 t (m.answerWhole script q) := by
  obtain ⟨n, hn, t', w', a, threads', hleads, hpoised, ha, hw', hbegun', hlen⟩ :=
    h.index hscript (afterIndex_askByIndex q) hw hbegun hi
  have hi' := hi.trans_le hlen
  rw [Memory.answerWhole]
  rcases hread : m.readIndex script with ⟨m', index⟩
  rw [hread] at ha hw'
  refine (hleads.comes (k := 1) ?_).mono (by omega)
  cases index with
  | none =>
    obtain ⟨e, rfl, he⟩ := ha
    have hany : (e.isExpected || e.isNoRepository) = true := by
      split at he <;> simp [he]
    have hnext : w'.afterIndex q (.failed e) = (w', .answered (World.default q)) := by
      simp only [World.afterIndex, hpath, hany, if_true]
    rw [askByIndex, hnext] at hpoised
    exact hpoised.answered hw' hbegun' hi'
  | some x =>
    obtain rfl : a = .ready x := ha
    exact hpoised.answerFrom hpath hw' hbegun' hi'

/-- What a client does that lists the files. -/
theorem Poised.list (hscript : script.IsExpected)
    (h : Poised i t i [] (World.clientAfter .tracked [] [] (w, .waits (.command .listFiles))))
    (hw : w.Shows m none none threads) (hbegun : w.begun = []) (hi : i < threads.length) :
    Comes script i 2 t ((m.list script).1, .ok (.tracked (m.list script).2)) := by
  refine h.command hw hbegun hi fun {w₁ threads₁} hw₁ ↦ ?_
  have hexpected := hscript m.calls .listFiles
  rw [Memory.list]
  rcases houtcome : script m.calls .listFiles with fault | output
  · have hfault : fault.isExpected = true := hexpected fault houtcome
    simp only [World.afterCommand, hfault, if_true]
    exact ⟨_, rfl, hw₁.call .listFiles, rfl⟩
  · exact ⟨_, rfl, hw₁.call .listFiles, rfl⟩

/-- What a client does that asks about the commits of a file. -/
theorem Poised.commitsOf {path : String} (hscript : script.IsExpected)
    (hpath : World.historyPath? q = some path) (h : Poised i t i [] (askNext q w.enterCheck))
    (hw : w.Shows m none none threads) (hbegun : w.begun = []) (hi : i < threads.length) :
    Comes script i 11 t
      ((m.commitsOf script (keyOf m.repo path)).1,
        .ok (World.answerOf q (m.commitsOf script (keyOf m.repo path)).2)) := by
  obtain ⟨n, hn, t', w', threads', hleads, hpoised, hw', hbegun', hlen, -⟩ :=
    h.check hscript (afterCheck_askNext q) hw hbegun hi hi (by simp) (by simp)
  have hi' := hi.trans_le hlen
  have hkey : keyOf w'.repo path = keyOf m.repo path := by rw [hw'.repo, Memory.repo_check]
  refine (hleads.comes (k := 8) ?_).mono (by omega)
  rw [Memory.commitsOf]
  have hbelow := m.isSome_below_check script
  rcases hcheck : m.check script with ⟨m', _ | _⟩
  all_goals rw [hcheck] at hpoised hw' hbelow
  · -- there is no repository
    have hnext : w'.afterCheck q (World.tellsCheck m.repo false) =
        (w', .answered (World.answerOf q [])) := by
      rw [← default_eq_answerOf hpath]
      cases q <;> cases hpath <;> rfl
    rw [askNext, hnext] at hpoised
    exact (hpoised.answered hw' hbegun' hi').mono (by omega)
  · have hrepo : m'.repo = m.repo := by rw [← m.repo_check script, hcheck]
    have hnext := World.afterCheck_ready_of_path hpath w'
    rw [askNext, World.tellsCheck, if_pos rfl, hnext, hkey] at hpoised
    dsimp only
    by_cases hempty : keyOf m.repo path = ""
    · rw [if_pos hempty] at hpoised ⊢
      rw [default_eq_answerOf hpath] at hpoised
      exact (hpoised.answered hw' hbegun' hi').mono (by omega)
    · rw [if_neg hempty] at hpoised ⊢
      rw [hw'.told] at hpoised
      rcases htold : m'.told.lookup (keyOf m.repo path) with - | cs
      · rw [htold] at hpoised
        rw [← hrepo] at *
        have hfound : (m'.check script).2 = true := by rw [Memory.check_of_below hbelow]
        exact hpoised.lookUp hscript hpath hfound hw' hbegun' hi'
      · rw [htold] at hpoised
        exact (hpoised.answered hw' hbegun' hi').mono (by omega)

/-- What a client does that asks only for the check. -/
theorem Poised.answerCheck (hscript : script.IsExpected)
    (h : Poised i t i [] (askNext .check w.enterCheck)) (hw : w.Shows m none none threads)
    (hbegun : w.begun = []) (hi : i < threads.length) :
    Comes script i 4 t (m.answer script .check) := by
  obtain ⟨n, hn, t', w', threads', hleads, hpoised, hw', hbegun', hlen, -⟩ :=
    h.check hscript (afterCheck_askNext .check) hw hbegun hi hi (by simp) (by simp)
  have hi' := hi.trans_le hlen
  refine (hleads.comes (k := 1) ?_).mono (by omega)
  have hrepo := m.repo_check script
  rw [Memory.answer]
  rcases hcheck : m.check script with ⟨m', _ | _⟩
  all_goals rw [hcheck] at hpoised hw' hrepo
  · dsimp only
    rw [show m'.repo = m.repo from hrepo]
    exact hpoised.failed hw' hbegun' hi'
  · exact hpoised.answered hw' hbegun' hi'

/-- What a client does that asks for the files under version control. -/
theorem Poised.answerTracked (hscript : script.IsExpected)
    (h : Poised i t i [] (askNext .tracked w.enterCheck)) (hw : w.Shows m none none threads)
    (hbegun : w.begun = []) (hi : i < threads.length) :
    Comes script i 5 t (m.answer script .tracked) := by
  obtain ⟨n, hn, t', w', threads', hleads, hpoised, hw', hbegun', hlen, -⟩ :=
    h.check hscript (afterCheck_askNext .tracked) hw hbegun hi hi (by simp) (by simp)
  have hi' := hi.trans_le hlen
  refine (hleads.comes (k := 2) ?_).mono (by omega)
  rw [Memory.answer]
  rcases hcheck : m.check script with ⟨m', _ | _⟩
  all_goals rw [hcheck] at hpoised hw'
  · exact (hpoised.answered hw' hbegun' hi').mono (by omega)
  · exact hpoised.list hscript hw' hbegun' hi'

/-- A client that asks a question has the answer of the sequential program, within some turns. -/
theorem Poised.answer (hscript : script.IsExpected)
    (h : Poised i t i [] (World.clientAfter q [] [] (w.beginQuery q)))
    (hw : w.Shows m none none threads) (hbegun : w.begun = []) (hi : i < threads.length) :
    Comes script i 11 t (m.answer script q) := by
  cases q with
  | check => exact (Poised.answerCheck hscript h hw hbegun hi).mono (by omega)
  | history | ownership | frequency => exact Poised.commitsOf hscript rfl h hw hbegun hi
  | together path threshold =>
    rw [World.beginQuery, hw.repo] at h
    rw [Memory.answer]
    split_ifs at h ⊢ with hempty
    · exact (h.answered hw hbegun hi).mono (by omega)
    · exact (Poised.answerWhole hscript rfl h hw hbegun hi).mono (by omega)
  | recent => exact (Poised.answerWhole hscript rfl h hw hbegun hi).mono (by omega)
  | tracked => exact (Poised.answerTracked hscript h hw hbegun hi).mono (by omega)

/-- A client with one question goes on with nothing behind it. -/
theorem clientFrom_singleton (w : World) (q : Query) :
    w.clientFrom [q] [] = World.clientAfter q [] [] (w.beginQuery q) := by
  rw [World.clientFrom]
  rcases w.beginQuery q with ⟨w', _ | _ | _⟩ <;> rfl

/-- **The sequential program.** Where one question is asked at a time, and every command succeeds or
fails as expected, an answer is that of the program, and the history knows afterwards what the
program then knows. -/
theorem AtRest.ask (hscript : script.IsExpected) (h : t.AtRest m) (q : Query) :
    (t.ask script q).1.AtRest (m.answer script q).1 ∧
      (t.ask script q).2 = (m.answer script q).2 := by
  obtain ⟨hready, hwaiting, threads, hshows⟩ := h
  set i := t.world.threads.length
  -- the state in which the client alone is in the queue
  let t₀ : Turns := { world := (t.world.spawn (.client [q] [])).1, ready := [i] }
  have hnext : t₀.next script = t.asking script q := by
    rw [next, asking]
    dsimp only [t₀]
    rw [← hready, ← hwaiting]
  have hself : t₀.world.threads[i]? = some ⟨.client [q] [], .start⟩ := List.getElem?_concat_length
  have hlive : t₀.world.result? i = none := by rw [World.result?, hself]
  have hpoised : Poised i t₀ i [] (World.clientAfter q [] [] (t₀.world.rested.beginQuery q)) :=
    ⟨rfl, rfl, hlive, _, hself, fun _ ↦ clientFrom_singleton _ _⟩
  have hnow : t₀.world.rested.Shows m none none (threads ++ [⟨.client [q] [], .start⟩]) := by
    obtain ⟨rfl, hcheck, hbuild, rfl⟩ := hshows
    exact ⟨rfl, hcheck, hbuild, rfl⟩
  have hi : i < (threads ++ [(⟨.client [q] [], .start⟩ : Thread)]).length := by
    rw [← hshows.threads, List.length_append]
    exact Nat.lt_succ_self i
  obtain ⟨n, hn, t', hleads, hrest, hresult⟩ := hpoised.answer hscript hnow rfl hi
  cases hleads with
  | rest => exact absurd (hlive.symm.trans hresult) (by simp)
  | turn _ _ hleads =>
    rw [hnext] at hleads
    rw [hleads.ask (by omega) hrest.ready hresult]
    exact ⟨hrest, rfl⟩

end Turns

end RepoSurvey.History
