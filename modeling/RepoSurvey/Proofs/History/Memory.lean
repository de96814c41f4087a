import RepoSurvey.Proofs.History.FileLogs

/-!
# A history that is used by one client

Where questions are asked one after the other nobody waits, and a history is a program that goes
through its commands. `Memory` is what the program has in mind: what a world knows, without threads
and slots. `Memory.answer` is the program, for commands that succeed or fail as expected.

Whatever it is asked, only a few things happen to a memory, which are the cases of `Memory.Step`
(`Memory.steps_answer`). So what each of them keeps is kept for good: the commits that are
remembered of a file stay (`Memory.Steps.keeps`), they come to be remembered only where the whole
log or the file's own has been read (`Memory.Steps.source`), and what is known of a repository has
been found out by commands that have succeeded (`Memory.Sound`).
-/

namespace RepoSurvey.History

open RepoSurvey.Assoc

/-- What a history knows, and the commands that it has run, latest first. -/
structure Memory where
  repo : String
  now : Int
  below : Option String := none
  refused : Bool := false
  index : Option LogIndex := none
  told : List (String × List Commit) := []
  calls : List Command := []

/-- What a world knows. -/
def World.memory (w : World) : Memory :=
  { repo := w.repo
    now := w.now
    below := w.below
    refused := w.refused
    index := w.index
    told := w.told
    calls := w.calls }

namespace Memory

/-- Runs a command. -/
def call (m : Memory) (c : Command) : Memory := { m with calls := c :: m.calls }

/-- Remembers the commits of a file. -/
def tell (m : Memory) (key : String) (cs : List Commit) : Memory :=
  { m with told := Assoc.set key cs m.told }

/-- Remembers the commits of files of which none are remembered. -/
def tellAll (m : Memory) (files : List (String × List Commit)) : Memory :=
  { m with
    told := files.foldl (fun told f ↦ modify f.1 (fun old ↦ old.getD f.2) told) m.told }

variable (script : Script)

/-- Looks whether there is a repository. -/
def look (m : Memory) : Memory × Bool :=
  match script m.calls .showPrefix with
  | .ok output => ({ m.call .showPrefix with below := some (belowOf output) }, true)
  | .error _ => ({ m.call .showPrefix with refused := true }, false)

/-- Finds out whether there is a repository. -/
def check (m : Memory) : Memory × Bool :=
  if m.below.isSome then (m, true) else if m.refused then (m, false) else m.look script

/-- Reads the whole log, in a directory that lies in a repository. -/
def readLog (m : Memory) : Memory × Option LogIndex :=
  match script m.calls .fullLog with
  | .ok log =>
    let x := parseLog (m.below.getD "") log
    ((m.call .fullLog).tellAll x.fileCommits, some x)
  | .error _ => (m.call .fullLog, none)

/-- Reads the whole log, if there is a repository. -/
def build (m : Memory) : Memory × Option LogIndex :=
  match m.check script with
  | (m, true) => m.readLog script
  | (m, false) => (m, none)

/-- Keeps an index. -/
def keep (m : Memory) (x : LogIndex) : Memory := { m with index := some x }

/-- The index of the whole log, if it can be had. -/
def readIndex (m : Memory) : Memory × Option LogIndex :=
  match m.index with
  | some x => (m, some x)
  | none =>
    match m.build script with
    | (m, some x) => (m.keep x, some x)
    | (m, none) => (m, none)

/-- The commits of a key by its own log; none if this cannot be read. -/
def readFile (m : Memory) (key : String) : Memory × List Commit :=
  match script m.calls (.fileLog key) with
  | .ok log =>
    let cs := (parseLog "" log).commits
    ((m.call (.fileLog key)).tell key cs, cs)
  | .error _ => (m.call (.fileLog key), [])

/-- The commits of a key that are not remembered. -/
def lookUp (m : Memory) (key : String) : Memory × List Commit :=
  match m.readIndex script with
  | (m, some x) => (m.tell key (x.commitsOf key), x.commitsOf key)
  | (m, none) => m.readFile script key

/-- The commits of a key; none if there is no repository or no key. -/
def commitsOf (m : Memory) (key : String) : Memory × List Commit :=
  match m.check script with
  | (m, false) => (m, [])
  | (m, true) =>
    if key = "" then (m, [])
    else
      match m.told.lookup key with
      | some cs => (m, cs)
      | none => m.lookUp script key

/-- The commits of a key, given the index; those of the index come to be remembered. -/
def commitsFor (m : Memory) (key : String) (x : LogIndex) : Memory × List Commit :=
  if key = "" then (m, [])
  else
    match m.told.lookup key with
    | some cs => (m, cs)
    | none => (m.tell key (x.commitsOf key), x.commitsOf key)

/-- Answers a question about the whole history, given the index. -/
def answerFrom (m : Memory) (x : LogIndex) : Query → Memory × Except Fault Answer
  | .together path threshold =>
    let key := keyOf m.repo path
    let go := m.commitsFor (keyOf m.repo key) x
    (go.1, .ok (.related (relatedOf x key go.2 threshold)))
  | .recent days =>
    match cutoff m.now days with
    | .ok since => (m, .ok (.recent (recentOf x since)))
    | .error fault => (m, .error (.span fault))
  | q => (m, .ok (World.default q))

/-- Answers a question about the whole history. -/
def answerWhole (m : Memory) (q : Query) : Memory × Except Fault Answer :=
  match m.readIndex script with
  | (m, some x) => m.answerFrom x q
  | (m, none) => (m, .ok (World.default q))

/-- Lists the files under version control. -/
def list (m : Memory) : Memory × List String :=
  match script m.calls .listFiles with
  | .ok output => (m.call .listFiles, trackedOf output)
  | .error _ => (m.call .listFiles, [])

/-- Answers a question. -/
def answer (m : Memory) (q : Query) : Memory × Except Fault Answer :=
  match q with
  | .check =>
    match m.check script with
    | (m, true) => (m, .ok .nothing)
    | (m, false) => (m, .error (.notARepository m.repo))
  | .history path | .ownership path | .frequency path =>
    let go := m.commitsOf script (keyOf m.repo path)
    (go.1, .ok (World.answerOf q go.2))
  | .together path _ =>
    if keyOf m.repo path = "" then (m, .ok (World.default q)) else m.answerWhole script q
  | .recent _ => m.answerWhole script q
  | .tracked =>
    match m.check script with
    | (m, true) =>
      let go := m.list script
      (go.1, .ok (.tracked go.2))
    | (m, false) => (m, .ok (World.default q))

/-! ### What happens to a memory -/

/-- One thing that happens to a memory. -/
inductive Step (script : Script) : Memory → Memory → Prop
  /-- There is a repository. -/
  | found {m : Memory} {output : String} (hbelow : m.below = none)
      (h : script m.calls .showPrefix = .ok output) :
      Step script m { m.call .showPrefix with below := some (belowOf output) }
  /-- There is none. -/
  | refused {m : Memory} {fault : CommandFault} (h : script m.calls .showPrefix = .error fault) :
      Step script m { m.call .showPrefix with refused := true }
  /-- The whole log is read. -/
  | indexed {m : Memory} {b log : String} (hbelow : m.below = some b)
      (h : script m.calls .fullLog = .ok log) :
      Step script m
        (((m.call .fullLog).tellAll (parseLog b log).fileCommits).keep (parseLog b log))
  /-- The commits of a file are had from the index. -/
  | told {m : Memory} {x : LogIndex} {key : String} (hindex : m.index = some x)
      (hold : ∀ cs, m.told.lookup key = some cs → cs = x.commitsOf key) :
      Step script m (m.tell key (x.commitsOf key))
  /-- The log of a file is read of which no commits are remembered. -/
  | own {m : Memory} {key log : String} (hbelow : m.below.isSome = true)
      (htold : m.told.lookup key = none) (h : script m.calls (.fileLog key) = .ok log) :
      Step script m ((m.call (.fileLog key)).tell key (parseLog "" log).commits)
  /-- A command is run, and nothing is learnt from it. -/
  | idle {m : Memory} {c : Command} (h : ∀ output, script m.calls c = .ok output → c = .listFiles) :
      Step script m (m.call c)

/-- What happens to a memory, one thing after the other. -/
abbrev Steps (script : Script) : Memory → Memory → Prop := Relation.ReflTransGen (Step script)

variable {script : Script} {m m' : Memory} {key : String} {cs : List Commit}

/-- What is told of a file goes before what was remembered of it. -/
theorem lookup_tell (m : Memory) (a key : String) (cs : List Commit) :
    (m.tell key cs).told.lookup a = if a == key then some cs else m.told.lookup a :=
  lookup_modify a key (fun _ ↦ cs) m.told

/-- What was remembered goes before what comes to be told. -/
theorem lookup_tellAll (m : Memory) (files : List (String × List Commit)) (key : String) :
    (m.tellAll files).told.lookup key = (m.told.lookup key).or (files.lookup key) := by
  induction files generalizing m with
  | nil => simp [tellAll]
  | cons file files ih =>
    have hfirst := ih { m with told := modify file.1 (fun old ↦ old.getD file.2) m.told }
    have hsame : (m.tellAll (file :: files)).told.lookup key = _ := hfirst
    rw [hsame, lookup_modify, List.lookup_cons]
    by_cases hkey : key = file.1
    · rw [hkey]
      cases m.told.lookup file.1 <;> simp
    · have hkey' : (key == file.1) = false := by simpa using hkey
      simp [hkey']

theorem Step.repo (h : Step script m m') : m'.repo = m.repo := by
  cases h <;> rfl

/-- Commands that have been run are not forgotten. -/
theorem Step.calls (h : Step script m m') : m.calls <:+ m'.calls := by
  cases h with
  | told => exact List.suffix_rfl
  | _ => exact List.suffix_cons _ _

/-- Where the directory lies is found out once. -/
theorem Step.below (h : Step script m m') (hbelow : m.below.isSome = true) :
    m'.below = m.below := by
  cases h with
  | found hnone => simp [hnone] at hbelow
  | _ => rfl

/-- What is remembered of a file stays. -/
theorem Step.keeps (h : Step script m m') (hkey : m.told.lookup key = some cs) :
    m'.told.lookup key = some cs := by
  cases h with
  | found | refused | idle => exact hkey
  | indexed =>
    have htold := (m.call .fullLog).lookup_tellAll
    exact (htold _ _).trans (by rw [show (m.call .fullLog).told = m.told from rfl, hkey]; rfl)
  | @told x key' _ hold =>
    rw [lookup_tell]
    split
    · rename_i heq
      obtain rfl : key = key' := by simpa using heq
      rw [hold cs hkey]
    · exact hkey
  | @own key' _ _ htold =>
    rw [lookup_tell, if_neg]
    · exact hkey
    · intro heq
      obtain rfl : key = key' := by simpa using heq
      rw [hkey] at htold
      cases htold

/-- An index that is there stays there. -/
theorem Step.index (h : Step script m m') (hindex : m.index.isSome = true) :
    m'.index.isSome = true := by
  cases h with
  | indexed => rfl
  | _ => exact hindex

/-- The commits of a file come to be remembered when there is an index, or when the log of this file
is read. -/
theorem Step.source (h : Step script m m') (hnone : m.told.lookup key = none)
    (hkey : m'.told.lookup key = some cs) :
    m'.index.isSome = true ∨
      m'.calls = .fileLog key :: m.calls ∧ ∃ log, script m.calls (.fileLog key) = .ok log := by
  cases h with
  | found | refused | idle => exact absurd (hnone.symm.trans hkey) (by simp)
  | indexed => exact Or.inl rfl
  | told hindex => exact Or.inl (Option.isSome_iff_exists.2 ⟨_, hindex⟩)
  | @own key' log _ _ hlog =>
    by_cases heq : key = key'
    · rw [heq]
      exact Or.inr ⟨rfl, log, hlog⟩
    · have hne : (key == key') = false := by simpa using heq
      rw [lookup_tell, hne] at hkey
      exact absurd (hnone.symm.trans hkey) (by simp)

/-- A command that is found among those run, and was not found before, is the one that has been run
last. -/
theorem eq_of_suffix_cons {c d : Command} {past calls : List Command}
    (hold : ¬ d :: past <:+ calls) (hnew : d :: past <:+ c :: calls) : c = d ∧ past = calls := by
  rcases List.suffix_cons_iff.1 hnew with heq | hnew
  · exact ⟨(List.cons.inj heq).1.symm, (List.cons.inj heq).2⟩
  · exact absurd hnew hold

/-- When the log of a file has been read, the commits that it lists are remembered. -/
theorem Step.own_log {past : List Command} {log : String} (h : Step script m m')
    (hold : ¬ .fileLog key :: past <:+ m.calls) (hnew : .fileLog key :: past <:+ m'.calls)
    (hlog : script past (.fileLog key) = .ok log) :
    m'.told.lookup key = some (parseLog "" log).commits := by
  cases h with
  | found | refused | indexed => exact absurd (eq_of_suffix_cons hold hnew).1 (by simp)
  | told => exact absurd hnew hold
  | @own key' log' _ _ hlog' =>
    obtain ⟨hc, rfl⟩ := eq_of_suffix_cons hold hnew
    obtain rfl : key' = key := Command.fileLog.inj hc
    obtain rfl : log' = log := Except.ok.inj (hlog'.symm.trans hlog)
    rw [lookup_tell, if_pos (beq_self_eq_true key')]
  | idle h =>
    obtain ⟨rfl, rfl⟩ := eq_of_suffix_cons hold hnew
    exact absurd (h _ hlog) (by simp)

/-- What is known of a repository has been found out by commands that have succeeded. -/
structure Sound (script : Script) (m : Memory) : Prop where
  below : ∀ past output, .showPrefix :: past <:+ m.calls → script past .showPrefix = .ok output →
    m.below = some (belowOf output)
  index : ∀ x, m.index = some x → m.below.isSome = true ∧
    ∃ past log, .fullLog :: past <:+ m.calls ∧ script past .fullLog = .ok log
  told : ∀ key cs, m.told.lookup key = some cs → m.below.isSome = true

/-- A history that has not been asked anything knows nothing, so all that it knows is sound. -/
theorem sound_fresh (script : Script) (repo : String) (now : Int) :
    ({ repo, now } : Memory).Sound script where
  below _ _ h := absurd h (by simp)
  index _ h := nomatch h
  told _ _ h := nomatch h

/-- Where a check has succeeded, no other check follows, so what it has found is known. -/
theorem Step.below_of_showPrefix {past : List Command} {output : String} (h : Step script m m')
    (hold : ¬ .showPrefix :: past <:+ m.calls) (hnew : .showPrefix :: past <:+ m'.calls)
    (hok : script past .showPrefix = .ok output) : m'.below = some (belowOf output) := by
  cases h with
  | found _ h =>
    obtain ⟨-, rfl⟩ := eq_of_suffix_cons hold hnew
    obtain rfl := Except.ok.inj (hok.symm.trans h)
    rfl
  | refused h =>
    obtain ⟨-, rfl⟩ := eq_of_suffix_cons hold hnew
    exact absurd (h.symm.trans hok) (by simp)
  | indexed | own => exact absurd (eq_of_suffix_cons hold hnew).1 (by simp)
  | told => exact absurd hnew hold
  | idle h =>
    obtain ⟨rfl, rfl⟩ := eq_of_suffix_cons hold hnew
    exact absurd (h _ hok) (by simp)

/-- Whatever happens to a memory, what it knows has been found out by commands that have succeeded.
-/
theorem Step.sound (h : Step script m m') (hm : m.Sound script) : m'.Sound script where
  below past output hrun hok := by
    by_cases hold : .showPrefix :: past <:+ m.calls
    · have hbelow := hm.below past output hold hok
      rw [h.below (by rw [hbelow]; rfl), hbelow]
    · exact h.below_of_showPrefix hold hrun hok
  index x hx := by
    have hkeep := h.below
    have hcalls := h.calls
    cases h with
    | indexed hbelow h => exact ⟨Option.isSome_iff_exists.2 ⟨_, hbelow⟩, _, _, List.suffix_rfl, h⟩
    | found | refused | told | own | idle =>
      obtain ⟨hsome, past, log, hrun, hlog⟩ := hm.index x hx
      exact ⟨by rw [hkeep hsome, hsome], past, log, hrun.trans hcalls, hlog⟩
  told key cs hkey := by
    rcases hold : m.told.lookup key with - | cs'
    · cases h with
      | found | refused | idle => exact absurd (hold.symm.trans hkey) (by simp)
      | indexed hbelow => exact Option.isSome_iff_exists.2 ⟨_, hbelow⟩
      | told hindex => exact (hm.index _ hindex).1
      | own hbelow => exact hbelow
    · have hsome := hm.told key cs' hold
      rw [h.below hsome, hsome]

/-! ### A run -/

theorem Steps.repo (h : Steps script m m') : m'.repo = m.repo := by
  induction h with
  | refl => rfl
  | tail _ h ih => rw [h.repo, ih]

/-- Commands that have been run are not forgotten, however much happens. -/
theorem Steps.calls (h : Steps script m m') : m.calls <:+ m'.calls := by
  induction h with
  | refl => exact List.suffix_rfl
  | tail _ h ih => exact ih.trans h.calls

theorem Steps.below (h : Steps script m m') (hbelow : m.below.isSome = true) :
    m'.below = m.below := by
  induction h with
  | refl => rfl
  | tail _ h ih => rw [h.below (by rw [ih, hbelow]), ih]

theorem Steps.index (h : Steps script m m') (hindex : m.index.isSome = true) :
    m'.index.isSome = true := by
  induction h with
  | refl => exact hindex
  | tail _ h ih => exact h.index ih

/-- What is remembered of a file stays, whatever else happens. -/
theorem Steps.keeps (h : Steps script m m') (hkey : m.told.lookup key = some cs) :
    m'.told.lookup key = some cs := by
  induction h with
  | refl => exact hkey
  | tail _ h ih => exact h.keeps ih

/-- What is known stays sound, whatever happens. -/
theorem Steps.sound (h : Steps script m m') (hm : m.Sound script) : m'.Sound script := by
  induction h with
  | refl => exact hm
  | tail _ h ih => exact h.sound ih

/-- Commits of a file come to be remembered along with an index, or by the log of this file that is
read on the way. -/
theorem Steps.source (h : Steps script m m') (hnone : m.told.lookup key = none)
    (hkey : m'.told.lookup key = some cs) :
    m'.index.isSome = true ∨ ∃ past log, m.calls <:+ past ∧ .fileLog key :: past <:+ m'.calls ∧
      script past (.fileLog key) = .ok log := by
  induction h generalizing cs with
  | refl => exact absurd (hnone.symm.trans hkey) (by simp)
  | @tail m₁ m₂ hsteps h ih =>
    rcases hmid : m₁.told.lookup key with - | cs'
    · rcases h.source hmid hkey with hindex | ⟨hcalls, log, hlog⟩
      · exact Or.inl hindex
      · exact Or.inr ⟨m₁.calls, log, Steps.calls hsteps, hcalls ▸ List.suffix_rfl, hlog⟩
    · rcases ih hmid with hindex | ⟨past, log, hpast, hrun, hlog⟩
      · exact Or.inl (h.index hindex)
      · exact Or.inr ⟨past, log, hpast, hrun.trans h.calls, hlog⟩

/-- If the log of a file is read on the way, and can be read, the commits that it lists are
remembered in the end. -/
theorem Steps.own_log {past : List Command} {log : String} (h : Steps script m m')
    (hpast : m.calls <:+ past) (hrun : .fileLog key :: past <:+ m'.calls)
    (hlog : script past (.fileLog key) = .ok log) :
    m'.told.lookup key = some (parseLog "" log).commits := by
  induction h with
  | refl =>
    have hlen := hrun.length_le.trans hpast.length_le
    exact absurd hlen (by simp)
  | @tail m₁ m₂ _ h ih =>
    by_cases hold : .fileLog key :: past <:+ m₁.calls
    · exact h.keeps (ih hold)
    · exact h.own_log hold hrun hlog

/-! ### The program -/

/-- The check runs a command at most, and notes what it tells. -/
theorem steps_check (script : Script) (m : Memory) : Steps script m (m.check script).1 := by
  rw [check, look]
  split_ifs with hsome
  · exact .refl
  · exact .refl
  · have hbelow : m.below = none := by simpa using hsome
    split
    · rename_i h
      exact .single (.found hbelow h)
    · rename_i h
      exact .single (.refused h)

theorem repo_check (script : Script) (m : Memory) : (m.check script).1.repo = m.repo :=
  (m.steps_check script).repo

theorem told_check (script : Script) (m : Memory) : (m.check script).1.told = m.told := by
  rw [check, look]
  split_ifs
  · rfl
  · rfl
  · split <;> rfl

theorem index_check (script : Script) (m : Memory) : (m.check script).1.index = m.index := by
  rw [check, look]
  split_ifs
  · rfl
  · rfl
  · split <;> rfl

theorem check_of_below (hbelow : m.below.isSome = true) : m.check script = (m, true) := by
  rw [check, if_pos hbelow]

/-- The check tells whether it is known where the directory lies. -/
theorem isSome_below_check (script : Script) (m : Memory) :
    (m.check script).1.below.isSome = (m.check script).2 := by
  rw [check, look]
  split_ifs with hsome
  · exact hsome
  · simpa using hsome
  · split
    · rfl
    · simpa [call] using hsome

/-- What it is to read the index. -/
inductive Reading (script : Script) (m : Memory) : Memory × Option LogIndex → Prop
  /-- It is there. -/
  | known {x : LogIndex} (h : m.index = some x) : Reading script m (m, some x)
  /-- There is no repository. -/
  | refused (hindex : m.index = none) (h : (m.check script).2 = false) :
      Reading script m ((m.check script).1, none)
  /-- The whole log cannot be read. -/
  | failed {fault : CommandFault} (hindex : m.index = none) (h : (m.check script).2 = true)
      (hlog : script (m.check script).1.calls .fullLog = .error fault) :
      Reading script m ((m.check script).1.call .fullLog, none)
  /-- The whole log is read. -/
  | read {b log : String} (hindex : m.index = none) (h : (m.check script).1.below = some b)
      (hlog : script (m.check script).1.calls .fullLog = .ok log) :
      Reading script m
        ((((m.check script).1.call .fullLog).tellAll (parseLog b log).fileCommits).keep
          (parseLog b log), some (parseLog b log))

/-- What reading the index comes to: it is there, the whole log is read now, or it cannot be had. -/
theorem reading_readIndex (script : Script) (m : Memory) :
    Reading script m (m.readIndex script) := by
  rw [readIndex]
  rcases hindex : m.index with - | x
  · have hbelow := m.isSome_below_check script
    rw [build]
    rcases hcheck : m.check script with ⟨m₁, _ | _⟩
    · have hrefused : Reading script m ((m.check script).1, none) :=
        .refused hindex (by rw [hcheck])
      rwa [hcheck] at hrefused
    · obtain ⟨b, hb⟩ := Option.isSome_iff_exists.1 (hbelow.trans (by rw [hcheck]))
      have hm₁ : (m.check script).1 = m₁ := by rw [hcheck]
      dsimp only
      rw [readLog]
      rcases hlog : script m₁.calls .fullLog with fault | log
      · have hfailed : Reading script m ((m.check script).1.call .fullLog, none) :=
          .failed hindex (by rw [hcheck]) (by rw [hm₁]; exact hlog)
        rwa [hm₁] at hfailed
      · have hlog₁ : script (m.check script).1.calls .fullLog = .ok log := by rw [hm₁, hlog]
        have hread := Reading.read hindex hb hlog₁
        rw [hm₁] at hread hb
        dsimp only
        rwa [hb]
  · exact .known hindex

namespace Reading

variable {go : Memory × Option LogIndex} {x : LogIndex}

/-- To read the index takes steps of the kind that may happen to a memory. -/
theorem steps (h : Reading script m go) : Steps script m go.1 := by
  have hcheck := m.steps_check script
  cases h with
  | known => exact .refl
  | refused => exact hcheck
  | failed _ _ hlog => exact hcheck.tail (.idle fun _ h ↦ absurd (hlog.symm.trans h) (by simp))
  | read _ h hlog => exact hcheck.tail (.indexed h hlog)

/-- The index that has been read is the one that is kept. -/
theorem index (h : Reading script m go) : go.1.index = go.2 := by
  have hcheck := m.index_check script
  cases h with
  | known h => exact h
  | refused hindex => rw [hcheck, hindex]
  | failed hindex => exact hcheck.trans hindex
  | read => rfl

/-- Where no index can be had, nothing is told of files. -/
theorem told_of_none (h : Reading script m go) (hnone : go.2 = none) : go.1.told = m.told := by
  have hcheck := m.told_check script
  cases h with
  | known | read => cases hnone
  | refused | failed => exact hcheck

/-- What is remembered of a file, of which nothing was remembered before the index was read, is what
the index has. -/
theorem hold (h : Reading script m go) (hx : go.2 = some x) (hnone : m.told.lookup key = none)
    (hkey : go.1.told.lookup key = some cs) : cs = x.commitsOf key := by
  have hcheck := m.told_check script
  cases h with
  | known => exact absurd (hnone.symm.trans hkey) (by simp)
  | refused | failed => cases hx
  | @read b log =>
    obtain rfl := Option.some.inj hx
    have hlookup : ((m.check script).1.call .fullLog).told.lookup key = none := by
      rw [← hnone, ← hcheck]
      rfl
    have htold := lookup_tellAll ((m.check script).1.call .fullLog) (parseLog b log).fileCommits key
    rw [hlookup, Option.none_or] at htold
    have hfile : (parseLog b log).fileCommits.lookup key = some cs := htold.symm.trans hkey
    rw [LogIndex.commitsOf, hfile, Option.getD_some]

end Reading

theorem repo_readIndex (script : Script) (m : Memory) : (m.readIndex script).1.repo = m.repo :=
  (m.reading_readIndex script).steps.repo

/-- The log of a file is read only in a repository, and if nothing is remembered of that file. -/
theorem steps_readFile (hbelow : m.below.isSome = true) (htold : m.told.lookup key = none) :
    Steps script m (m.readFile script key).1 := by
  rw [readFile]
  split
  · rename_i h
    exact .single (.own hbelow htold h)
  · rename_i h
    exact .single (.idle fun _ h' ↦ absurd (h.symm.trans h') (by simp))

/-- A file that is looked up is found in the index, or in its own log. -/
theorem steps_lookUp (hbelow : m.below.isSome = true) (htold : m.told.lookup key = none) :
    Steps script m (m.lookUp script key).1 := by
  have hread := m.reading_readIndex script
  rw [lookUp]
  rcases hgo : m.readIndex script with ⟨m₁, _ | x⟩ <;> rw [hgo] at hread
  · refine hread.steps.trans (steps_readFile ?_ ?_)
    · rw [hread.steps.below hbelow, hbelow]
    · rw [hread.told_of_none rfl, htold]
  · exact hread.steps.tail (.told hread.index fun cs ↦ hread.hold rfl htold)

/-- Asking for the commits of a file takes steps of the kind that may happen to a memory. -/
theorem steps_commitsOf (script : Script) (m : Memory) (key : String) :
    Steps script m (m.commitsOf script key).1 := by
  have hcheck := m.steps_check script
  have hbelow := m.isSome_below_check script
  rw [commitsOf]
  rcases hgo : m.check script with ⟨m₁, _ | _⟩ <;> rw [hgo] at hcheck hbelow
  · exact hcheck
  · dsimp only
    split_ifs
    · exact hcheck
    · split
      · exact hcheck
      · rename_i htold
        exact hcheck.trans (steps_lookUp hbelow htold)

/-- The same for the commits of a key in an index. -/
theorem steps_commitsFor {x : LogIndex} (hindex : m.index = some x) (key : String) :
    Steps script m (m.commitsFor key x).1 := by
  rw [commitsFor]
  split_ifs
  · exact .refl
  · split
    · exact .refl
    · rename_i htold
      exact .single (.told hindex fun cs h ↦ absurd (htold.symm.trans h) (by simp))

/-- The same for a question about the whole history that an index answers. -/
theorem steps_answerFrom {x : LogIndex} (hindex : m.index = some x) (q : Query) :
    Steps script m (m.answerFrom x q).1 := by
  cases q with
  | together =>
    rw [answerFrom]
    dsimp only
    exact steps_commitsFor hindex _
  | recent =>
    rw [answerFrom]
    split <;> exact .refl
  | _ => exact .refl

/-- The same for any question about the whole history. -/
theorem steps_answerWhole (script : Script) (m : Memory) (q : Query) :
    Steps script m (m.answerWhole script q).1 := by
  have hread := m.reading_readIndex script
  rw [answerWhole]
  rcases hgo : m.readIndex script with ⟨m₁, _ | x⟩ <;> rw [hgo] at hread
  · exact hread.steps
  · exact hread.steps.trans (steps_answerFrom hread.index q)

theorem steps_list (script : Script) (m : Memory) : Steps script m (m.list script).1 := by
  rw [list]
  split
  · exact .single (.idle fun _ _ ↦ rfl)
  · rename_i h
    exact .single (.idle fun _ h' ↦ absurd (h.symm.trans h') (by simp))

/-- **Whatever is asked, only steps happen to a memory.** So what a step preserves is preserved by
every question, and by every run of questions. -/
theorem steps_answer (script : Script) (m : Memory) (q : Query) :
    Steps script m (m.answer script q).1 := by
  have hcheck := m.steps_check script
  cases q with
  | check =>
    rw [answer]
    rcases hgo : m.check script with ⟨m₁, _ | _⟩ <;> rw [hgo] at hcheck <;> exact hcheck
  | history | ownership | frequency => exact m.steps_commitsOf script _
  | together path =>
    rw [answer]
    split_ifs
    · exact .refl
    · exact m.steps_answerWhole script _
  | recent => exact m.steps_answerWhole script _
  | tracked =>
    rw [answer]
    rcases hgo : m.check script with ⟨m₁, _ | _⟩ <;> rw [hgo] at hcheck
    · exact hcheck
    · exact hcheck.trans (m₁.steps_list script)

/-! ### The commits of a file -/

/-- What is remembered of a file is told, and no command is run. -/
theorem commitsOf_of_told (hbelow : m.below.isSome = true) (hkey : key ≠ "")
    (htold : m.told.lookup key = some cs) : m.commitsOf script key = (m, cs) := by
  rw [commitsOf, check_of_below hbelow]
  simp only [hkey, if_false, htold]

/-- With an index, the commits of a key are those that the index has. -/
theorem lookUp_of_index {x : LogIndex} (hx : (m.readIndex script).2 = some x) (key : String) :
    m.lookUp script key =
      ((m.readIndex script).1.tell key (x.commitsOf key), x.commitsOf key) := by
  rw [lookUp]
  rcases hgo : m.readIndex script with ⟨m₁, index⟩
  obtain rfl : index = some x := by rw [← hx, hgo]
  rfl

/-- Without an index, the commits of a key are read from its own log. -/
theorem lookUp_of_none (hnone : (m.readIndex script).2 = none) (key : String) :
    m.lookUp script key = (m.readIndex script).1.readFile script key := by
  rw [lookUp]
  rcases hgo : m.readIndex script with ⟨m₁, index⟩
  obtain rfl : index = none := by rw [← hnone, hgo]
  rfl

/-- The log of a file says nothing about the index. -/
theorem index_readFile (m : Memory) (key : String) :
    (m.readFile script key).1.index = m.index := by
  rw [readFile]
  split <;> rfl

/-- The index that is there after a file has been looked up is the one that was asked for. -/
theorem index_lookUp (m : Memory) (key : String) :
    (m.lookUp script key).1.index = (m.readIndex script).2 := by
  have hindex := (m.reading_readIndex script).index
  rcases hgo : (m.readIndex script).2 with - | x
  · rw [lookUp_of_none hgo, index_readFile, hindex, hgo]
  · rw [lookUp_of_index hgo]
    exact hindex.trans hgo

/-- Of a file that has been looked up, what has been told is remembered, if anything is. -/
theorem snd_lookUp_of_told (hnone : m.told.lookup key = none)
    (h : (m.lookUp script key).1.told.lookup key = some cs) : (m.lookUp script key).2 = cs := by
  rcases hgo : (m.readIndex script).2 with - | x
  · have htold := (m.reading_readIndex script).told_of_none hgo
    rw [lookUp_of_none hgo, readFile] at h ⊢
    split at h
    · rw [lookup_tell, if_pos (beq_self_eq_true key)] at h
      exact Option.some.inj h
    · have hsame : (m.readIndex script).1.told.lookup key = some cs := h
      rw [htold, hnone] at hsame
      cases hsame
  · rw [lookUp_of_index hgo] at h ⊢
    rw [lookup_tell, if_pos (beq_self_eq_true key)] at h
    exact Option.some.inj h

/-- How the commits of a file are had. -/
inductive Finding (script : Script) (m : Memory) (key : String) : Memory × List Commit → Prop
  | refused (h : (m.check script).2 = false) : Finding script m key ((m.check script).1, [])
  | told {cs : List Commit} (hbelow : m.below.isSome = true) (h : m.told.lookup key = some cs) :
      Finding script m key (m, cs)
  | looked (h : (m.check script).1.below.isSome = true) (hnone : m.told.lookup key = none) :
      Finding script m key ((m.check script).1.lookUp script key)

/-- The commits of a file with a key are remembered, found in the index, read from its own log, or
none since there is no repository. -/
theorem Sound.finding (hm : m.Sound script) (hkey : key ≠ "") :
    Finding script m key (m.commitsOf script key) := by
  rcases htold : m.told.lookup key with - | cs
  · have hbelow := m.isSome_below_check script
    have hcheck := m.told_check script
    rw [commitsOf]
    rcases hgo : m.check script with ⟨m₁, _ | _⟩ <;> rw [hgo] at hbelow hcheck
    · have hrefused : Finding script m key ((m.check script).1, []) := .refused (by rw [hgo])
      rwa [hgo] at hrefused
    · have hlooked : Finding script m key ((m.check script).1.lookUp script key) :=
        .looked (by rw [hgo]; exact hbelow) htold
      rw [hgo] at hlooked
      have htold₁ : m₁.told.lookup key = none := by rw [← htold, ← hcheck]
      simpa only [hkey, if_false, htold₁] using hlooked
  · have hbelow := hm.told key cs htold
    rw [commitsOf_of_told hbelow hkey htold]
    exact .told hbelow htold

end Memory

end RepoSurvey.History
