import RepoSurvey.Proofs.History.Alone

/-!
# Histories of files that last

Commands may fail at any time, and then a history makes do with what it has: the log of one file
instead of the whole log. What it has told of a file once it tells ever after, and a whole log that
could not be read is read again (`told_history_kept_and_failed_log_reread`).

Questions are asked one after the other here, so a history is the sequential program
(`Turns.AtRest.ask`). What it tells of a file is what it then remembers
(`Memory.Sound.snd_commitsOf`), and what it remembers stays (`Memory.Steps.keeps`). As long as the
whole log could not be read, commits are remembered only of files whose own logs have been read
(`lookup_told_afterAsking`).
-/

namespace RepoSurvey.History

/-- The key of the file about whose commits a question asks. -/
def Query.fileKey? (repo : String) (q : Query) : Option String :=
  (World.historyPath? q).map (keyOf repo)

namespace Memory

variable {script : Script} {m : Memory} {key other : String} {cs : List Commit}

/-! ### What is told and what is remembered -/

theorem lookup_told_check (hkey : (m.check script).1.told.lookup key = some cs) :
    m.told.lookup key = some cs := by
  rwa [m.told_check] at hkey

/-- Where something is remembered of a file, the check has found a repository. -/
theorem Sound.check_of_told (hm : m.Sound script) (htold : m.told.lookup key = some cs) :
    (m.check script).2 = true := by
  rw [check_of_below (hm.told key cs htold)]

theorem Sound.check_of_index {x : LogIndex} (hm : m.Sound script) (hx : m.index = some x) :
    (m.check script).2 = true := by
  rw [check_of_below (hm.index x hx).1]

/-- What is told of a file is what is then remembered, if anything is. -/
theorem Sound.snd_commitsOf (hm : m.Sound script) (hkey : key ≠ "")
    (h : (m.commitsOf script key).1.told.lookup key = some cs) :
    (m.commitsOf script key).2 = cs := by
  have hfind := hm.finding hkey
  generalize m.commitsOf script key = go at hfind h ⊢
  cases hfind with
  | refused hrefused =>
    exact absurd (hm.check_of_told (lookup_told_check h)) (by simp [hrefused])
  | told _ htold => exact Option.some.inj (htold.symm.trans h)
  | looked _ hnone =>
    refine snd_lookUp_of_told ?_ h
    rw [m.told_check, hnone]

/-- Where there is an index after a question about a file of which nothing was remembered, the
commits that it has of the file are remembered. -/
theorem Sound.lookup_told_of_index {x : LogIndex} (hm : m.Sound script) (hkey : key ≠ "")
    (hnone : m.told.lookup key = none) (hx : (m.commitsOf script key).1.index = some x) :
    (m.commitsOf script key).1.told.lookup key = some (x.commitsOf key) := by
  have hfind := hm.finding hkey
  generalize m.commitsOf script key = go at hfind hx ⊢
  cases hfind with
  | refused hrefused =>
    have hold : m.index = some x := by rw [← hx, m.index_check]
    exact absurd (hm.check_of_index hold) (by simp [hrefused])
  | told _ htold => exact absurd (hnone.symm.trans htold) (by simp)
  | looked =>
    rw [index_lookUp] at hx
    rw [lookUp_of_index hx, lookup_tell, if_pos (beq_self_eq_true key)]

/-- A question about one file leaves alone what is remembered of another, unless the whole log is
read. -/
theorem lookup_told_lookUp_of_ne (hne : other ≠ key)
    (hindex : (m.lookUp script key).1.index = none) :
    (m.lookUp script key).1.told.lookup other = m.told.lookup other := by
  rw [index_lookUp] at hindex
  have htold := (m.reading_readIndex script).told_of_none hindex
  rw [lookUp_of_none hindex, readFile]
  split
  · have hne' : (other == key) = false := by simpa using hne
    rw [lookup_tell, hne', ← htold]
    rfl
  · exact congrArg (List.lookup other) htold

/-- The commits of one file do not come to be remembered by a question about another one, unless
there is an index then. -/
theorem lookup_told_commitsOf_of_ne (hne : other ≠ key)
    (hindex : (m.commitsOf script key).1.index = none) :
    (m.commitsOf script key).1.told.lookup other = m.told.lookup other := by
  have hcheck := m.told_check script
  rw [commitsOf] at hindex ⊢
  rcases hgo : m.check script with ⟨m₁, _ | _⟩
  all_goals rw [hgo] at hindex hcheck
  · exact congrArg (List.lookup other) hcheck
  · have hsame : m₁.told = m.told := hcheck
    rw [← hsame]
    dsimp only at hindex ⊢
    split_ifs at hindex ⊢
    · rfl
    · rcases htold : m₁.told.lookup key with - | cs
      · rw [htold] at hindex
        exact lookup_told_lookUp_of_ne hne hindex
      · rfl

/-- A question about the whole history remembers files only from an index. -/
theorem told_answerWhole_of_none {q : Query} (hindex : (m.answerWhole script q).1.index = none) :
    (m.answerWhole script q).1.told = m.told := by
  have hread := m.reading_readIndex script
  rw [answerWhole] at hindex ⊢
  rcases hgo : m.readIndex script with ⟨m₁, _ | x⟩
  all_goals rw [hgo] at hread hindex
  · exact hread.told_of_none rfl
  · have hkept : m₁.index = some x := hread.index
    have hsteps : Steps script m₁ (m₁.answerFrom x q).1 := steps_answerFrom hkept q
    have hsome := hsteps.index (by rw [hkept]; rfl)
    exact absurd hindex (Option.isSome_iff_ne_none.1 hsome)

/-! ### Answers -/

/-- A question about the commits of a file is answered from these commits. -/
theorem answer_of_fileKey (script : Script) {q : Query} (hq : q.fileKey? m.repo = some key) :
    m.answer script q =
      ((m.commitsOf script key).1, .ok (World.answerOf q (m.commitsOf script key).2)) := by
  obtain ⟨path, hpath, rfl⟩ := Option.map_eq_some_iff.1 hq
  cases q <;> cases hpath <;> rfl

/-- A question that is not about the commits of a file leaves alone what is remembered of it, unless
the whole log is read. -/
theorem lookup_told_answer_of_ne {q : Query} (hq : q.fileKey? m.repo ≠ some key)
    (hindex : (m.answer script q).1.index = none) :
    (m.answer script q).1.told.lookup key = m.told.lookup key := by
  have hcheck := m.told_check script
  cases q with
  | check =>
    rw [answer]
    rcases hgo : m.check script with ⟨m₁, _ | _⟩ <;> rw [hgo] at hcheck <;>
      exact congrArg (List.lookup key) hcheck
  | history path | ownership path | frequency path =>
    -- the question is about another file
    have hne : key ≠ keyOf m.repo path := fun heq ↦ hq (by rw [heq]; rfl)
    exact lookup_told_commitsOf_of_ne hne hindex
  | together path =>
    rw [answer] at hindex ⊢
    split_ifs at hindex ⊢
    · rfl
    · rw [told_answerWhole_of_none hindex]
  | recent days =>
    rw [answer] at hindex ⊢
    rw [told_answerWhole_of_none hindex]
  | tracked =>
    rw [answer]
    rcases hgo : m.check script with ⟨m₁, _ | _⟩ <;> rw [hgo] at hcheck
    · exact congrArg (List.lookup key) hcheck
    · have hlist : (m₁.list script).1.told = m₁.told := by
        rw [list]
        split <;> rfl
      exact congrArg (List.lookup key) (hlist.trans hcheck)

/-! ### The whole log is read again -/

/-- Where each whole log has failed, there is no index. -/
theorem Sound.index_eq_none (hm : m.Sound script)
    (hfails : ∀ past, .fullLog :: past <:+ m.calls →
      ∃ fault, script past .fullLog = .error fault) : m.index = none := by
  rcases hx : m.index with - | x
  · rfl
  · obtain ⟨-, past, log, hrun, hlog⟩ := hm.index x hx
    obtain ⟨fault, hfault⟩ := hfails past hrun
    exact absurd (hfault.symm.trans hlog) (by simp)

/-- In a repository, what is not remembered of a file is looked up. -/
theorem commitsOf_of_found (hkey : key ≠ "") (hfound : (m.check script).2 = true)
    (hnone : m.told.lookup key = none) :
    m.commitsOf script key = (m.check script).1.lookUp script key := by
  have hcheck := m.told_check script
  rw [commitsOf]
  rcases hgo : m.check script with ⟨m₁, found⟩
  rw [hgo] at hcheck hfound
  obtain rfl : found = true := hfound
  have hnone₁ : m₁.told.lookup key = none := by rw [← hnone, ← hcheck]
  simp only [hkey, if_false, hnone₁]

/-- Where the check has been made, what is not remembered of a file is looked up. -/
theorem commitsOf_of_below {b : String} (hkey : key ≠ "") (hbelow : m.below = some b)
    (hnone : m.told.lookup key = none) : m.commitsOf script key = m.lookUp script key := by
  have hcheck : m.check script = (m, true) := check_of_below (by rw [hbelow]; rfl)
  rw [commitsOf_of_found hkey (by rw [hcheck]) hnone, hcheck]

/-- Where the check has been made and there is no index, the whole log is read. -/
theorem readIndex_of_below {b : String} (hbelow : m.below = some b) (hindex : m.index = none) :
    m.readIndex script =
      ((m.readLog script).2.elim (m.readLog script).1 (m.readLog script).1.keep,
        (m.readLog script).2) := by
  have hsome : m.below.isSome = true := by rw [hbelow]; rfl
  rw [readIndex, hindex, build, check_of_below hsome]
  dsimp only
  rcases m.readLog script with ⟨m₁, _ | x⟩ <;> rfl

/-- Where the whole log has not been read, it is the next thing to be read for a file. -/
theorem calls_lookUp {b : String} (hbelow : m.below = some b) (hindex : m.index = none)
    (key : String) :
    ∃ more, (m.lookUp script key).1.calls = more ++ .fullLog :: m.calls := by
  rw [lookUp, readIndex_of_below hbelow hindex, readLog]
  rcases script m.calls .fullLog with fault | log
  · dsimp only
    rw [readFile]
    split <;> exact ⟨[.fileLog key], rfl⟩
  · exact ⟨[], rfl⟩

/-- If the whole log is read now, the commits of the file are those that it has. -/
theorem lookUp_of_log {b log : String} (hbelow : m.below = some b) (hindex : m.index = none)
    (hlog : script m.calls .fullLog = .ok log) (key : String) :
    (m.lookUp script key).1.calls = .fullLog :: m.calls ∧
      (m.lookUp script key).2 = (parseLog b log).commitsOf key := by
  rw [lookUp, readIndex_of_below hbelow hindex, readLog, hlog, hbelow]
  exact ⟨rfl, rfl⟩

/-- What a history that nobody has used yet tells of a file whose whole log it can read. -/
theorem commitsOf_fresh {repo : String} {now : Int} {output log : String} (hkey : key ≠ "")
    (hcheck : script [] .showPrefix = .ok output)
    (hlog : script [.showPrefix] .fullLog = .ok log) :
    (({ repo, now } : Memory).commitsOf script key).2 =
      (parseLog (belowOf output) log).commitsOf key := by
  have hfound : ({ repo, now } : Memory).check script =
      ({ repo, now, below := some (belowOf output), calls := [.showPrefix] }, true) := by
    simp only [check, look, hcheck]
    rfl
  rw [commitsOf_of_found hkey (by rw [hfound]) rfl, hfound]
  exact (lookUp_of_log rfl rfl hlog key).2

end Memory

/-! ### Questions one after the other -/

/-- A history after questions that were asked one after the other. -/
def Turns.afterAsking (script : Script) (t : Turns) (qs : List Query) : Turns :=
  qs.foldl (fun t q ↦ (t.ask script q).1) t

/-- The commits of a key and where a question has them from, that was asked between two states of a
history: they were remembered, or they are those of the index, or those of the key's own log. -/
inductive AnsweredFrom (script : Script) (before after : Turns) (key : String) :
    List Commit → Prop
  | remembered {cs : List Commit} (h : before.world.told.lookup key = some cs) :
      AnsweredFrom script before after key cs
  | index {x : LogIndex} (hnone : before.world.told.lookup key = none)
      (h : after.world.index = some x) : AnsweredFrom script before after key (x.commitsOf key)
  | ownLog {past : List Command} {log : String} (hpast : before.world.calls <:+ past)
      (hrun : .fileLog key :: past <:+ after.world.calls)
      (h : script past (.fileLog key) = .ok log) :
      AnsweredFrom script before after key (parseLog "" log).commits

namespace Turns.AtRest

variable {script : Script} {t : Turns} {m : Memory} {key : String} {cs : List Commit}

theorem told (h : t.AtRest m) : t.world.told = m.told := by
  obtain ⟨threads, hshows⟩ := h.shows
  exact hshows.told

theorem calls (h : t.AtRest m) : t.world.calls = m.calls := by
  obtain ⟨threads, hshows⟩ := h.shows
  exact hshows.calls

theorem index (h : t.AtRest m) : t.world.index = m.index := by
  obtain ⟨threads, hshows⟩ := h.shows
  rw [← hshows.memory, World.memory]

/-- A history at rest is at rest again after any questions, and its memory has taken steps. -/
theorem afterAsking (h : t.AtRest m) (hscript : script.IsExpected) (qs : List Query) :
    ∃ m', (t.afterAsking script qs).AtRest m' ∧ m.Steps script m' := by
  induction qs generalizing t m with
  | nil => exact ⟨m, h, .refl⟩
  | cons q qs ih =>
    obtain ⟨m', hrest, hsteps⟩ := ih (h.ask hscript q).1
    exact ⟨m', hrest, (m.steps_answer script q).trans hsteps⟩

/-- Where a question about a file has commits from, these are remembered of it afterwards. -/
theorem lookup_told_of_answeredFrom (h : t.AtRest m) (hm : m.Sound script)
    (hscript : script.IsExpected) (hkey : key ≠ "") {q : Query} (hq : q.fileKey? m.repo = some key)
    (hfrom : AnsweredFrom script t (t.ask script q).1 key cs) :
    (m.answer script q).1.told.lookup key = some cs := by
  have hrest := (h.ask hscript q).1
  have hsteps := m.steps_answer script q
  cases hfrom with
  | remembered hold => exact hsteps.keeps (by rw [← h.told, hold])
  | index hnone hx =>
    rw [h.told] at hnone
    rw [hrest.index] at hx
    rw [Memory.answer_of_fileKey script hq] at hx ⊢
    exact hm.lookup_told_of_index hkey hnone hx
  | ownLog hpast hrun hlog =>
    rw [h.calls] at hpast
    rw [hrest.calls] at hrun
    exact hsteps.own_log hpast hrun hlog

/-- What is remembered of a file is told, and no command is run. -/
theorem ask_of_told (h : t.AtRest m) (hm : m.Sound script) (hscript : script.IsExpected)
    (hkey : key ≠ "") (htold : m.told.lookup key = some cs) {q : Query}
    (hq : q.fileKey? m.repo = some key) :
    (t.ask script q).2 = .ok (World.answerOf q cs) ∧
      (t.ask script q).1.world.calls = t.world.calls := by
  obtain ⟨hrest, hanswer⟩ := h.ask hscript q
  have hgo := Memory.answer_of_fileKey script hq
  rw [Memory.commitsOf_of_told (hm.told key cs htold) hkey htold] at hgo
  rw [hanswer, hrest.calls, h.calls, hgo]
  exact ⟨rfl, rfl⟩

end Turns.AtRest

theorem afterAsking_nil (script : Script) (t : Turns) : t.afterAsking script [] = t := rfl

theorem afterAsking_singleton (script : Script) (t : Turns) (q : Query) :
    t.afterAsking script [q] = (t.ask script q).1 := rfl

theorem afterAsking_append (script : Script) (t : Turns) (qs qs' : List Query) :
    t.afterAsking script (qs ++ qs') = (t.afterAsking script qs).afterAsking script qs' :=
  List.foldl_append

/-- A file is not remembered about which no question has been answered, as long as there is no
index. -/
theorem lookup_told_afterAsking {script : Script} (hscript : script.IsExpected) {t : Turns}
    {m : Memory} (h : t.AtRest m) {key : String} (hnone : m.told.lookup key = none)
    (earlier : List Query) (hindex : (t.afterAsking script earlier).world.index = none)
    (hunanswered : ∀ before q after, earlier = before ++ q :: after →
      q.fileKey? m.repo = some key → ∀ cs, ¬ AnsweredFrom script (t.afterAsking script before)
        ((t.afterAsking script before).ask script q).1 key cs) :
    (t.afterAsking script earlier).world.told.lookup key = none := by
  induction earlier using List.reverseRecOn with
  | nil => exact (congrArg (List.lookup key) h.told).trans hnone
  | append_singleton qs q ih =>
    obtain ⟨m₁, hrest, hsteps⟩ := h.afterAsking hscript qs
    rw [afterAsking_append, afterAsking_singleton] at hindex ⊢
    obtain ⟨hrest₂, -⟩ := hrest.ask hscript q
    have hstep := m₁.steps_answer script q
    rw [hrest₂.index] at hindex
    -- an index is kept, so there was none before the last question either
    have hindex₁ : m₁.index = none := by
      by_contra hsome
      have hkept := hstep.index (Option.isSome_iff_ne_none.2 hsome)
      rw [hindex] at hkept
      cases hkept
    have hnone₁ : m₁.told.lookup key = none := by
      rw [← hrest.told]
      refine ih (by rw [hrest.index, hindex₁]) fun before q' after heq ↦ ?_
      exact hunanswered before q' (after ++ [q]) (by rw [heq, List.append_assoc, List.cons_append])
    rw [hrest₂.told]
    by_cases hq : q.fileKey? m₁.repo = some key
    · -- had the question been answered, it would have been so from the log of the file
      rcases htold : (m₁.answer script q).1.told.lookup key with - | cs
      · rfl
      · rcases hstep.source hnone₁ htold with hsome | ⟨past, log, hpast, hrun, hlog⟩
        · rw [hindex] at hsome
          cases hsome
        · rw [hsteps.repo] at hq
          rw [← hrest.calls] at hpast
          rw [← hrest₂.calls] at hrun
          exact absurd (.ownLog hpast hrun hlog) (hunanswered qs q [] rfl hq _)
    · rw [Memory.lookup_told_answer_of_ne hq hindex, hnone₁]

/-- **A file's history is kept once told, and a log that failed is read again.** Let questions be
asked one after the other, where every command may succeed, or fail as expected, whatever has been
run before. If a question about the commits of a file has them because they are remembered, or from
the index, or from the file's own log, then from there on every question about them is answered from
these commits and runs no command. If no question about the file has been answered so, the check has
succeeded and each whole log has failed, then the next question about the file first runs the
command for the whole log; and if that succeeds, it runs no other, and has the answer that a history
has which nobody has used yet and which reads that log. -/
theorem told_history_kept_and_failed_log_reread (repo : String) (now : Int) {script : Script}
    (hscript : script.IsExpected) (earlier : List Query) {key : String} (hkey : key ≠ "") :
    let start := fresh repo now
    let t := start.afterAsking script earlier
    let asks (q : Query) := q.fileKey? (Path.absolute repo) = some key
    (∀ q cs, asks q → AnsweredFrom script t (t.ask script q).1 key cs →
      (t.ask script q).2 = .ok (World.answerOf q cs) ∧
      ∀ between later, asks later →
        let t' := (t.ask script q).1.afterAsking script between
        (t'.ask script later).2 = .ok (World.answerOf later cs) ∧
          (t'.ask script later).1.world.calls = t'.world.calls) ∧
    ∀ past output, .showPrefix :: past <:+ t.world.calls → script past .showPrefix = .ok output →
      (∀ past, .fullLog :: past <:+ t.world.calls → ∃ fault, script past .fullLog = .error fault) →
      (∀ before q after, earlier = before ++ q :: after → asks q → ∀ cs,
        ¬ AnsweredFrom script (start.afterAsking script before)
          ((start.afterAsking script before).ask script q).1 key cs) →
      ∀ q, asks q →
        (∃ more, (t.ask script q).1.world.calls = more ++ .fullLog :: t.world.calls) ∧
        ∀ log, script t.world.calls .fullLog = .ok log →
          (t.ask script q).1.world.calls = .fullLog :: t.world.calls ∧
          ∀ script' : Script, script'.IsExpected → script' [] .showPrefix = .ok output →
            script' [.showPrefix] .fullLog = .ok log →
            (t.ask script q).2 = (start.ask script' q).2 := by
  intro start t asks
  obtain ⟨m, hrest, hsteps⟩ := (atRest_fresh repo now).afterAsking hscript earlier
  have hsound := hsteps.sound (Memory.sound_fresh script _ now)
  have hrepo : m.repo = Path.absolute repo := hsteps.repo
  refine ⟨fun q cs hq hfrom ↦ ?_, fun past output hcheck hok hfails hunanswered q hq ↦ ?_⟩
  -- what a file has been told from is kept, so it is told again without a command
  · have hkeyOf : q.fileKey? m.repo = some key := by rw [hrepo]; exact hq
    obtain ⟨hrest', hanswer⟩ := hrest.ask hscript q
    have htold := hrest.lookup_told_of_answeredFrom hsound hscript hkey hkeyOf hfrom
    have hgo := Memory.answer_of_fileKey script hkeyOf
    have hsame := hsound.snd_commitsOf hkey (by rwa [hgo] at htold)
    refine ⟨by rw [hanswer, hgo, hsame], fun between later hlater ↦ ?_⟩
    obtain ⟨m', hlast, hsteps'⟩ := hrest'.afterAsking hscript between
    have hall := (m.steps_answer script q).trans hsteps'
    refine hlast.ask_of_told (Memory.Steps.sound hall hsound) hscript hkey (hsteps'.keeps htold) ?_
    rw [Memory.Steps.repo hall, hrepo]
    exact hlater
  -- the directory is known, but neither an index nor the file, so the log is read once more
  · have hbelow : m.below = some (belowOf output) :=
      hsound.below past output (by rwa [← hrest.calls]) hok
    have hindex : m.index = none := hsound.index_eq_none (by rwa [← hrest.calls])
    have hnone : m.told.lookup key = none := by
      rw [← hrest.told]
      exact lookup_told_afterAsking hscript (atRest_fresh repo now) rfl earlier
        (by rw [hrest.index, hindex]) hunanswered
    obtain ⟨hrest', hanswer⟩ := hrest.ask hscript q
    have hgo := Memory.answer_of_fileKey script (m := m) (by rw [hrepo]; exact hq)
    rw [Memory.commitsOf_of_below hkey hbelow hnone] at hgo
    rw [hrest'.calls, hrest.calls, hgo]
    refine ⟨Memory.calls_lookUp hbelow hindex key, fun log hlog ↦ ?_⟩
    obtain ⟨hcalls, hsame⟩ := Memory.lookUp_of_log hbelow hindex hlog key
    refine ⟨hcalls, fun script' hscript' hok' hlog' ↦ ?_⟩
    -- a new client with the same outputs is told from the same log
    have hfresh := ((atRest_fresh repo now).ask hscript' q).2
    have hgo' := Memory.answer_of_fileKey script'
      (m := { repo := Path.absolute repo, now }) hq
    rw [hanswer, hgo, hsame, hfresh, hgo', Memory.commitsOf_fresh hkey hok' hlog']

/-- Of two commits both touch one file, and the later one another too. -/
def mendedLog : String :=
  "abcdef1\tAda\t2024-01-02\tMend\na.js\nb.js\n\nabcdef0\tBen\t2024-01-01\tBegin\na.js"

/-- The log of one of the files, as far as it can be read. -/
def lastLog : String := "abcdef1\tAda\t2024-01-02\tMend"

/-- The first whole log fails, and so do the logs of files, apart from one. -/
def failsFirst : Script := fun past c ↦
  match c with
  | .showPrefix => .ok "\n"
  | .fullLog => if .fullLog ∈ past then .ok mendedLog else .error (.exit 128 "")
  | .fileLog key =>
    if key = "a.js" then .ok lastLog else .error (.exit 128 "")
  | .listFiles => .ok ""

/-- The first whole log fails, and the file that is asked about then keeps the commits of its own
log; the second whole log is read for another file. -/
theorem told_history_kept_and_failed_log_reread_of_failsFirst :
    let start := fresh "/srv/app" 63900000000000000
    let t := (start.ask failsFirst (.history "a.js")).1
    let t' := (t.ask failsFirst (.history "b.js")).1
    failsFirst.IsExpected ∧ t.world.calls = [.fileLog "a.js", .fullLog, .showPrefix] ∧
      t'.world.calls = .fullLog :: t.world.calls ∧
      (t.ask failsFirst (.history "b.js")).2 =
        (start.ask (fun _ ↦ failsFirst [.fullLog]) (.history "b.js")).2 ∧
      (t'.world.index.map fun x ↦ (x.commitsOf "a.js").length) = some 2 ∧
      (t'.ask failsFirst (.history "a.js")).2 =
        .ok (.commits [⟨"abcdef1", "Ada", "2024-01-02", "Mend"⟩]) ∧
      (t'.ask failsFirst (.history "a.js")).1.world.calls = t'.world.calls := by
  intro start t t'
  have hexpected : failsFirst.IsExpected := by
    rintro past (_ | _ | key | _) fault h
    · cases h
    · by_cases hpast : .fullLog ∈ past <;> simp [failsFirst, hpast] at h
      subst h
      rfl
    · by_cases hkey : key = "a.js" <;> simp [failsFirst, hkey] at h
      subst h
      rfl
    · cases h
  have hcalls : t.world.calls = [.fileLog "a.js", .fullLog, .showPrefix] := by decide +kernel
  have hkeys : Query.fileKey? (Path.absolute "/srv/app") (.history "a.js") = some "a.js" ∧
      Query.fileKey? (Path.absolute "/srv/app") (.history "b.js") = some "b.js" := by
    decide +kernel
  have hindex : (t'.world.index.map fun x ↦ (x.commitsOf "a.js").length) = some 2 := by
    decide +kernel
  have ha : "a.js" ≠ "" := by decide
  have hb : "b.js" ≠ "" := by decide
  obtain ⟨hkept, -⟩ := told_history_kept_and_failed_log_reread "/srv/app" 63900000000000000
    hexpected [] ha
  obtain ⟨-, hreread⟩ := told_history_kept_and_failed_log_reread "/srv/app" 63900000000000000
    hexpected [.history "a.js"] hb
  -- the two states are fixed now, so that nothing unfolds them
  have hstart : fresh "/srv/app" 63900000000000000 = start := rfl
  have ht : (start.ask failsFirst (.history "a.js")).1 = t := rfl
  have ht' : (t.ask failsFirst (.history "b.js")).1 = t' := rfl
  have hcalm : start.world.calls = [] := rfl
  rw [hstart] at hkept hreread
  clear_value t' t start
  simp only [afterAsking_nil] at hkept
  simp only [afterAsking_singleton, ht] at hreread
  -- one file is answered from its own log
  have hpast : start.world.calls <:+ [.fullLog, .showPrefix] := by
    rw [hcalm]
    exact List.nil_suffix
  have hrun : .fileLog "a.js" :: [.fullLog, .showPrefix] <:+ t.world.calls :=
    hcalls ▸ List.suffix_rfl
  have hown : failsFirst [.fullLog, .showPrefix] (.fileLog "a.js") = .ok lastLog := by
    simp [failsFirst]
  have hfrom : AnsweredFrom failsFirst start (start.ask failsFirst (.history "a.js")).1 "a.js"
      (parseLog "" lastLog).commits := by
    rw [ht]
    exact .ownLog hpast hrun hown
  obtain ⟨-, hlater⟩ := hkept (.history "a.js") _ hkeys.1 hfrom
  obtain ⟨hsame, hnone⟩ := hlater [.history "b.js"] (.history "a.js") hkeys.1
  rw [afterAsking_singleton, ht, ht'] at hsame hnone
  -- of the other nothing is remembered
  have hcheck : .showPrefix :: [] <:+ t.world.calls := by
    rw [hcalls]
    decide
  have hfails : ∀ past, .fullLog :: past <:+ t.world.calls →
      ∃ fault, failsFirst past .fullLog = .error fault := by
    intro past hpast
    rw [hcalls] at hpast
    obtain rfl : past = [.showPrefix] := by simpa [List.suffix_cons_iff] using hpast
    exact ⟨_, rfl⟩
  have hother : ∀ before q after, [Query.history "a.js"] = before ++ q :: after →
      Query.fileKey? (Path.absolute "/srv/app") q ≠ some "b.js" := by
    intro before q after hsplit hq
    have hmem : q ∈ [Query.history "a.js"] := by rw [hsplit]; simp
    rw [List.mem_singleton.1 hmem, hkeys.1] at hq
    simp at hq
  have hlog : failsFirst t.world.calls .fullLog = .ok mendedLog := by
    rw [hcalls]
    rfl
  have hagain := hreread [] "\n" hcheck rfl hfails
    (fun before q after hsplit hq ↦ absurd hq (hother before q after hsplit))
    (.history "b.js") hkeys.2
  rw [ht'] at hagain
  obtain ⟨-, hread⟩ := hagain
  obtain ⟨hfull, hfresh⟩ := hread _ hlog
  have hcommits : (parseLog "" lastLog).commits =
      [⟨"abcdef1", "Ada", "2024-01-02", "Mend"⟩] := by decide +kernel
  rw [hcommits] at hsame
  exact ⟨hexpected, hcalls, hfull, hfresh _ (fun _ ↦ hexpected _) rfl rfl, hindex, hsame, hnone⟩

end RepoSurvey.History
