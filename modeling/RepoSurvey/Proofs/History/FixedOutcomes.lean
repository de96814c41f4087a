import RepoSurvey.Proofs.History.FileLogs

/-!
# Commands with fixed outcomes

Where each command always has the same outcome, be it an output or a failure, a question may have
one answer only (`eq_answerGiven_of_mayYield`): nothing depends on what was asked before it or
beside it. There are three cases. Without a repository all answers are those for a directory without
a history; with the whole log all are read off its index; and where the whole log cannot be read,
the commits of a file are those of its own log, and what needs the log of all files is not known.
-/

namespace RepoSurvey.History

variable {fixed : Command → Outcome} {output log : String} {repo : String} {now : Int} {q : Query}

/-- The commits of a key, in a directory that lies where `output` says. -/
def commitsGiven (fixed : Command → Outcome) (output key : String) : List Commit :=
  match fixed .fullLog, fixed (.fileLog key) with
  | .ok log, _ => (parseLog (belowOf output) log).commitsOf key
  | .error _, .ok log => (parseLog "" log).commits
  | .error _, .error _ => []

/-- What an index says to a question, if the whole log can be read. -/
def indexGiven (fixed : Command → Outcome) (output : String) (q : Query)
    (answer : LogIndex → Except Fault Answer) : Except Fault Answer :=
  match fixed .fullLog with
  | .ok log => answer (parseLog (belowOf output) log)
  | .error _ => .ok (World.default q)

/-- The answer to a question in a repository whose directory lies where `output` says. -/
def answerInside (repo : String) (now : Int) (fixed : Command → Outcome) (output : String)
    (q : Query) : Except Fault Answer :=
  match q with
  | .check => .ok .nothing
  | .history _ | .ownership _ | .frequency _ =>
    .ok (fileAnswer repo (commitsGiven fixed output) q)
  | .together path threshold =>
    let key := keyOf repo path
    if key = "" then .ok (World.default q)
    else indexGiven fixed output q fun x ↦
      .ok (.related (relatedOf x key (x.commitsOf (keyOf repo key)) threshold))
  | .recent days => indexGiven fixed output q fun x ↦
    match cutoff now days with
    | .ok since => .ok (.recent (recentOf x since))
    | .error fault => .error (.span fault)
  | .tracked =>
    match fixed .listFiles with
    | .ok files => .ok (.tracked (trackedOf files))
    | .error _ => .ok (World.default q)

/-- The answer to a question where commands have fixed outcomes. -/
def answerGiven (repo : String) (now : Int) (fixed : Command → Outcome) (q : Query) :
    Except Fault Answer :=
  match fixed .showPrefix, q with
  | .error _, .check => .error (.notARepository repo)
  | .error _, q => .ok (World.default q)
  | .ok output, q => answerInside repo now fixed output q

/-! ### What may be known -/

theorem mayFail_always_iff {c : Command} :
    (always fixed).MayFail c ↔ ∃ fault, fixed c = .error fault :=
  exists_congr fun _ ↦ eq_comm

/-- A command whose outcome is an output cannot fail. -/
theorem not_mayFail_always {c : Command} (h : fixed c = .ok output) :
    ¬(always fixed).MayFail c := by
  rw [mayFail_always_iff, h]
  simp

/-- There may be a repository if the command that looks for it has an output. -/
theorem mayHaveRepository_always_iff :
    (always fixed).MayHaveRepository ↔ ∃ output, fixed .showPrefix = .ok output := by
  constructor
  · rintro ⟨below, output, houtput, -⟩
    exact ⟨output, houtput.symm⟩
  · rintro ⟨output, houtput⟩
    exact ⟨_, output, houtput.symm, rfl⟩

/-- Which index may be read is known from the outputs. -/
theorem eq_parseLog_of_mayIndex {x : LogIndex} (hx : (always fixed).MayIndex x)
    (hbelow : fixed .showPrefix = .ok output) :
    ∃ log, fixed .fullLog = .ok log ∧ x = parseLog (belowOf output) log := by
  obtain ⟨below, log, ⟨output', houtput, rfl⟩, hlog, rfl⟩ := hx
  obtain rfl := Except.ok.inj (hbelow.symm.trans houtput.symm)
  exact ⟨log, hlog.symm, rfl⟩

/-- There is a repository, and of a file is told what its commands say. -/
theorem tells_always (hbelow : fixed .showPrefix = .ok output) :
    (always fixed).Tells (commitsGiven fixed output) where
  found := not_mayFail_always hbelow
  told := by
    rintro key cs - (⟨x, hx, rfl⟩ | ⟨-, ⟨fault, hfault⟩, log, hlog, rfl⟩)
    · obtain ⟨log, hlog, rfl⟩ := eq_parseLog_of_mayIndex hx hbelow
      simp only [commitsGiven, hlog]
    · obtain hlog : Except.ok log = fixed (.fileLog key) := hlog
      obtain hfault : Except.error fault = fixed .fullLog := hfault
      simp only [commitsGiven, ← hfault, ← hlog]
  lost := by
    rintro key ⟨fault, hfault⟩ ⟨fault', hfault'⟩
    obtain hfault : Except.error fault = fixed .fullLog := hfault
    obtain hfault' : Except.error fault' = fixed (.fileLog key) := hfault'
    simp only [commitsGiven, ← hfault, ← hfault']

/-- Whoever has an index has found a repository. -/
theorem Outcomes.MayIndex.mayHaveRepository {b : Outcomes} {x : LogIndex} (hx : b.MayIndex x) :
    b.MayHaveRepository := by
  obtain ⟨below, log, hbelow, -⟩ := hx
  exact ⟨below, hbelow⟩

/-- Whoever is told of a file has found a repository. -/
theorem Outcomes.MayTell.mayHaveRepository {b : Outcomes} {key : String} {cs : List Commit}
    (hcs : b.MayTell key cs) : b.MayHaveRepository := by
  rcases hcs with ⟨x, hx, -⟩ | ⟨hbelow, -⟩
  · exact hx.mayHaveRepository
  · exact hbelow

/-! ### The only answer -/

section Outside

variable {fault : CommandFault} (hfails : fixed .showPrefix = .error fault)
include hfails

/-- Without a repository every question but the check has its default answer. -/
theorem answerGiven_of_ne_check (hq : q ≠ .check) :
    answerGiven repo now fixed q = .ok (World.default q) := by
  cases q with
  | check => exact absurd rfl hq
  | history | ownership | frequency | together | recent | tracked => simp only [answerGiven, hfails]

/-- Without a repository a question has the answer for a directory without a history. -/
theorem eq_answerGiven_outside {r : Except Fault Answer}
    (h : (always fixed).MayYield repo now q r) : r = answerGiven repo now fixed q := by
  have hnone : ¬(always fixed).MayHaveRepository := by
    rw [mayHaveRepository_always_iff, hfails]
    simp
  cases h with
  | refused => simp only [answerGiven, hfails]
  | outside _ hq => rw [answerGiven_of_ne_check hfails hq]
  | noKey hpath =>
    have hq : q ≠ .check := by
      rintro rfl
      cases hpath
    rw [answerGiven_of_ne_check hfails hq]
  | file _ _ hcs => exact absurd hcs.mayHaveRepository hnone
  | together _ hx | recent hx | noDate hx => exact absurd hx.mayHaveRepository hnone
  | check hbelow | fileLost _ _ hbelow | noIndex _ _ hbelow | tracked hbelow | untracked hbelow =>
    exact absurd hbelow hnone

end Outside

/-- What is asked of one file is answered by its commits. -/
theorem answerInside_of_historyPath? (hq : World.historyPath? q ≠ none) :
    answerInside repo now fixed output q = .ok (fileAnswer repo (commitsGiven fixed output) q) := by
  cases q with
  | history | ownership | frequency => rfl
  | check | together | recent | tracked => exact absurd rfl hq

/-- Where the whole log cannot be read, what is asked of the index is not known. -/
theorem indexGiven_of_mayFail (hfail : (always fixed).MayFail .fullLog)
    (answer : LogIndex → Except Fault Answer) :
    indexGiven fixed output q answer = .ok (World.default q) := by
  obtain ⟨fault, hfault⟩ := mayFail_always_iff.1 hfail
  simp only [indexGiven, hfault]

section Inside

variable (hbelow : fixed .showPrefix = .ok output)
include hbelow

/-- Where an index may be read, it is the one that answers. -/
theorem indexGiven_of_mayIndex {x : LogIndex} (hx : (always fixed).MayIndex x)
    (answer : LogIndex → Except Fault Answer) : indexGiven fixed output q answer = answer x := by
  obtain ⟨log, hlog, rfl⟩ := eq_parseLog_of_mayIndex hx hbelow
  simp only [indexGiven, hlog]

/-- What is told of a key is what an index says of it that could be read. -/
theorem eq_commitsOf_of_mayTell {x : LogIndex} (hx : (always fixed).MayIndex x) {key : String}
    {cs : List Commit} (hcs : (always fixed).MayTell key cs) : cs = x.commitsOf key := by
  obtain ⟨log, hlog, rfl⟩ := eq_parseLog_of_mayIndex hx hbelow
  rcases hcs with ⟨y, hy, rfl⟩ | ⟨-, hfail, -⟩
  · obtain ⟨log', hlog', rfl⟩ := eq_parseLog_of_mayIndex hy hbelow
    rw [Except.ok.inj (hlog.symm.trans hlog')]
  · exact absurd hfail (not_mayFail_always hlog)

/-- In a repository the outputs and failures of the other commands decide. -/
theorem eq_answerInside {r : Except Fault Answer} (h : (always fixed).MayYield repo now q r) :
    r = answerInside repo now fixed output q := by
  have htells := tells_always hbelow
  -- questions about the commits of a file are answered in one way whichever log is read
  by_cases hq : World.historyPath? q = none
  · cases h with
    | refused hfail | outside hfail => exact absurd hfail htells.found
    | noKey hpath hkey =>
      cases q with
      | together path threshold =>
        obtain rfl := Option.some.inj hpath
        rw [answerInside, if_pos hkey]
      | history | ownership | frequency => cases hq
      | check | recent | tracked => cases hpath
    | check => rfl
    | file hpath | fileLost hpath => simp [hq] at hpath
    | together hkey hx hcs =>
      rw [answerInside, if_neg hkey, indexGiven_of_mayIndex hbelow hx,
        eq_commitsOf_of_mayTell hbelow hx hcs]
    | recent hx hsince | noDate hx hsince =>
      rw [answerInside, indexGiven_of_mayIndex hbelow hx, hsince]
    | noIndex hneeds _ _ hfail =>
      cases q with
      | together path threshold =>
        have hkey := World.ne_empty_of_needsIndex hneeds rfl
        rw [answerInside, if_neg hkey, indexGiven_of_mayFail hfail]
      | recent days => rw [answerInside, indexGiven_of_mayFail hfail]
      | history | ownership | frequency => cases hq
      | check | tracked => simp [Query.NeedsIndex, Query.path?] at hneeds
    | tracked _ hfiles =>
      obtain hfiles : Except.ok _ = fixed .listFiles := hfiles
      simp only [answerInside, ← hfiles]
    | untracked _ hfail =>
      obtain ⟨fault, hfault⟩ := mayFail_always_iff.1 hfail
      simp only [answerInside, hfault]
  · rw [htells.eq_of_mayYield hq h, answerInside_of_historyPath? hq]

end Inside

/-- Where each command always has the same outcome, a question may have one answer only. -/
theorem eq_answerGiven_of_mayYield {r : Except Fault Answer}
    (h : (always fixed).MayYield repo now q r) : r = answerGiven repo now fixed q := by
  rcases hprefix : fixed .showPrefix with fault | output
  · exact eq_answerGiven_outside hprefix h
  · rw [eq_answerInside hprefix h]
    simp only [answerGiven, hprefix]

end RepoSurvey.History
