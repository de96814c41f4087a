import RepoSurvey.Proofs.History.Queue

/-!
# Answers do not depend on what happens meanwhile

Where every command succeeds, always with the same output, only one index can be read
(`indexOf`), and whatever is remembered of a file, by a build or by a question, is what this index
says of it (`mayTell_succeedsWith_iff`). So a question may have one answer only (`answerTo`), which
is a function of the outputs and of the clock, and not of what was asked before it or beside it.

This is the answer that the question has when it is asked alone (`ask_succeedsWith`), and the answer
that it has in every run, however threads take turns (`answers_as_if_alone`).
-/

namespace RepoSurvey.History

open RepoSurvey.Text

/-- Every command succeeds, always with the same output. -/
def succeedsWith (outputs : Command → String) : Outcomes := fun c outcome ↦
  outcome = .ok (outputs c)

instance (outputs : Command → String) (c : Command) (outcome : Outcome) :
    Decidable (succeedsWith outputs c outcome) :=
  inferInstanceAs (Decidable (outcome = .ok (outputs c)))

/-- The index of the log that is read where every command succeeds. -/
def indexOf (outputs : Command → String) : LogIndex :=
  parseLog (belowOf (outputs .showPrefix)) (outputs .fullLog)

/-- The answer to a question where every command succeeds. -/
def answerTo (repo : String) (now : Int) (outputs : Command → String) :
    Query → Except Fault Answer
  | .check => .ok .nothing
  | .history path => .ok (.commits ((indexOf outputs).commitsOf (keyOf repo path)))
  | .ownership path =>
    .ok (.ownership (ownershipOf ((indexOf outputs).commitsOf (keyOf repo path))))
  | .frequency path =>
    .ok (.frequency (frequencyOf ((indexOf outputs).commitsOf (keyOf repo path))))
  | .together path threshold =>
    let key := keyOf repo path
    .ok (.related (relatedOf (indexOf outputs) key
      ((indexOf outputs).commitsOf (keyOf repo key)) threshold))
  | .recent days =>
    match cutoff now days with
    | .ok since => .ok (.recent (recentOf (indexOf outputs) since))
    | .error fault => .error (.span fault)
  | .tracked => .ok (.tracked (trackedOf (outputs .listFiles)))

variable {outputs : Command → String} {repo : String} {now : Int} {q : Query}

/-! ### The only answer -/

theorem not_mayFail_succeedsWith (c : Command) : ¬(succeedsWith outputs).MayFail c := by
  rintro ⟨fault, hfault⟩
  cases hfault

/-- What may be known of where the directory lies is what the command says. -/
theorem mayKnow_succeedsWith_iff {below : String} :
    (succeedsWith outputs).MayKnow below ↔ below = belowOf (outputs .showPrefix) := by
  refine ⟨?_, fun h ↦ ⟨_, rfl, h⟩⟩
  rintro ⟨output, houtput, rfl⟩
  rw [Except.ok.inj houtput]

/-- The index that may be read is that of the log. -/
theorem mayIndex_succeedsWith_iff {x : LogIndex} :
    (succeedsWith outputs).MayIndex x ↔ x = indexOf outputs := by
  refine ⟨?_, fun h ↦ ⟨_, _, mayKnow_succeedsWith_iff.2 rfl, rfl, h⟩⟩
  rintro ⟨below, log, hbelow, hlog, rfl⟩
  rw [mayKnow_succeedsWith_iff.1 hbelow, Except.ok.inj hlog, indexOf]

/-- What is remembered of a file is what the index says of it. -/
theorem mayTell_succeedsWith_iff {key : String} {cs : List Commit} :
    (succeedsWith outputs).MayTell key cs ↔ cs = (indexOf outputs).commitsOf key := by
  refine ⟨?_, fun h ↦ Or.inl ⟨_, mayIndex_succeedsWith_iff.2 rfl, h⟩⟩
  rintro (⟨x, hx, rfl⟩ | ⟨-, hfail, -⟩)
  · rw [mayIndex_succeedsWith_iff.1 hx]
  · exact absurd hfail (not_mayFail_succeedsWith _)

/-- What is asked of one file is answered by the commits that the index has for it. -/
theorem answerTo_of_historyPath? {path : String} (hpath : World.historyPath? q = some path) :
    answerTo repo now outputs q =
      .ok (World.answerOf q ((indexOf outputs).commitsOf (keyOf repo path))) := by
  cases q with
  | history | ownership | frequency => rw [← Option.some.inj hpath]; rfl
  | check | together | recent | tracked => cases hpath

/-- A file without commits changes together with no other. -/
theorem relatedOf_nil (x : LogIndex) (key : String) (threshold : Float) :
    relatedOf x key [] threshold = [] := by
  have hhashes : hashesOf [] = [] := rfl
  simp [relatedOf, hhashes, companionCounts]

/-- A path that does not lie in the directory has no commits in any index. -/
theorem answerTo_of_key_eq_empty {path : String} (hpath : q.path? = some path)
    (hkey : keyOf repo path = "") : answerTo repo now outputs q = .ok (World.default q) := by
  have hnone : (indexOf outputs).commitsOf "" = [] := World.commitsOf_empty (dual_parseLog _ _)
  cases q with
  | check | recent | tracked => cases hpath
  | history | ownership | frequency =>
    obtain rfl := Option.some.inj hpath
    simp [answerTo, hkey, hnone, World.default, ownershipOf, rankedAuthors, authorCounts,
      frequencyOf]
  | together path threshold =>
    obtain rfl := Option.some.inj hpath
    have hroot : keyOf repo "" = "" := by rfl
    simp [answerTo, hkey, hroot, hnone, World.default, relatedOf_nil]

/-- Where every command succeeds a question may have one answer only. -/
theorem eq_answerTo_of_mayYield {r : Except Fault Answer}
    (h : (succeedsWith outputs).MayYield repo now q r) : r = answerTo repo now outputs q := by
  cases h with
  | refused hfail | outside hfail | fileLost _ _ _ hfail | noIndex _ _ _ hfail
  | untracked _ hfail => exact absurd hfail (not_mayFail_succeedsWith _)
  | noKey hpath hkey => exact (answerTo_of_key_eq_empty hpath hkey).symm
  | check => rfl
  | file hpath _ hcs => rw [answerTo_of_historyPath? hpath, mayTell_succeedsWith_iff.1 hcs]
  | together _ hx hcs =>
    rw [mayIndex_succeedsWith_iff.1 hx, mayTell_succeedsWith_iff.1 hcs]
    rfl
  | recent hx hsince =>
    rw [mayIndex_succeedsWith_iff.1 hx, answerTo, hsince]
  | noDate _ hsince => rw [answerTo, hsince]
  | tracked _ houtput =>
    rw [Except.ok.inj houtput]
    rfl

/-- A client that has ended has the answers to all of its questions, up to the first that fails. -/
theorem World.MayEnd.eq_mapM {qs : List Query} {r : Except Fault Answer}
    (h : World.MayEnd (succeedsWith outputs) repo now qs r) :
    r = (qs.mapM (answerTo repo now outputs)).map .all := by
  have hanswers {qs : List Query} {as : List Answer} (has : List.Forall₂
      (fun q a ↦ (succeedsWith outputs).MayYield repo now q (.ok a)) qs as) :
      qs.mapM (answerTo repo now outputs) = .ok as := by
    induction has with
    | nil => rfl
    | cons ha _ ih => rw [List.mapM_cons, ← eq_answerTo_of_mayYield ha, ih]; rfl
  cases r with
  | ok a =>
    obtain ⟨as, rfl, has⟩ := h
    rw [hanswers has]
    rfl
  | error e =>
    obtain ⟨asked, q, rest, rfl, he, as, has⟩ := h
    rw [List.mapM_append, hanswers has, List.mapM_cons, ← eq_answerTo_of_mayYield he]
    rfl

/-! ### Alone and beside others -/

/-- A script in which all commands succeed is expected. -/
theorem isExpected_succeed (outputs : Command → String) :
    Script.IsExpected fun _ c ↦ .ok (outputs c) := by
  intro _ c fault hfault
  cases hfault

/-- What a question is answered that is asked alone. -/
theorem ask_succeedsWith (repo : String) (now : Int) (outputs : Command → String) (q : Query) :
    ((fresh repo now).ask (fun _ c ↦ .ok (outputs c)) q).2 =
      answerTo (Path.absolute repo) now outputs q := by
  have hfounded := World.founded_fresh (succeedsWith outputs) repo now
  exact eq_answerTo_of_mayYield (Turns.mayYield_ask (Turns.orderly_fresh repo now) hfounded
    (isExpected_succeed outputs) (fun _ _ ↦ rfl) (Nat.le_refl 0) q)

namespace World

/-- **Answers do not depend on the schedule.** Where every command succeeds, always with the same
output, whoever asks in the course of a run has the answers that the same questions have when each
is asked alone of a history that nobody has used, however threads take turns; and has them once
nobody can go on. The commits of a file are those that the index of the whole log has for its
key. -/
theorem answers_as_if_alone (repo : String) (now : Int) (outputs : Command → String)
    {events : List Event} (hevents : ∀ e ∈ events, e.IsExpected)
    (hobeys : (fresh repo now).world.Obeys (succeedsWith outputs) events) :
    let start := (fresh repo now).world
    let alone (q : Query) := ((fresh repo now).ask (fun _ c ↦ .ok (outputs c)) q).2
    (∀ before qs later, events = before ++ .ask qs :: later →
      let result := (start.run events).result? (start.askerAfter before)
      (∀ r, result = some r → r = (qs.mapM alone).map .all) ∧
      ((∀ j, (start.run events).canGoOn j = false) → result.isSome)) ∧
    ∀ path, alone (.history path) = .ok (.commits
      ((parseLog (belowOf (outputs .showPrefix)) (outputs .fullLog)).commitsOf
        (keyOf (Path.absolute repo) path))) := by
  intro start alone
  have halone : alone = answerTo (Path.absolute repo) now outputs :=
    funext fun q ↦ ask_succeedsWith repo now outputs q
  refine ⟨?_, fun path ↦ ask_succeedsWith repo now outputs (.history path)⟩
  rintro before qs later rfl result
  obtain ⟨t, ht, hqs⟩ := exists_hasAsked_of_ask hevents hobeys
  refine ⟨fun r hr ↦ ?_, fun hstill ↦ ?_⟩
  · rw [halone]
    exact (hqs.mayEnd ht hr).eq_mapM
  · exact ((coherent_fresh repo now).run hevents).isSome_result? hstill ht ⟨_, _, hqs⟩

/-- A directory with one commit, which touches two files. -/
def twoFiles : Command → String
  | .showPrefix => ""
  | .fullLog => "0123456789\tAda\t2024-01-02T03:04:05+00:00\tBegin\n\na.js\nb.js\n"
  | .fileLog _ => ""
  | .listFiles => "a.js\nb.js\n"

/-- Two ask at the same time: the first for a file, the second for the tracked files and then for
the same file. The check is thread 2 and the build thread 3. -/
def togetherEvents : List Event :=
  [.ask [.history "a.js"], .ask [.tracked, .history "a.js"], .goOn 0 (.ok ""), .goOn 1 (.ok ""),
    .goOn 2 (.ok ""), .goOn 2 (.ok ""), .goOn 1 (.ok ""), .goOn 0 (.ok ""),
    .goOn 1 (.ok (twoFiles .listFiles)), .goOn 3 (.ok ""), .goOn 3 (.ok (twoFiles .fullLog)),
    .goOn 1 (.ok ""), .goOn 0 (.ok "")]

/-- The second client begins while the first one waits, and is told what it would be told alone. -/
theorem answers_as_if_alone_of_two :
    let start := (fresh "/srv/app" 63900000000000000).world
    let alone (q : Query) :=
      ((fresh "/srv/app" 63900000000000000).ask (fun _ c ↦ .ok (twoFiles c)) q).2
    (∀ e ∈ togetherEvents, e.IsExpected) ∧ start.Obeys (succeedsWith twoFiles) togetherEvents ∧
      (start.run togetherEvents).result? 1 =
        some (([.tracked, .history "a.js"].mapM alone).map .all) := by
  intro start alone
  have hevents : ∀ e ∈ togetherEvents, e.IsExpected := by
    simp [togetherEvents, Event.IsExpected, Outcome.IsExpected]
  have hobeys : start.Obeys (succeedsWith twoFiles) togetherEvents := by decide +kernel
  have hended : ((start.run togetherEvents).result? 1).isSome := by decide +kernel
  obtain ⟨r, hr⟩ := Option.isSome_iff_exists.1 hended
  obtain ⟨hasked, -⟩ := answers_as_if_alone "/srv/app" 63900000000000000 twoFiles hevents hobeys
  obtain ⟨halone, -⟩ := hasked [.ask [.history "a.js"]] [.tracked, .history "a.js"] _ rfl
  obtain rfl := halone r hr
  exact ⟨hevents, hobeys, hr⟩

end World

end RepoSurvey.History
