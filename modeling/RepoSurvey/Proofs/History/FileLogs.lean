import RepoSurvey.Proofs.History.Below
import RepoSurvey.Proofs.History.Independence

/-!
# The logs of single files instead of the whole log

Where the whole log cannot be read, the commits of a file are taken from the log of this file alone.
Whichever way they are had, a question about the commits of a file has the same answer, as long as
the log of a file lists those commits that touch it by the whole log (`file_logs_agree_with_whole`).

What both ways have in common is `Outcomes.Tells`: the commits that may be told of a key are those
that one function gives, so a question about the commits of a file may have one answer only
(`Outcomes.Tells.eq_of_mayYield`). It remains to be seen what each way tells. The whole log is read
for the files below a directory (`parseLog_logText_eq_below`); the log of a file names no files, and
is read for its headers (`ListsCommits.commits_parseLog`).
-/

namespace RepoSurvey.History

open RepoSurvey.Text

/-! ### Outcomes -/

/-- Each command always has the same outcome. -/
def always (fixed : Command → Outcome) : Outcomes := fun c outcome ↦ outcome = fixed c

instance (fixed : Command → Outcome) (c : Command) (outcome : Outcome) :
    Decidable (always fixed c outcome) :=
  inferInstanceAs (Decidable (outcome = fixed c))

theorem obeys_always (fixed : Command → Outcome) :
    Script.Obeys (always fixed) fun _ c ↦ fixed c := fun _ _ ↦ rfl

/-- A run whose commands have fixed outcomes obeys all outcomes that allow these. -/
theorem World.Obeys.of_always {b : Outcomes} {fixed : Command → Outcome}
    (hb : ∀ c, b c (fixed c)) {w : World} {events : List Event}
    (h : w.Obeys (always fixed) events) : w.Obeys b events := by
  induction events generalizing w with
  | nil => exact trivial
  | cons e events ih =>
    refine ⟨?_, ih h.2⟩
    cases e with
    | ask => exact trivial
    | goOn i outcome =>
      intro c hc
      obtain rfl : outcome = fixed c := h.1 c hc
      exact hb c

/-! ### What is told of files -/

/-- Outside of a repository a file has no commits. -/
theorem default_eq_answerOf {q : Query} {path : String} (h : World.historyPath? q = some path) :
    World.default q = World.answerOf q [] := by
  cases q with
  | history => rfl
  | ownership => simp [World.default, World.answerOf, ownershipOf, rankedAuthors, authorCounts]
  | frequency => simp [World.default, World.answerOf, frequencyOf]
  | check | together | recent | tracked => cases h

/-- The answer to a question about the commits of a file, where `f` gives those of a key. -/
def fileAnswer (repo : String) (f : String → List Commit) (q : Query) : Answer :=
  let key := keyOf repo (q.path?.getD "")
  World.answerOf q (if key = "" then [] else f key)

/-- There is a repository, and the commits that may be told of a key are those that `f` gives. -/
structure Outcomes.Tells (b : Outcomes) (f : String → List Commit) : Prop where
  found : ¬b.MayFail .showPrefix
  told : ∀ key cs, key ≠ "" → b.MayTell key cs → cs = f key
  lost : ∀ key, b.MayFail .fullLog → b.MayFail (.fileLog key) → f key = []

namespace Outcomes.Tells

variable {b : Outcomes} {f : String → List Commit} {repo : String} {now : Int}

/-- A question about the commits of files has one answer only where commits can be told in one way
only. -/
theorem eq_of_mayYield (h : b.Tells f) {q : Query} (hq : World.historyPath? q ≠ none)
    {r : Except Fault Answer} (hr : b.MayYield repo now q r) : r = .ok (fileAnswer repo f q) := by
  obtain ⟨path, hpath⟩ := Option.ne_none_iff_exists'.1 hq
  have hpath? := World.path?_of_historyPath? hpath
  rw [fileAnswer, hpath?, Option.getD_some]
  cases hr with
  | refused hfail | outside hfail => exact absurd hfail h.found
  | noKey hpath' hkey =>
    obtain rfl := Option.some.inj (hpath?.symm.trans hpath')
    simp only [if_pos hkey, default_eq_answerOf hpath]
  | file hpath' hkey hcs =>
    obtain rfl := Option.some.inj (hpath.symm.trans hpath')
    simp only [if_neg hkey, h.told _ _ hkey hcs]
  | fileLost hpath' hkey _ hfail hlost =>
    obtain rfl := Option.some.inj (hpath.symm.trans hpath')
    simp only [if_neg hkey, h.lost _ hfail hlost]
  | noIndex _ hnone => exact absurd hnone hq
  | check | together | recent | noDate | tracked | untracked => cases hpath

/-- A client that has asked about the commits of files ends with their answers. -/
theorem eq_of_mayEnd (h : b.Tells f) {qs : List Query}
    (hqs : ∀ q ∈ qs, World.historyPath? q ≠ none) {r : Except Fault Answer}
    (hr : World.MayEnd b repo now qs r) : r = .ok (.all (qs.map (fileAnswer repo f))) := by
  cases r with
  | ok a =>
    obtain ⟨as, rfl, has⟩ := hr
    have hmap : as = qs.map (fileAnswer repo f) := by
      induction has with
      | nil => rfl
      | cons ha _ ih =>
        obtain ⟨hq, hqs⟩ := List.forall_mem_cons.1 hqs
        rw [List.map_cons, ← ih hqs, ← Except.ok.inj (h.eq_of_mayYield hq ha)]
    rw [hmap]
  | error e =>
    obtain ⟨asked, q, rest, rfl, he, -⟩ := hr
    have hq := hqs q (by simp)
    cases h.eq_of_mayYield hq he

/-- What a question about the commits of a file is answered that is asked alone. -/
theorem ask (h : b.Tells f) {script : Script} (hscript : script.IsExpected)
    (hobeys : script.Obeys b) {q : Query} (hq : World.historyPath? q ≠ none) :
    ((fresh repo now).ask script q).2 = .ok (fileAnswer (Path.absolute repo) f q) := by
  have hfounded := World.founded_fresh b repo now
  have hyield := Turns.mayYield_ask (Turns.orderly_fresh repo now) hfounded hscript hobeys
    (Nat.le_refl 0) q
  exact h.eq_of_mayYield hq hyield

/-- Whoever asks about the commits of files in the course of a run ends with their answers. -/
theorem result?_run (h : b.Tells f) {before later : List Event} {qs : List Query}
    (hevents : ∀ e ∈ before ++ .ask qs :: later, e.IsExpected)
    (hobeys : (fresh repo now).world.Obeys b (before ++ .ask qs :: later))
    (hqs : ∀ q ∈ qs, World.historyPath? q ≠ none) :
    let start := (fresh repo now).world
    let last := start.run (before ++ .ask qs :: later)
    (∀ r, last.result? (start.askerAfter before) = some r →
      r = .ok (.all (qs.map (fileAnswer (Path.absolute repo) f)))) ∧
    ((∀ j, last.canGoOn j = false) → (last.result? (start.askerAfter before)).isSome) := by
  intro start last
  obtain ⟨t, ht, hasked⟩ := World.exists_hasAsked_of_ask hevents hobeys
  refine ⟨fun r hr ↦ h.eq_of_mayEnd hqs (hasked.mayEnd ht hr), fun hstill ↦ ?_⟩
  exact ((World.coherent_fresh repo now).run hevents).isSome_result? hstill ht ⟨_, _, hasked⟩

end Outcomes.Tells

/-! ### The whole log -/

/-- The commits that an index has of a file are those of the entries that touch it. -/
theorem LogEntry.commitsOf_index (entries : List LogEntry) (file : String) :
    (LogEntry.index entries).commitsOf file = LogEntry.commitsOf entries file := by
  have hkeys : Assoc.keys (LogEntry.index entries).fileCommits =
      Assoc.distinct (entries.flatMap LogEntry.files) := by
    simp [Assoc.keys, LogEntry.index, Function.comp_def]
  rw [LogIndex.commitsOf]
  by_cases hmem : file ∈ entries.flatMap LogEntry.files
  · have hpair : (file, LogEntry.commitsOf entries file) ∈
        (LogEntry.index entries).fileCommits :=
      List.mem_map.2 ⟨file, Assoc.mem_distinct.2 hmem, rfl⟩
    have hnodup : (Assoc.keys (LogEntry.index entries).fileCommits).Nodup :=
      hkeys ▸ Assoc.nodup_distinct _
    rw [(Assoc.lookup_eq_some_iff_mem hnodup).2 hpair, Option.getD_some]
  · have hnone : file ∉ Assoc.keys (LogEntry.index entries).fileCommits := by
      rwa [hkeys, Assoc.mem_distinct]
    rw [Assoc.lookup_eq_none_iff_not_mem_keys.2 hnone, LogEntry.commitsOf_eq_nil hmem,
      Option.getD_none]

/-- The directory is found to lie where `output` says, and the whole log is read. -/
def readsWhole (output log : String) : Outcomes
  | .showPrefix, outcome => outcome = .ok output
  | .fullLog, outcome => outcome = .ok log
  | .fileLog _, _ | .listFiles, _ => True

section Entries

variable {output : String} {entries : List LogEntry} (hwell : ∀ e ∈ entries, e.WellFormed)
  (hnodup : (entries.map fun e ↦ e.commit.hash).Nodup)
include hwell hnodup

/-- Of a file the whole log tells the commits that touch it by its path from the top. -/
theorem tells_readsWhole : (readsWhole output (logText entries)).Tells fun key ↦
    LogEntry.commitsOf entries (belowOf output ++ key) where
  found := by
    rintro ⟨fault, hfault⟩
    cases hfault
  told := by
    rintro key cs hkey (⟨x, hx, rfl⟩ | ⟨-, ⟨fault, hfault⟩, -⟩)
    · obtain ⟨below, log, ⟨output', houtput, rfl⟩, hlog, rfl⟩ := hx
      obtain rfl := Except.ok.inj houtput
      obtain rfl := Except.ok.inj hlog
      rw [parseLog_logText_eq_below (belowOf output') hwell hnodup,
        LogIndex.commitsOf_below _ _ hkey, LogEntry.commitsOf_index]
    · cases hfault
  lost := by
    rintro key ⟨fault, hfault⟩
    cases hfault

end Entries

/-! ### The logs of files -/

/-- A log lists commits, with or without blank lines behind each, and names no files. -/
def ListsCommits (cs : List Commit) (log : String) : Prop :=
  ∃ headers : List LogEntry, (∀ e ∈ headers, e.WellFormed ∧ e.files = []) ∧
    headers.map LogEntry.commit = cs ∧ log = logText headers

/-- The commits that a log lists are read off it. -/
theorem ListsCommits.commits_parseLog {cs : List Commit} {log : String} (h : ListsCommits cs log)
    (hnodup : (cs.map Commit.hash).Nodup) : (parseLog "" log).commits = cs := by
  obtain ⟨headers, hheaders, rfl, rfl⟩ := h
  rw [List.map_map] at hnodup
  rw [parseLog_logText_eq_below "" (fun e he ↦ (hheaders e he).1) hnodup, LogIndex.commits_below,
    LogEntry.index]

/-- A log that holds a line for each commit and nothing else. -/
def headersText (cs : List Commit) : String := logText (cs.map fun c ↦ { commit := c })

/-- Where no two entries have one hash, no two commits of a file have. -/
theorem nodup_hashes_commitsOf {entries : List LogEntry}
    (hnodup : (entries.map fun e ↦ e.commit.hash).Nodup) (file : String) :
    ((LogEntry.commitsOf entries file).map Commit.hash).Nodup := by
  rw [LogEntry.commitsOf, List.map_map]
  exact hnodup.sublist (List.filter_sublist.map _)

/-- The headers of those commits of a log that touch a file are a log of their own. -/
theorem listsCommits_headersText {entries : List LogEntry} (hwell : ∀ e ∈ entries, e.WellFormed)
    (file : String) :
    ListsCommits (LogEntry.commitsOf entries file)
      (headersText (LogEntry.commitsOf entries file)) := by
  refine ⟨_, fun e he ↦ ?_, ?_, rfl⟩
  · obtain ⟨c, hc, rfl⟩ := List.mem_map.1 he
    obtain ⟨entry, hentry, rfl⟩ := List.mem_map.1 hc
    have hentry := hwell entry (List.mem_of_mem_filter hentry)
    exact ⟨⟨hentry.hash, hentry.author, hentry.date, hentry.message, .nil, by simp, by simp⟩, rfl⟩
  · rw [List.map_map]
    exact List.map_id _

/-- The directory is found to lie where `output` says, the whole log cannot be read, and the log of
a file lists the commits that touch it, with `below` in front of its key, by the entries of the
whole log. -/
def readsFiles (output below : String) (entries : List LogEntry) : Outcomes
  | .showPrefix, outcome => outcome = .ok output
  | .fullLog, outcome => ∃ fault, outcome = .error fault
  | .fileLog key, outcome =>
    ∃ log, outcome = .ok log ∧ ListsCommits (LogEntry.commitsOf entries (below ++ key)) log
  | .listFiles, _ => True

/-- The log of a file tells the commits that touch it by its path from the top. -/
theorem tells_readsFiles {output below : String} {entries : List LogEntry}
    (hnodup : (entries.map fun e ↦ e.commit.hash).Nodup) :
    (readsFiles output below entries).Tells fun key ↦
      LogEntry.commitsOf entries (below ++ key) where
  found := by
    rintro ⟨fault, hfault⟩
    cases hfault
  told := by
    rintro key cs - (⟨x, ⟨below, log, -, ⟨fault, hfault⟩, -⟩, -⟩ | ⟨-, -, log, hlog, rfl⟩)
    · cases hfault
    · obtain ⟨log', hlog', hlists⟩ := hlog
      obtain rfl := Except.ok.inj hlog'
      exact hlists.commits_parseLog (nodup_hashes_commitsOf hnodup _)
  lost := by
    rintro key - ⟨fault, log, hlog, -⟩
    cases hlog

/-! ### Either way -/

/-- A directory lies where the output of the check's command says, blanks around this apart. -/
theorem belowOf_eq_of_strip {output below : String} (hstrip : strip output = below)
    (hslash : '\\' ∉ below.toList) : belowOf output = below := by
  subst hstrip
  rw [strip, String.toList_ofList] at hslash
  rw [belowOf, replaceChar_of_not_mem '/' hslash, strip]

/-- **The logs of files agree with the whole log.** Let a log be written from entries, and let the
directory lie at `below` in its work tree. Where the whole log can be read, and where it cannot but
the log of each file lists those commits that touch it, a question about the commits of a file has
the same answer; and so does everyone who asks such questions in the course of a run, however
threads take turns. -/
theorem file_logs_agree_with_whole (repo : String) (now : Int) {output below : String}
    (hstrip : strip output = below) (hslash : '\\' ∉ below.toList) {entries : List LogEntry}
    (hwell : ∀ e ∈ entries, e.WellFormed)
    (hnodup : (entries.map fun e ↦ e.commit.hash).Nodup) :
    let whole := readsWhole output (logText entries)
    let single := readsFiles output below entries
    let start := (fresh repo now).world
    (∀ s s' : Script, s.IsExpected → s.Obeys whole → s'.IsExpected → s'.Obeys single →
      ∀ q, World.historyPath? q ≠ none →
        ((fresh repo now).ask s q).2 = ((fresh repo now).ask s' q).2) ∧
    ∀ b, b = whole ∨ b = single → ∀ before qs later,
      (∀ e ∈ before ++ .ask qs :: later, e.IsExpected) →
      start.Obeys b (before ++ .ask qs :: later) → (∀ q ∈ qs, World.historyPath? q ≠ none) →
      let last := start.run (before ++ .ask qs :: later)
      let result := last.result? (start.askerAfter before)
      (∀ r, result = some r → r = .ok (.all (qs.map (fileAnswer (Path.absolute repo) fun key ↦
        LogEntry.commitsOf entries (below ++ key))))) ∧
      ((∀ j, last.canGoOn j = false) → result.isSome) := by
  intro whole single start
  have hwhole : whole.Tells fun key ↦ LogEntry.commitsOf entries (below ++ key) := by
    rw [← belowOf_eq_of_strip hstrip hslash]
    exact tells_readsWhole hwell hnodup
  have hsingle : single.Tells fun key ↦ LogEntry.commitsOf entries (below ++ key) :=
    tells_readsFiles hnodup
  refine ⟨fun s s' hs hobeys hs' hobeys' q hq ↦ ?_, ?_⟩
  · rw [hwhole.ask hs hobeys hq, hsingle.ask hs' hobeys' hq]
  · rintro b (rfl | rfl) before qs later hevents hobeys hqs
    · exact hwhole.result?_run hevents hobeys hqs
    · exact hsingle.result?_run hevents hobeys hqs

/-- Two commits of a work tree, of which both touch one file of the directory `app`. -/
def appEntries : List LogEntry :=
  [{ commit := ⟨"abcdef0", "Ada", "2024-01-02T03:04:05+00:00", "Mend"⟩
     files := ["app/a.js", "a.js"]
     blanks := [""] },
    { commit := ⟨"abcdef1", "Ben", "2024-01-01T03:04:05+00:00", "Begin"⟩, files := ["app/a.js"] }]

/-- The whole log can be read. -/
def appWhole : Command → Outcome
  | .showPrefix => .ok "app/\n"
  | .fullLog => .ok (logText appEntries)
  | .fileLog _ | .listFiles => .ok ""

/-- The whole log cannot be read, but the logs of files can. -/
def appFiles : Command → Outcome
  | .showPrefix => .ok "app/\n"
  | .fullLog => .error (.exit 128 "")
  | .fileLog key => .ok (headersText (LogEntry.commitsOf appEntries ("app/" ++ key)))
  | .listFiles => .ok ""

/-- Someone asks for the commits of a file and then for its owners. The check is thread 1 and the
build thread 2; for the second question the commits are remembered. -/
def appEvents : List Event :=
  [.ask [.history "a.js", .ownership "a.js"], .goOn 0 (.ok ""), .goOn 1 (.ok ""),
    .goOn 1 (appFiles .showPrefix), .goOn 0 (.ok ""), .goOn 2 (.ok ""),
    .goOn 2 (appFiles .fullLog), .goOn 0 (.ok ""), .goOn 0 (appFiles (.fileLog "a.js"))]

/-- The parts of these entries do not hold what separates them. -/
theorem wellFormed_appEntries : ∀ e ∈ appEntries, e.WellFormed := by
  have hname : ∀ file ∈ ["app/a.js", "a.js"], LogEntry.IsFileName file := by
    simp only [List.forall_mem_cons, List.not_mem_nil, false_implies, implies_true, and_true]
    refine ⟨⟨?_, ?_, ?_, ?_, fun h ↦ absurd h.1 ?_⟩, ⟨?_, ?_, ?_, ?_, fun h ↦ absurd h.1 ?_⟩⟩ <;>
      decide
  intro e he
  simp only [appEntries, List.mem_cons, List.not_mem_nil, or_false] at he
  rcases he with rfl | rfl
  · exact ⟨by decide, by decide, by decide, by decide, by decide, hname, by simp⟩
  · refine ⟨by decide, by decide, by decide, by decide, by decide, fun file hfile ↦ ?_, by simp⟩
    exact hname file (List.mem_cons.2 (Or.inl (List.mem_singleton.1 hfile)))

/-- Two authors have a commit each, and the one whose commit comes first owns the file. -/
theorem ownershipOf_appEntries : ownershipOf (appEntries.map LogEntry.commit) =
    ⟨"Ada", [⟨"Ada", 1⟩, ⟨"Ben", 1⟩], 2⟩ := by
  have hcounts : authorCounts (appEntries.map LogEntry.commit) = [("Ada", 1), ("Ben", 1)] := by
    decide
  -- who has as many commits as another keeps his place
  have hranked : rankedAuthors (appEntries.map LogEntry.commit) = [⟨"Ada", 1⟩, ⟨"Ben", 1⟩] := by
    rw [rankedAuthors, hcounts, List.mergeSort_of_pairwise (by decide)]
    rfl
  rw [ownershipOf, hranked]
  rfl

/-- Both ways to read two commits give the same answers. -/
theorem file_logs_agree_with_whole_of_app :
    let start := (fresh "/srv/app" 63900000000000000).world
    let asker (fixed : Command → Outcome) :=
      (fresh "/srv/app" 63900000000000000).ask fun _ c ↦ fixed c
    strip "app/\n" = "app/" ∧ (∀ e ∈ appEntries, e.WellFormed) ∧
      (appEntries.map fun e ↦ e.commit.hash).Nodup ∧
      (∀ c, readsWhole "app/\n" (logText appEntries) c (appWhole c)) ∧
      (∀ c, readsFiles "app/\n" "app/" appEntries c (appFiles c)) ∧
      (∀ path, (asker appWhole (.ownership path)).2 = (asker appFiles (.ownership path)).2) ∧
      (start.run appEvents).result? 0 = some (.ok (.all
        [.commits (appEntries.map LogEntry.commit),
          .ownership ⟨"Ada", [⟨"Ada", 1⟩, ⟨"Ben", 1⟩], 2⟩])) := by
  intro start asker
  have hstrip : strip "app/\n" = "app/" := by decide
  have hnodup : (appEntries.map fun e ↦ e.commit.hash).Nodup := by decide
  have hwhole : ∀ c, readsWhole "app/\n" (logText appEntries) c (appWhole c) := by
    rintro (_ | _ | key | _)
    · rfl
    · rfl
    · exact trivial
    · exact trivial
  have hsingle : ∀ c, readsFiles "app/\n" "app/" appEntries c (appFiles c) := by
    rintro (_ | _ | key | _)
    · rfl
    · exact ⟨_, rfl⟩
    · exact ⟨_, rfl, listsCommits_headersText wellFormed_appEntries _⟩
    · exact trivial
  have hexpected : ∀ c, (appWhole c).IsExpected ∧ (appFiles c).IsExpected := by
    rintro (_ | _ | key | _) <;>
      simp [appWhole, appFiles, Outcome.IsExpected, CommandFault.isExpected]
  obtain ⟨halone, hrun⟩ := file_logs_agree_with_whole "/srv/app" 63900000000000000 hstrip
    (by decide) wellFormed_appEntries hnodup
  refine ⟨hstrip, wellFormed_appEntries, hnodup, hwhole, hsingle, fun path ↦ ?_, ?_⟩
  · exact halone _ _ (fun _ c ↦ (hexpected c).1) (fun _ c ↦ hwhole c) (fun _ c ↦ (hexpected c).2)
      (fun _ c ↦ hsingle c) (.ownership path) (by simp [World.historyPath?])
  · have hevents : ∀ e ∈ appEvents, e.IsExpected := by
      simp [appEvents, Event.IsExpected, Outcome.IsExpected, appFiles, CommandFault.isExpected]
    have hobeys : start.Obeys (always appFiles) appEvents := by decide +kernel
    have hended : ((start.run appEvents).result? 0).isSome := by decide +kernel
    obtain ⟨r, hr⟩ := Option.isSome_iff_exists.1 hended
    obtain ⟨hanswer, -⟩ := hrun _ (Or.inr rfl) [] [.history "a.js", .ownership "a.js"] _ hevents
      (hobeys.of_always hsingle) (by simp [World.historyPath?])
    obtain rfl := hanswer r hr
    have hkey : keyOf (Path.absolute "/srv/app") "a.js" = "a.js" := by decide +kernel
    have hcommits : LogEntry.commitsOf appEntries ("app/" ++ "a.js") =
        appEntries.map LogEntry.commit := by decide +kernel
    have hne : ¬"a.js" = "" := by decide
    rw [hr, List.map_cons, List.map_singleton]
    simp only [fileAnswer, Query.path?, Option.getD_some, hkey, hne, if_false, hcommits,
      World.answerOf, ownershipOf_appEntries]

end RepoSurvey.History
