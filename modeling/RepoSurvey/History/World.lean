import RepoSurvey.History.Command
import RepoSurvey.History.Query
import RepoSurvey.Log

/-!
# A history in use

Many clients may ask one history at the same time. A `World` holds what they share and where each of
them stands; `resume` lets one of them go on to the next point at which it must wait. Whether the
directory has a history is found out once, and the whole log is read once, by threads of their own
for which clients wait; a log that could not be read is forgotten, so that a later question reads it
again, and meanwhile the log of a single file is read.

Nothing here says in which order threads go on: that is left to a schedule.
-/

namespace RepoSurvey.History

open RepoSurvey.Text

/-- Why a question has no answer. -/
inductive Fault where
  /-- The directory is not in a repository. -/
  | notARepository (path : String)
  /-- A command fails. -/
  | command (c : Command) (fault : CommandFault)
  /-- A date lies beyond the calendar. -/
  | span (fault : SpanFault)
deriving DecidableEq, Repr

namespace Fault

/-- The wording of a fault. -/
def message : Fault → String
  | .notARepository path => "Not a git repository: " ++ path
  | .command c fault => fault.message c
  | .span fault => fault.message

/-- Whether a failing command explains the fault. -/
def isExpected : Fault → Bool
  | .command _ fault => fault.isExpected
  | _ => false

/-- Whether the fault is that there is no repository. -/
def isNoRepository : Fault → Bool
  | .notARepository _ => true
  | _ => false

end Fault

/-- The answer to a question, or what a thread of the history's own yields. -/
inductive Answer where
  | nothing
  | commits (cs : List Commit)
  | ownership (o : Ownership)
  | frequency (f : Float)
  | related (cs : List CoChange)
  | recent (files : List (String × List Commit))
  | tracked (files : List String)
  | index (x : LogIndex)
  | all (answers : List Answer)

/-- What a thread does. -/
inductive Job where
  /-- Asks questions one after the other; `got` are the answers so far, latest first. -/
  | client (todo : List Query) (got : List Answer)
  /-- Finds out whether there is a repository. -/
  | repoCheck
  /-- Reads the whole log. -/
  | indexBuild

/-- Where a thread stands. -/
inductive Point where
  /-- It has not begun. -/
  | start
  /-- It waits for the thread that finds out whether there is a repository. -/
  | onCheck (thread : Nat)
  /-- It waits for the thread that reads the whole log. -/
  | onIndex (thread : Nat)
  /-- It runs a command when it goes on. -/
  | command (c : Command)
  /-- It has ended. -/
  | done (result : Except Fault Answer)

/-- A thread. -/
structure Thread where
  job : Job
  point : Point := .start

/-- A history and its clients. -/
structure World where
  /-- The absolute path of the analysed directory. -/
  repo : String
  /-- The present instant. -/
  now : Int
  /-- Where the directory lies in its work tree, once known. -/
  below : Option String := none
  /-- Whether it is known that there is no repository. -/
  refused : Bool := false
  /-- The thread that finds that out. -/
  check : Option Nat := none
  /-- The index of the whole log, once known. -/
  index : Option LogIndex := none
  /-- The thread that reads the whole log. -/
  build : Option Nat := none
  /-- The commits of files that have been told. -/
  told : List (String × List Commit) := []
  threads : List Thread := []
  /-- The commands that have been run, latest first. -/
  calls : List Command := []
  /-- What has been noted, latest first. -/
  notes : List Record := []
  /-- The threads begun by `resume`, latest first. -/
  begun : List Nat := []

namespace World

/-- Adds a thread; yields its number. -/
def spawn (w : World) (job : Job) : World × Nat :=
  let n := w.threads.length
  ({ w with threads := w.threads ++ [{ job }], begun := n :: w.begun }, n)

/-- Moves a thread to another point. -/
def setThread (w : World) (i : Nat) (t : Thread) : World :=
  { w with threads := w.threads.set i t }

/-- How a thread has ended, if it has. -/
def result? (w : World) (i : Nat) : Option (Except Fault Answer) :=
  match w.threads[i]? with
  | some { point := .done r, .. } => some r
  | _ => none

/-- Notes a record. -/
def note (w : World) (level : Level) (message : String) : World :=
  { w with notes := ⟨level, message⟩ :: w.notes }

/-- Remembers the commits of a file. -/
def tell (w : World) (key : String) (cs : List Commit) : World :=
  { w with told := Assoc.set key cs w.told }

/-! ### Waiting for the check and for the index -/

/-- The state of something that one may have to wait for. -/
inductive Awaited (α : Type) where
  | ready (a : α)
  | failed (fault : Fault)
  | wait (thread : Nat)

/-- What the ended check of a thread tells a thread that waited for it. -/
def leaveCheck (w : World) (t : Nat) (result : Except Fault Answer) : World × Awaited Unit :=
  let w := if w.check = some t then { w with check := none } else w
  match result with
  | .ok _ => (w, .ready ())
  | .error e => (w, .failed e)

/-- Asks whether there is a repository. -/
def enterCheck (w : World) : World × Awaited Unit :=
  if w.below.isSome then (w, .ready ())
  else if w.refused then (w, .failed (.notARepository w.repo))
  else
    let (w, t) := match w.check with
      | some t => (w, t)
      | none =>
        let (w, t) := w.spawn .repoCheck
        ({ w with check := some t }, t)
    match w.result? t with
    | some result => w.leaveCheck t result
    | none => (w, .wait t)

/-- What the ended thread that read the log tells a thread that waited for it. -/
def leaveIndex (w : World) (t : Nat) (result : Except Fault Answer) : World × Awaited LogIndex :=
  match result with
  | .ok (.index x) => ({ w with index := some x, build := none }, .ready x)
  | .ok _ => ({ w with build := none }, .ready {})
  | .error e =>
    if w.build = some t then
      let w := { w with build := none }
      (if e.isNoRepository then w
        else w.note .warning ("Failed to build history index: " ++ e.message), .failed e)
    else (w, .failed e)

/-- Asks for the index of the whole log. -/
def enterIndex (w : World) : World × Awaited LogIndex :=
  match w.index with
  | some x => (w, .ready x)
  | none =>
    let (w, t) := match w.build with
      | some t => (w, t)
      | none =>
        let (w, t) := w.spawn .indexBuild
        ({ w with build := some t }, t)
    match w.result? t with
    | some result => w.leaveIndex t result
    | none => (w, .wait t)

/-! ### Questions -/

/-- How a question goes on: it has an answer or a fault, or must wait. -/
inductive Progress where
  | answered (a : Answer)
  | failed (fault : Fault)
  | waits (point : Point)

/-- The path of a question about one file's commits. -/
def historyPath? : Query → Option String
  | .history path | .ownership path | .frequency path => some path
  | _ => none

/-- The answer to a question about one file's commits. -/
def answerOf (q : Query) (commits : List Commit) : Answer :=
  match q with
  | .ownership _ => .ownership (ownershipOf commits)
  | .frequency _ => .frequency (frequencyOf commits)
  | _ => .commits commits

/-- The answer where there is no history. -/
def default : Query → Answer
  | .check => .nothing
  | .history _ => .commits []
  | .ownership _ => .ownership {}
  | .frequency _ => .frequency 0
  | .together _ _ => .related []
  | .recent _ => .recent []
  | .tracked => .tracked []

/-- Goes on with a question about one file's commits, given the index. -/
def fileFromIndex (w : World) (q : Query) (path : String) (x : LogIndex) : World × Progress :=
  let key := keyOf w.repo path
  let commits := x.commitsOf key
  (w.tell key commits, .answered (answerOf q commits))

/-- Goes on with a question about one file's commits when the index cannot be had. -/
def fileWithoutIndex (w : World) (path : String) (e : Fault) : World × Progress :=
  let key := keyOf w.repo path
  if e.isExpected then
    (w.note .debug s!"History index unavailable ({e.message}); reading log for {key}",
      .waits (.command (.fileLog key)))
  else (w, .failed e)

/-- The commits of a key, given the index: those told before, or those of the index, which are then
told. -/
def commitsFor (w : World) (key : String) (x : LogIndex) : World × List Commit :=
  if key = "" then (w, [])
  else match w.told.lookup key with
    | some commits => (w, commits)
    | none => (w.tell key (x.commitsOf key), x.commitsOf key)

/-- Goes on with a question that needs the index. -/
def afterIndex (w : World) (q : Query) : Awaited LogIndex → World × Progress
  | .wait t => (w, .waits (.onIndex t))
  | .failed e =>
    match historyPath? q with
    | some path => w.fileWithoutIndex path e
    | none =>
      if e.isExpected || e.isNoRepository then (w, .answered (default q)) else (w, .failed e)
  | .ready x =>
    match q with
    | .together path threshold =>
      let key := keyOf w.repo path
      let (w, commits) := w.commitsFor (keyOf w.repo key) x
      (w, .answered (.related (relatedOf x key commits threshold)))
    | .recent days =>
      match cutoff w.now days with
      | .ok since => (w, .answered (.recent (recentOf x since)))
      | .error fault => (w, .failed (.span fault))
    | q =>
      match historyPath? q with
      | some path => w.fileFromIndex q path x
      | none => (w, .answered (default q))

/-- Goes on with a question, once it is known whether there is a repository. -/
def afterCheck (w : World) (q : Query) : Awaited Unit → World × Progress
  | .wait t => (w, .waits (.onCheck t))
  | .failed e =>
    match q with
    | .check => (w, .failed e)
    | .tracked => if e.isExpected || e.isNoRepository then (w, .answered (default q))
      else (w, .failed e)
    | q => if e.isNoRepository then (w, .answered (default q)) else (w, .failed e)
  | .ready () =>
    match q with
    | .check => (w, .answered .nothing)
    | .tracked => (w, .waits (.command .listFiles))
    | q =>
      match historyPath? q with
      | none => (w, .answered (default q))
      | some path =>
        let key := keyOf w.repo path
        if key = "" then (w, .answered (default q))
        else match w.told.lookup key with
          | some commits => (w, .answered (answerOf q commits))
          | none =>
            let (w, x) := w.enterIndex
            w.afterIndex q x

/-- Begins a question. -/
def beginQuery (w : World) (q : Query) : World × Progress :=
  match q with
  | .together path _ =>
    if keyOf w.repo path = "" then (w, .answered (default q))
    else
      let (w, x) := w.enterIndex
      w.afterIndex q x
  | .recent _ =>
    let (w, x) := w.enterIndex
    w.afterIndex q x
  | q =>
    let (w, c) := w.enterCheck
    w.afterCheck q c

/-- Goes on with a question whose command has run. -/
def afterCommand (w : World) (q : Query) (c : Command) (outcome : Outcome) : World × Progress :=
  match c, outcome with
  | .fileLog key, .ok log =>
    let commits := (parseLog "" log).commits
    (w.tell key commits, .answered (answerOf q commits))
  | .fileLog key, .error fault =>
    if fault.isExpected then
      (w.note .debug s!"Per-file log failed for {key}: {fault.message c}",
        .answered (answerOf q []))
    else (w, .failed (.command c fault))
  | _, .ok output => (w, .answered (.tracked (trackedOf output)))
  | _, .error fault =>
    if fault.isExpected then (w, .answered (default q)) else (w, .failed (.command c fault))

/-! ### The history's own threads -/

/-- Ends the check with the outcome of its command. -/
def endCheck (w : World) (outcome : Outcome) : World × Except Fault Answer :=
  match outcome with
  | .ok output =>
    let below := String.ofList (replaceChar '\\' '/' (trim output.toList))
    ({ w with below := some below }, .ok .nothing)
  | .error fault =>
    if fault.isExpected then
      let e := Fault.notARepository w.repo
      (({ w with refused := true } : World).note .warning
        (e.message ++ "; history-derived fields will use defaults"), .error e)
    else (w, .error (.command .showPrefix fault))

/-- Tells the commits of files that have not been told before. -/
def tellAll (w : World) (files : List (String × List Commit)) : World :=
  files.foldl (fun w (key, commits) ↦
    { w with told := Assoc.modify key (fun old ↦ old.getD commits) w.told }) w

/-- Ends the reading of the whole log with the outcome of its command. -/
def endBuild (w : World) (outcome : Outcome) : World × Except Fault Answer :=
  match outcome with
  | .ok log =>
    let x := parseLog (w.below.getD "") log
    ((w.tellAll x.fileCommits).note .debug
      s!"Indexed {x.commits.length} commits touching {x.fileCommits.length} files", .ok (.index x))
  | .error fault => (w, .error (.command .fullLog fault))

/-- Begins to read the whole log, once it is known whether there is a repository. -/
def buildAfterCheck (w : World) : Awaited Unit → World × Point
  | .wait t => (w, .onCheck t)
  | .failed e => (w, .done (.error e))
  | .ready () => (w, .command .fullLog)

/-! ### Going on -/

/-- Lets a client go on: with an answer it begins the next question, until one must wait. -/
def clientFrom (w : World) : (todo : List Query) → (got : List Answer) → World × Thread
  | [], got => (w, ⟨.client [] got, .done (.ok (.all got.reverse))⟩)
  | q :: todo, got =>
    match w.beginQuery q with
    | (w, .answered a) => w.clientFrom todo (a :: got)
    | (w, .failed e) => (w, ⟨.client (q :: todo) got, .done (.error e)⟩)
    | (w, .waits p) => (w, ⟨.client (q :: todo) got, p⟩)

/-- Lets a client go on whose first question has made progress. -/
def clientAfter (q : Query) (todo : List Query) (got : List Answer) :
    World × Progress → World × Thread
  | (w, .answered a) => w.clientFrom todo (a :: got)
  | (w, .failed e) => (w, ⟨.client (q :: todo) got, .done (.error e)⟩)
  | (w, .waits p) => (w, ⟨.client (q :: todo) got, p⟩)

/-- Runs a command. -/
def call (w : World) (c : Command) : World := { w with calls := c :: w.calls }

/-- The command that a thread runs when it goes on. -/
def nextCommand? (w : World) (i : Nat) : Option Command :=
  match w.threads[i]? with
  | some { point := .command c, .. } => some c
  | _ => none

/-- Where a thread gets to, given the outcome of the command that it runs. -/
def advance (w : World) (t : Thread) (outcome : Outcome) : World × Thread :=
  match t.point, t.job with
  | .done _, _ => (w, t)
  | .start, .client todo got => w.clientFrom todo got
  | .start, .repoCheck => (w, { t with point := .command .showPrefix })
  | .start, .indexBuild =>
    let (w, c) := w.enterCheck
    let (w, p) := w.buildAfterCheck c
    (w, { t with point := p })
  | .onCheck s, job =>
    match w.result? s, job with
    | some result, .client (q :: todo) got =>
      let (w, c) := w.leaveCheck s result
      clientAfter q todo got (w.afterCheck q c)
    | some result, _ =>
      let (w, c) := w.leaveCheck s result
      let (w, p) := w.buildAfterCheck c
      (w, { t with point := p })
    | none, _ => (w, t)
  | .onIndex s, .client (q :: todo) got =>
    match w.result? s with
    | some result =>
      let (w, x) := w.leaveIndex s result
      clientAfter q todo got (w.afterIndex q x)
    | none => (w, t)
  | .onIndex _, _ => (w, t)
  | .command c, .client (q :: todo) got =>
    clientAfter q todo got ((w.call c).afterCommand q c outcome)
  | .command c, .repoCheck =>
    let (w, r) := (w.call c).endCheck outcome
    (w, { t with point := .done r })
  | .command c, _ =>
    let (w, r) := (w.call c).endBuild outcome
    (w, { t with point := .done r })

/-- Lets a thread go on; `outcome` is that of the command that it runs, if it runs one. -/
def resume (w : World) (i : Nat) (outcome : Outcome) : World :=
  match w.threads[i]? with
  | none => w
  | some t =>
    let (w, t) := { w with begun := [] }.advance t outcome
    w.setThread i t

end World

end RepoSurvey.History
