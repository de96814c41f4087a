import RepoSurvey.History.World

/-!
# Taking turns

The schedule under which a history is used: threads that can go on wait in a queue, first come first
served. A thread goes to the end of the queue when it is begun, when it is about to run a command,
and when the thread that it waits for has ended.

Several clients can be asked together. Those who asked go on when all have answered, or as soon as
one has failed; word of either reaches them by two more turns of the queue, in which other threads
may go on.
-/

namespace RepoSurvey.History

/-- What each command yields, given the commands that were run before it, latest first. -/
abbrev Script := (past : List Command) → Command → Outcome

/-- A history and the queue of its threads. -/
structure Turns where
  world : World
  /-- The threads that can go on, in order. -/
  ready : List Nat := []
  /-- Who waits for whom: pairs of the awaited and the waiting thread, in order. -/
  waiting : List (Nat × Nat) := []

namespace Turns

/-- The outcome of the command that a thread is about to run. -/
def outcomeFor (script : Script) (w : World) (i : Nat) : Outcome :=
  match w.nextCommand? i with
  | some c => script w.calls c
  | none => .ok ""

/-- Lets a thread go on, and puts in the queue whoever can go on after that. -/
def turn (script : Script) (t : Turns) (i : Nat) : Turns :=
  let w := t.world.resume i (outcomeFor script t.world i)
  let ready := t.ready ++ w.begun.reverse
  match (w.threads[i]?).map Thread.point with
  | some (.command _) => { t with world := w, ready := ready ++ [i] }
  | some (.onCheck s) | some (.onIndex s) =>
    { world := w, ready, waiting := t.waiting ++ [(s, i)] }
  | some (.done _) =>
    let (woken, waiting) := t.waiting.partition fun p ↦ p.1 == i
    { world := w, ready := ready ++ woken.map Prod.snd, waiting }
  | _ => { t with world := w, ready }

/-- Lets the first thread in the queue go on. -/
def next (script : Script) (t : Turns) : Turns :=
  match t.ready with
  | [] => t
  | i :: ready => ({ t with ready } : Turns).turn script i

/-- Lets `n` threads go on, one after the other. -/
def nextN (script : Script) : (n : Nat) → Turns → Turns
  | 0, t => t
  | n + 1, t => nextN script n (t.next script)

/-- Lets everyone go on who is in the queue by now. -/
def round (script : Script) (t : Turns) : Turns := t.nextN script t.ready.length

/-- Whether a thread has ended. -/
def isDone (t : Turns) (i : Nat) : Bool := (t.world.result? i).isSome

/-- The fault of a thread, if it has failed. -/
def fault? (t : Turns) (i : Nat) : Option Fault :=
  match t.world.result? i with
  | some (.error e) => some e
  | _ => none

/-- Lets threads go on until all of some clients have ended or one has failed; tells the fault. -/
def drive (script : Script) (clients : List Nat) : (fuel : Nat) → Turns → Turns × Option Fault
  | 0, t => (t, none)
  | fuel + 1, t =>
    match t.ready with
    | [] => (t, none)
    | i :: _ =>
      if clients.all t.isDone then (t, none)
      else
        let t := t.next script
        match (if clients.contains i then t.fault? i else none) with
        | some e => (t, some e)
        | none => drive script clients fuel t

/-- More turns than clients need to answer a number of questions. -/
def fuelFor (t : Turns) (questions : Nat) : Nat := 16 * (questions + t.world.threads.length + 1)

/-- The answers of ended clients. -/
def answers (t : Turns) (clients : List Nat) : List Answer :=
  clients.map fun i ↦
    match t.world.result? i with
    | some (.ok a) => a
    | _ => .nothing

/-- Asks one question and waits for the answer. -/
def ask (script : Script) (t : Turns) (q : Query) : Turns × Except Fault Answer :=
  let (w, i) := t.world.spawn (.client [q] [])
  let t := ({ t with world := w } : Turns).turn script i
  let (t, fault) := t.drive script [i] (t.fuelFor 1)
  match fault.or (t.fault? i), t.answers [i] with
  | some e, _ => (t, .error e)
  | none, [.all [a]] => (t, .ok a)
  | none, _ => (t, .ok .nothing)

/-- Begins clients, each with the questions that it asks one after the other. -/
def beginClients (t : Turns) : List (List Query) → Turns × List Nat
  | [] => (t, [])
  | qs :: rest =>
    let (w, i) := t.world.spawn (.client qs [])
    let (t, is) := ({ t with world := w, ready := t.ready ++ [i] } : Turns).beginClients rest
    (t, i :: is)

/-- Lets several clients ask together and waits for all answers, or for the first fault. -/
def askTogether (script : Script) (t : Turns) (clients : List (List Query)) :
    Turns × Except Fault (List (List Answer)) :=
  let (t, is) := t.beginClients clients
  let (t, fault) := t.drive script is (t.fuelFor ((clients.map List.length).foldl (· + ·) 0))
  let t := (t.round script).round script
  match fault with
  | some e => (t, .error e)
  | none =>
    (t, .ok ((t.answers is).map fun
      | .all as => as
      | a => [a]))

end Turns

/-- A history that nobody has used yet. -/
def fresh (repo : String) (now : Int) : Turns :=
  { world := { repo := Path.absolute repo, now } }

end RepoSurvey.History
