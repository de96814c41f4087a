/-!
# Batches

Work on many items goes in batches: the workers of one batch run beside each other, and a batch is
begun when all workers of the batch before have ended. The first fault of a worker ends the whole
work, and no later batch is begun.

`inBatches` leaves it to its argument how the workers of one batch run. `together` is such an
argument: it lets the workers of a batch take turns in any given order, and then lets all that have
not ended go on in the order of the items.
-/

namespace RepoSurvey.Batches

variable {α β ε σ : Type}

/-! ### Batches of items -/

/-- The batches of a list, each with the number of items in front of it; a batch has one item and as
many more as `others` says, and only the last can have fewer. -/
def chunks (others : Nat) (start : Nat) : List α → List (Nat × List α)
  | [] => []
  | a :: rest =>
    (start, a :: rest.take others) :: chunks others (start + others + 1) (rest.drop others)
termination_by items => items.length
decreasing_by
  simp only [List.length_drop, List.length_cons]
  omega

/-- The batches under a limit on the workers beside each other; there is always at least one. -/
def batches (limit : Int) (items : List α) : List (Nat × List α) :=
  chunks (limit - 1).toNat 0 items

/-- Works on batches one after the other. -/
def runBatches (work : σ → (start : Nat) → List α → σ × Except ε (List β)) :
    σ → List (Nat × List α) → σ × Except ε (List β)
  | s, [] => (s, .ok [])
  | s, (start, batch) :: rest =>
    match work s start batch with
    | (s, .error e) => (s, .error e)
    | (s, .ok results) =>
      match runBatches work s rest with
      | (s, .error e) => (s, .error e)
      | (s, .ok others) => (s, .ok (results ++ others))

/-- Works on items with at most `limit` workers beside each other; the results are in the order of
the items. -/
def inBatches (work : σ → (start : Nat) → List α → σ × Except ε (List β)) (limit : Int) (s : σ)
    (items : List α) : σ × Except ε (List β) :=
  runBatches work s (batches limit items)

/-! ### The workers of one batch -/

/-- What can be seen of workers. -/
inductive Event (α : Type) where
  | start (item : α)
  | finish (item : α)
deriving DecidableEq, Repr

/-- Where the worker of an item stands. -/
inductive Stage (β ε : Type) where
  | idle
  | running
  | ended (result : Except ε β)

/-- The workers of a batch on their way. -/
structure Progress (α β ε : Type) where
  workers : List (α × Stage β ε)
  /-- What has been seen, latest first. -/
  events : List (Event α) := []
  /-- The first fault. -/
  fault : Option ε := none

namespace Progress

/-- Gives a turn to the worker of the item with number `i`: it starts, or it ends with its
result. -/
def turn (worker : α → Except ε β) (p : Progress α β ε) (i : Nat) : Progress α β ε :=
  match p.workers[i]? with
  | some (a, .idle) =>
    { p with workers := p.workers.set i (a, .running), events := .start a :: p.events }
  | some (a, .running) =>
    let result := worker a
    { workers := p.workers.set i (a, .ended result),
      events := .finish a :: p.events,
      fault := match p.fault, result with
        | none, .error e => some e
        | fault, _ => fault }
  | _ => p

/-- Gives turns to workers, one after the other. -/
def turns (worker : α → Except ε β) (p : Progress α β ε) (order : List Nat) : Progress α β ε :=
  order.foldl (turn worker) p

/-- Gives every worker two turns, the first of all before the second of any. -/
def complete (worker : α → Except ε β) (p : Progress α β ε) : Progress α β ε :=
  let everyone := List.range p.workers.length
  (p.turns worker everyone).turns worker everyone

/-- The results of workers that have ended well. -/
def results (p : Progress α β ε) : List β :=
  p.workers.filterMap fun
    | (_, .ended (.ok b)) => some b
    | _ => none

/-- The fault, or all results. -/
def outcome (p : Progress α β ε) : Except ε (List β) :=
  match p.fault with
  | some e => .error e
  | none => .ok p.results

end Progress

/-- Lets the workers of a batch run beside each other: those in `order`, which may depend on where
the batch starts, take their turns first. The state is all that has been seen, latest first. -/
def together (order : Nat → List Nat) (worker : α → Except ε β) (seen : List (Event α))
    (start : Nat) (batch : List α) : List (Event α) × Except ε (List β) :=
  let begun : Progress α β ε := { workers := batch.map fun a ↦ (a, .idle), events := seen }
  let p := (begun.turns worker (order start)).complete worker
  (p.events, p.outcome)

end RepoSurvey.Batches
