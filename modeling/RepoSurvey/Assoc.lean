/-!
# Lists of pairs as maps

A map whose order shows is a list of pairs, each key once. `Assoc.set` keeps the place of a key that
is there and puts a new one at the end, so the keys stand in the order in which they were first set.
-/

namespace RepoSurvey.Assoc

variable {α β : Type} [BEq α]

/-- Sets the value of a key to a function of the value that is there. -/
def modify (key : α) (f : Option β → β) : List (α × β) → List (α × β)
  | [] => [(key, f none)]
  | (k, v) :: rest => if k == key then (k, f (some v)) :: rest else (k, v) :: modify key f rest

/-- Sets the value of a key. -/
def set (key : α) (value : β) (pairs : List (α × β)) : List (α × β) :=
  modify key (fun _ ↦ value) pairs

/-- The values without repetitions, each where it first occurs. -/
def distinct : List α → List α
  | [] => []
  | a :: as => a :: (distinct as).filter fun b ↦ !(b == a)

end RepoSurvey.Assoc
