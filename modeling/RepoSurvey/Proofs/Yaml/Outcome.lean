import RepoSurvey.Yaml.Fault

/-!
# Outcomes of reading YAML

A malformed text is an answer like any other; a scalar fault is not. `Yields B P` says of a reading
step that its result is of a kind `P` and that each scalar fault of it has a cause `B`, and the
lemmas carry both from one step to the next.
-/

namespace RepoSurvey.Yaml

/-! ### Rows of steps -/

section

variable {α β ε : Type}

/-- Where two steps have a result, the first has one and the second makes something of it. -/
theorem exists_of_bind_eq_ok {r : Except ε α} {f : α → Except ε β} {b : β}
    (h : r >>= f = .ok b) : ∃ a, r = .ok a ∧ f a = .ok b := by
  rcases r with e | a
  · cases h
  · exact ⟨a, rfl, h⟩

/-- Each result of a row of steps is that of one of them. -/
theorem exists_of_mem_mapM {f : α → Except ε β} {items : List α} {results : List β}
    (h : items.mapM f = .ok results) : ∀ b ∈ results, ∃ a ∈ items, f a = .ok b := by
  induction items generalizing results with
  | nil =>
    cases h
    exact fun b hb ↦ absurd hb List.not_mem_nil
  | cons a items ih =>
    rw [List.mapM_cons] at h
    obtain ⟨b, ha, h⟩ := exists_of_bind_eq_ok h
    obtain ⟨bs, hitems, h⟩ := exists_of_bind_eq_ok h
    cases h
    refine List.forall_mem_cons.2 ⟨⟨a, List.mem_cons_self, ha⟩, fun c hc ↦ ?_⟩
    obtain ⟨a', ha', hc⟩ := ih hitems c hc
    exact ⟨a', List.mem_cons_of_mem _ ha', hc⟩

end

/-! ### Outcomes -/

variable {α β : Type} {B B' : ScalarFault → Prop} {P P' : α → Prop} {Q : β → Prop}
  {r r' : Except Fault α}

/-- A reading step has an outcome of a kind, or finds a text malformed, or meets a scalar fault of a
kind. -/
def Yields (B : ScalarFault → Prop) (P : α → Prop) : Except Fault α → Prop
  | .ok a => P a
  | .error (.malformed _) => True
  | .error (.scalar fault) => B fault

theorem yields_malformed (problem : Problem) : Yields B P (.error (.malformed problem)) := trivial

/-- Where one step yields a kind, and the next yields another on everything of that kind, both in a
row yield the other. -/
theorem Yields.bind {f : α → Except Fault β} (h : Yields B P r)
    (hf : ∀ a, P a → Yields B Q (f a)) : Yields B Q (r >>= f) := by
  rcases r with (problem | fault) | a
  · trivial
  · exact h
  · exact hf a h

/-- A result may be made into another. -/
theorem Yields.map {f : α → β} (h : Yields B P r) (hf : ∀ a, P a → Q (f a)) :
    Yields B Q (r.map f) := by
  rcases r with (problem | fault) | a
  · trivial
  · exact h
  · exact hf a h

/-- A result of a kind is one of a wider kind. -/
theorem Yields.mono (h : Yields B P r) (hP : ∀ a, P a → P' a) : Yields B P' r := by
  rcases r with (problem | fault) | a
  · trivial
  · exact h
  · exact hP a h

/-- A fault of a kind is one of a wider kind. -/
theorem Yields.imp (h : Yields B P r) (hB : ∀ fault, B fault → B' fault) : Yields B' P r := by
  rcases r with (problem | fault) | a
  · trivial
  · exact hB fault h
  · exact h

/-- A choice yields a kind if both sides do. -/
theorem Yields.ite {b : Prop} [Decidable b] (h : b → Yields B P r) (h' : ¬b → Yields B P r') :
    Yields B P (if b then r else r') := by
  split
  · exact h ‹_›
  · exact h' ‹_›

/-- A step goes on only if nothing is wrong. -/
theorem Yields.guard {b : Prop} [Decidable b] {problem : Problem} {f : Unit → Except Fault α}
    (h : ¬b → Yields B P (f ())) :
    Yields B P (if b then .error (.malformed problem) >>= f else f ()) := by
  split
  · trivial
  · exact h ‹_›

/-- What every step keeps, all steps in a row keep. -/
theorem Yields.foldlM {items : List β} {f : α → β → Except Fault α} {a : α} (ha : P a)
    (hf : ∀ a, P a → ∀ x ∈ items, Yields B P (f a x)) : Yields B P (items.foldlM f a) := by
  induction items generalizing a with
  | nil => exact ha
  | cons x items ih =>
    obtain ⟨hx, hitems⟩ := List.forall_mem_cons.1 (hf a ha)
    refine Yields.bind hx fun a' ha' ↦ ih ha' fun a ha x hx ↦ ?_
    exact hf a ha x (List.mem_cons_of_mem _ hx)

/-- A fault is handed on. -/
theorem Yields.error {fault : Fault} (h : Yields B P r) (hr : r = .error fault) :
    Yields B Q (.error fault) := by
  subst hr
  cases fault with
  | malformed => trivial
  | scalar => exact h

end RepoSurvey.Yaml
