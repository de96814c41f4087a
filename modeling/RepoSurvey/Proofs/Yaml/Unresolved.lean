import RepoSurvey.Yaml.Scalars

/-!
# Scalars without a value of their type

A plain scalar is of the type it looks like, and nearly always it has a value of that type. What is
left is listed by `Unresolved`: numbers without digits or with too many, numbers in base sixty with
too many places, and moments that the calendar or the clock does not have. A text that ends a line
is left aside, since that line end does not count for what the text looks like.

`Faults` says that all faults of a step are of a kind; for moments these are the parts that a
written moment lacks (`faults_momentOf`).
-/

namespace RepoSurvey.Yaml

open RepoSurvey.Decimal RepoSurvey.Time

/-- A written moment is none of the calendar and the clock. -/
inductive WrittenMoment.Lacks (m : WrittenMoment) : MomentFault → Prop
  | year : m.year < 1 ∨ 9999 < m.year → m.Lacks (.year m.year)
  | month : m.month < 1 ∨ 12 < m.month → m.Lacks .month
  | day : m.day < 1 ∨ monthLength m.year m.month < m.day → m.Lacks .day
  | hour {hour minute second : Nat} {fraction : List Char} :
      m.time = some (hour, minute, second, fraction) → 23 < hour → m.Lacks .hour
  | minute {hour minute second : Nat} {fraction : List Char} :
      m.time = some (hour, minute, second, fraction) → 59 < minute → m.Lacks .minute
  | second {hour minute second : Nat} {fraction : List Char} :
      m.time = some (hour, minute, second, fraction) → 59 < second → m.Lacks .second
  | offset {seconds : Int} :
      m.offset = some seconds → 86400 ≤ seconds.natAbs → m.Lacks (.offset seconds)

/-- A text looks like a value of a type, and is none. -/
inductive Unresolved (text : String) : ScalarFault → Prop
  /-- Underscores alone stand behind the mark of a base. -/
  | noDigits {base : Nat} {mark : Char} {gap : List Char} :
      unsigned text.toList = '0' :: mark :: gap →
      (base = 2 ∧ mark = 'b') ∨ (base = 16 ∧ mark = 'x') → (∀ c ∈ gap, c = '_') →
      Unresolved text (.whole base "")
  | longWhole {digits : Nat} :
      isInt text.toList → longestInt < digits → digits ≤ text.length →
      Unresolved text (.longWhole digits)
  | manyPlaces : isFloat text.toList → ':' ∈ text.toList → Unresolved text .manyPlaces
  | moment {m : WrittenMoment} {fault : MomentFault} :
      writtenMoment? text.toList = some m → m.Lacks fault → Unresolved text (.moment fault)
  | lineEnd {fault : ScalarFault} : text.toList.getLast? = some '\n' → Unresolved text fault

/-! ### Faults of steps -/

/-- All faults of a step are of a kind. -/
def Faults {α ε : Type} (B : ε → Prop) (r : Except ε α) : Prop :=
  ∀ fault, r = .error fault → B fault

section

variable {α β ε : Type} {B : ε → Prop} {r r' : Except ε α}

theorem faults_ok (a : α) : Faults B (.ok a : Except ε α) := fun _ h ↦ nomatch h

theorem faults_error {fault : ε} (h : B fault) : Faults B (.error fault : Except ε α) :=
  fun _ hfault ↦ Except.error.inj hfault ▸ h

/-- Two steps have faults of a kind if each of them has. -/
theorem Faults.bind {f : α → Except ε β} (h : Faults B r) (hf : ∀ a, Faults B (f a)) :
    Faults B (r >>= f) := by
  rcases r with e | a
  · exact faults_error (h e rfl)
  · exact hf a

/-- So has a choice, if both sides have. -/
theorem Faults.ite {b : Prop} [Decidable b] (h : b → Faults B r) (h' : ¬b → Faults B r') :
    Faults B (if b then r else r') := by
  split
  · exact h ‹_›
  · exact h' ‹_›

/-- What is made of a result adds no faults. -/
theorem Faults.map {f : α → β} (h : Faults B r) : Faults B (r.map f) := by
  rcases r with e | a
  · exact faults_error (h e rfl)
  · exact faults_ok _

/-- A row of steps has the faults of its steps. -/
theorem Faults.mapM {items : List β} {f : β → Except ε α} (h : ∀ x ∈ items, Faults B (f x)) :
    Faults B (items.mapM f) := by
  induction items with
  | nil => exact faults_ok []
  | cons x items ih =>
    obtain ⟨hx, hitems⟩ := List.forall_mem_cons.1 h
    rw [List.mapM_cons]
    exact hx.bind fun a ↦ (ih hitems).bind fun as ↦ faults_ok _

end

/-- Where a step is one of a scalar, its faults are those of the scalar. -/
theorem Faults.of_mapError {α : Type} {B : ScalarFault → Prop} {r : Except ScalarFault α}
    {fault : ScalarFault} (h : Faults B r) (hr : r.mapError Fault.scalar = .error (.scalar fault)) :
    B fault := by
  rcases r with e | a
  · cases hr
    exact h _ rfl
  · cases hr

/-! ### Moments -/

/-- A date is refused because the calendar does not have it. -/
theorem faults_dateOf (m : WrittenMoment) :
    Faults (fun fault ↦ ∃ f, fault = .moment f ∧ m.Lacks f) (dateOf m.year m.month m.day) := by
  refine .ite (fun h ↦ faults_error ⟨_, rfl, .year h⟩) fun _ ↦ ?_
  refine .ite (fun h ↦ faults_error ⟨_, rfl, .month h⟩) fun _ ↦ ?_
  exact .ite (fun h ↦ faults_error ⟨_, rfl, .day h⟩) fun _ ↦ faults_ok _

/-- An offset is refused because it is a day or more. -/
theorem faults_offsetOf (m : WrittenMoment) :
    Faults (fun fault ↦ ∃ f, fault = .moment f ∧ m.Lacks f) (offsetOf (m.offset.getD 0)) := by
  refine .ite (fun _ ↦ faults_ok _) fun h ↦ faults_error ?_
  rcases hoffset : m.offset with - | seconds
  · exact absurd (by simp [hoffset]) h
  · rw [hoffset, Option.getD_some, Nat.not_lt] at h
    exact ⟨_, rfl, .offset hoffset h⟩

/-- A moment is refused because the calendar or the clock does not have it. -/
theorem faults_momentOf {text : String} {m : WrittenMoment}
    (hm : writtenMoment? (withoutLineEnd text.toList) = some m) :
    Faults (fun fault ↦ ∃ f, fault = .moment f ∧ m.Lacks f) (momentOf text) := by
  unfold momentOf
  simp only [hm]
  split
  · exact (faults_dateOf m).bind fun _ ↦ faults_ok _
  · rename_i hour minute second fraction htime
    refine (faults_offsetOf m).bind fun offset ↦ (faults_dateOf m).bind fun date ↦ ?_
    refine .ite (fun h ↦ faults_error ⟨_, rfl, .hour htime h⟩) fun _ ↦ ?_
    refine .ite (fun h ↦ faults_error ⟨_, rfl, .minute htime h⟩) fun _ ↦ ?_
    exact .ite (fun h ↦ faults_error ⟨_, rfl, .second htime h⟩) fun _ ↦ faults_ok _

end RepoSurvey.Yaml
