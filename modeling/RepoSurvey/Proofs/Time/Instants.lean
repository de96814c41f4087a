import Mathlib.Order.Monotone.Basic
import RepoSurvey.Time.Moment

/-!
# The instants of moments

The years and the months of the calendar follow on one another (`daysBeforeYear_succ`,
`daysBeforeMonth_succ`), so a date has a number from 1 to 3652059 (`ordinal_bounds`), and the
instant of a moment that was read lies within a day of these (`Moment.instant_bounds`).
-/

namespace RepoSurvey.Time

/-- The number of days of a year. -/
def yearLength (year : Nat) : Nat := if isLeap year then 366 else 365

/-- A year begins when the one before it is over. -/
theorem daysBeforeYear_succ {year : Nat} (h : 1 ≤ year) :
    daysBeforeYear (year + 1) = daysBeforeYear year + yearLength year := by
  obtain ⟨y, rfl⟩ := Nat.exists_eq_add_of_le' h
  have hleap : isLeap (y + 1) = true ↔ 4 ∣ y + 1 ∧ (¬ 100 ∣ y + 1 ∨ 400 ∣ y + 1) := by
    simp [isLeap, Nat.dvd_iff_mod_eq_zero]
  have hfourth : 100 ∣ y + 1 → 4 ∣ y + 1 := Nat.dvd_trans (by decide)
  have hcentury : 400 ∣ y + 1 → 100 ∣ y + 1 := Nat.dvd_trans (by decide)
  have hle : y / 100 ≤ y / 4 := Nat.div_le_div_left (by decide) (by decide)
  unfold daysBeforeYear yearLength
  rw [Nat.add_sub_cancel, Nat.add_sub_cancel]
  dsimp only
  rw [Nat.succ_div (b := 4), Nat.succ_div (b := 100), Nat.succ_div (b := 400)]
  generalize y / 4 = a at hle ⊢
  generalize y / 100 = b at hle ⊢
  generalize y / 400 = c
  by_cases h4 : 4 ∣ y + 1 <;> by_cases h100 : 100 ∣ y + 1 <;> by_cases h400 : 400 ∣ y + 1 <;>
    simp only [hleap, h4, h100, h400, true_and, false_and, not_true, not_false_iff, true_or,
      false_or, if_true, if_false] at hfourth hcentury ⊢ <;>
    omega

/-- Later years have more days before them. -/
theorem daysBeforeYear_mono : Monotone daysBeforeYear := by
  refine monotone_nat_of_le_succ fun year ↦ ?_
  rcases Nat.eq_zero_or_pos year with rfl | hpos
  · exact Nat.le_refl _
  · rw [daysBeforeYear_succ hpos]
    exact Nat.le_add_right _ _

/-- A month begins when the one before it is over. -/
theorem daysBeforeMonth_succ (year : Nat) {month : Nat} (h : 1 ≤ month) :
    daysBeforeMonth year (month + 1) = daysBeforeMonth year month + monthLength year month := by
  obtain ⟨m, rfl⟩ := Nat.exists_eq_add_of_le' h
  simp [daysBeforeMonth, List.range_succ]

/-- Later months have more days before them. -/
theorem daysBeforeMonth_mono (year : Nat) : Monotone (daysBeforeMonth year) := by
  refine monotone_nat_of_le_succ fun month ↦ ?_
  rcases Nat.eq_zero_or_pos month with rfl | hpos
  · exact Nat.le_refl _
  · rw [daysBeforeMonth_succ year hpos]
    exact Nat.le_add_right _ _

/-- Twelve months make up the year. -/
theorem daysBeforeMonth_add_monthLength_le (year : Nat) {month : Nat} (h : 1 ≤ month)
    (h' : month ≤ 12) :
    daysBeforeMonth year month + monthLength year month ≤ yearLength year := by
  have hyear : daysBeforeMonth year 13 = yearLength year := by
    rcases hleap : isLeap year <;>
      simp [daysBeforeMonth, monthLength, yearLength, hleap, List.range_succ]
  rw [← daysBeforeMonth_succ year h, ← hyear]
  exact daysBeforeMonth_mono year (Nat.succ_le_succ h')

/-- The number of a date is that of a day of the calendar. -/
theorem ordinal_bounds {d : Date} (h : d.isValid = true) : 1 ≤ d.ordinal ∧ d.ordinal ≤ 3652059 := by
  simp only [Date.isValid, Bool.and_eq_true, decide_eq_true_eq] at h
  obtain ⟨⟨⟨⟨⟨hyear, hyear'⟩, hmonth⟩, hmonth'⟩, hday⟩, hday'⟩ := h
  have hmonths := daysBeforeMonth_add_monthLength_le d.year hmonth hmonth'
  have hyears : daysBeforeYear d.year + yearLength d.year ≤ 3652059 := by
    rw [← daysBeforeYear_succ hyear]
    exact daysBeforeYear_mono (show d.year + 1 ≤ 10000 by omega)
  unfold Date.ordinal
  omega

namespace Moment

/-- A moment that is read is one of the calendar and the clock. -/
theorem isValid_of_moment? {cs : List Char} {m : Moment} (h : moment? cs = some m) :
    m.isValid = true := by
  unfold moment? at h
  split at h
  · cases h
  · obtain ⟨date, -, hdate⟩ := Option.bind_eq_some_iff.1 h
    dsimp only at hdate
    split at hdate
    all_goals
      obtain ⟨⟨clock, offset⟩, -, hread⟩ := Option.bind_eq_some_iff.1 hdate
      dsimp only at hread
      split_ifs at hread with hvalid
      rwa [← Option.some.inj hread]

/-- The instant of a moment that was read lies in the calendar, up to the offset. -/
theorem instant_bounds {s : String} {m : Moment} (h : parse? s = some m) :
    0 < m.instant ∧ m.instant < 3652061 * microsPerDay := by
  have hvalid := isValid_of_moment? h
  simp only [isValid, Bool.and_eq_true, decide_eq_true_eq] at hvalid
  obtain ⟨⟨⟨⟨⟨hdate, hhour⟩, hminute⟩, hsecond⟩, hmicro⟩, hoffset⟩ := hvalid
  have hordinal := ordinal_bounds hdate
  have htime : m.timeOfDay < microsPerDay := by
    unfold timeOfDay
    simp only [microsPerDay, microsPerSecond] at hmicro ⊢
    omega
  unfold instant
  simp only [microsPerDay, microsPerSecond] at htime hoffset ⊢
  omega

end Moment

end RepoSurvey.Time
