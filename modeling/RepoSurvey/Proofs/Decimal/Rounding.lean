import Mathlib
import RepoSurvey.Decimal.Basic

/-!
# Rounding to the nearest double

A mantissa with two more bits stands for an interval, or for a point of it (`Represents`). Shifting
it to the right halves what it stands for (`Represents.shiftRight`), and the mantissa it is rounded
to lies within a half of that (`Represents.abs_roundedMantissa_sub_le`).

So a number of enough bits, neither too small nor too large, is rounded to a double that is at most
half a step away (`roundWithAccuracy_eq_finite`), and so is the quotient of two numbers
(`div_eq_finite`). The step is that of the result, which has 53 bits, so that the error is small as
measured by the result itself.
-/

namespace RepoSurvey.Decimal

open Float.Model Float.Model.UnpackedFloat

/-! ### Nearest whole numbers -/

/-- An error in steps of a grid is an error, measured by the step. -/
theorem abs_mul_two_zpow_sub (a q : ℚ) (t : ℤ) : |a * 2 ^ t - q| = |a - q / 2 ^ t| * 2 ^ t := by
  have hstep : (0 : ℚ) < 2 ^ t := zpow_pos two_pos t
  rw [← abs_of_pos hstep, ← abs_mul, abs_of_pos hstep, sub_mul, div_mul_cancel₀ _ hstep.ne']

/-- A whole number that is nearest to `v`. Of two such numbers it is the even one. -/
structure IsNearestNat (v : ℚ) (r : ℕ) : Prop where
  close : |(r : ℚ) - v| ≤ 1 / 2
  even : |(r : ℚ) - v| = 1 / 2 → Even r

namespace IsNearestNat

variable {v : ℚ} {r n : ℕ}

theorem of_abs_lt (h : |(r : ℚ) - v| < 1 / 2) : IsNearestNat v r :=
  ⟨h.le, fun heq ↦ absurd heq h.ne⟩

/-- Rounding does not go beyond a whole number that lies above. -/
theorem le_of_lt (h : IsNearestNat v r) (hv : v < n) : r ≤ n := by
  have hclose := (abs_le.1 h.close).2
  by_contra hlt
  have hsucc : (n : ℚ) + 1 ≤ r := by exact_mod_cast Nat.lt_of_not_le hlt
  linarith

/-- Rounding does not go below a whole number that lies below. -/
theorem ge_of_le (h : IsNearestNat v r) (hv : n ≤ v) : n ≤ r := by
  have hclose := (abs_le.1 h.close).1
  by_contra hlt
  have hsucc : (r : ℚ) + 1 ≤ n := by exact_mod_cast Nat.lt_of_not_le hlt
  linarith

/-- No whole number is nearer. If another one is as near, it is an odd neighbour. -/
theorem abs_sub_le_of_int (h : IsNearestNat v r) (k : ℤ) :
    |(r : ℚ) - v| ≤ |(k : ℚ) - v| ∧ (|(k : ℚ) - v| = |(r : ℚ) - v| → k = r ∨ Even r ∧ Odd k) := by
  by_cases hk : k = r
  · rw [hk, Int.cast_natCast]
    exact ⟨le_rfl, fun _ ↦ Or.inl rfl⟩
  have hone : (1 : ℚ) ≤ |(r : ℚ) - k| := by
    exact_mod_cast Int.one_le_abs (sub_ne_zero.2 (Ne.symm hk))
  have htriangle : |(r : ℚ) - k| ≤ |(r : ℚ) - v| + |(k : ℚ) - v| := by
    rw [abs_sub_comm (k : ℚ) v]
    exact abs_sub_le _ _ _
  have hclose := h.close
  refine ⟨by linarith, fun heq ↦ Or.inr ?_⟩
  have heven : Even r := h.even (by linarith)
  have hneighbour : |(r : ℤ) - k| = 1 := by
    refine (Int.one_le_abs (sub_ne_zero.2 (Ne.symm hk))).antisymm' ?_
    have hle : |(r : ℚ) - k| ≤ 1 := by linarith
    exact_mod_cast hle
  refine ⟨heven, ?_⟩
  obtain ⟨j, hj⟩ := heven
  rcases (abs_eq zero_le_one).1 hneighbour with hsub | hsub
  · exact ⟨j - 1, by omega⟩
  · exact ⟨j, by omega⟩

/-- On a grid of step `2 ^ t` the error is at most half a step. -/
theorem abs_mul_sub_le {q : ℚ} {t : ℤ} (h : IsNearestNat (q / 2 ^ t) r) :
    |(r : ℚ) * 2 ^ t - q| ≤ 2 ^ t / 2 := by
  calc |(r : ℚ) * 2 ^ t - q| = |(r : ℚ) - q / 2 ^ t| * 2 ^ t := abs_mul_two_zpow_sub r q t
    _ ≤ 1 / 2 * 2 ^ t := mul_le_mul_of_nonneg_right h.close (zpow_pos two_pos t).le
    _ = 2 ^ t / 2 := by ring

end IsNearestNat

/-! ### Mantissas and what they stand for -/

/-- The least number that a mantissa with its round bit stands for. -/
def lowEnd (em : ExtendedMantissa) : ℚ := em.mantissa + if em.roundBit then 1 / 2 else 0

/-- A mantissa stands for the number at its low end, or for one behind it. -/
def Represents (em : ExtendedMantissa) (v : ℚ) : Prop :=
  if em.stickyBit then lowEnd em < v ∧ v < lowEnd em + 1 / 2 else v = lowEnd em

theorem represents_exact (m : ℕ) :
    Represents (.ofMantissaAndAccuracy m .exact) m := by
  simp [Represents, lowEnd, ExtendedMantissa.ofMantissaAndAccuracy]

/-- The accuracy of a quotient says which numbers it may stand for. -/
theorem represents_fraction (m : ℕ) {num den : ℕ} (h : num < den) :
    Represents (.ofMantissaAndAccuracy m (accuracyOfFraction num den)) (m + num / den) := by
  have hden : (0 : ℚ) < den := by exact_mod_cast Nat.zero_lt_of_lt h
  have hlt : (num : ℚ) / den < 1 := (div_lt_one hden).2 (by exact_mod_cast h)
  unfold accuracyOfFraction
  by_cases hzero : num = 0
  · rw [if_pos hzero, hzero]
    simpa using represents_exact m
  have hpos : (0 : ℚ) < num / den := div_pos (by exact_mod_cast Nat.pos_of_ne_zero hzero) hden
  rw [if_neg hzero]
  rcases hcompare : compare (2 * num) den with _ | _ | _
  · have hhalf : (num : ℚ) / den < 1 / 2 := by
      rw [div_lt_div_iff₀ hden two_pos]
      exact_mod_cast (by have := Nat.compare_eq_lt.1 hcompare; omega : num * 2 < 1 * den)
    simpa [Represents, lowEnd, ExtendedMantissa.ofMantissaAndAccuracy] using ⟨hpos, by linarith⟩
  · have hhalf : (num : ℚ) / den = 1 / 2 := by
      rw [div_eq_div_iff hden.ne' two_ne_zero]
      exact_mod_cast (by have := Nat.compare_eq_eq.1 hcompare; omega : num * 2 = 1 * den)
    simpa [Represents, lowEnd, ExtendedMantissa.ofMantissaAndAccuracy] using hhalf
  · have hhalf : (1 : ℚ) / 2 < num / den := by
      rw [div_lt_div_iff₀ two_pos hden]
      exact_mod_cast (by have := Nat.compare_eq_gt.1 hcompare; omega : 1 * den < num * 2)
    simp only [Represents, lowEnd, ExtendedMantissa.ofMantissaAndAccuracy, if_true]
    constructor <;> linarith

namespace Represents

variable {em : ExtendedMantissa} {v : ℚ}

/-- A mantissa stands for numbers less than a half above its low end. -/
theorem lowEnd_le (h : Represents em v) : lowEnd em ≤ v ∧ v < lowEnd em + 1 / 2 := by
  unfold Represents at h
  split_ifs at h
  · exact ⟨h.1.le, h.2⟩
  · exact ⟨h.ge, by linarith⟩

/-- So it stands for numbers between itself and the next mantissa. -/
theorem mantissa_le (h : Represents em v) : em.mantissa ≤ v ∧ v < em.mantissa + 1 := by
  have hends := h.lowEnd_le
  unfold lowEnd at hends
  split_ifs at hends <;> constructor <;> linarith

/-- The number that a mantissa stands for is halved with it. -/
theorem shiftRightOne (h : Represents em v) : Represents em.shiftRightOne (v / 2) := by
  have hends := h.lowEnd_le
  have hmod : em.mantissa % 2 = 0 ∨ em.mantissa % 2 = 1 := by omega
  have hdivmod : ((em.mantissa % 2 : ℕ) : ℚ) + 2 * ((em.mantissa / 2 : ℕ) : ℚ) = em.mantissa := by
    exact_mod_cast Nat.mod_add_div em.mantissa 2
  -- the bit that falls out of the mantissa becomes the round bit
  have hlow : lowEnd em.shiftRightOne = em.mantissa / 2 := by
    rcases hmod with hmod | hmod <;> rw [hmod] at hdivmod <;>
      simp only [lowEnd, ExtendedMantissa.shiftRightOne, hmod] <;> norm_num at hdivmod ⊢ <;>
      linarith
  have hsticky : em.shiftRightOne.stickyBit = (em.roundBit || em.stickyBit) := rfl
  rw [Represents, hlow, hsticky]
  unfold Represents at h
  unfold lowEnd at h hends
  rcases em with ⟨m, _ | _, _ | _⟩
  · simp at h ⊢
    linarith
  all_goals
    simp at h hends ⊢
    constructor <;> linarith

/-- A shift by several bits divides what a mantissa stands for by the power of two. By induction,
one bit at a time. -/
theorem shiftRight (h : Represents em v) (k : ℕ) : Represents (em >>> k) (v / 2 ^ k) := by
  change Represents (k.repeat ExtendedMantissa.shiftRightOne em) _
  induction k with
  | zero => simpa [Nat.repeat] using h
  | succ k ih =>
    have hone := ih.shiftRightOne
    rwa [div_div, ← pow_succ] at hone

/-- Rounding gives the nearest whole number. -/
theorem isNearestNat_roundedMantissa (h : Represents em v) :
    IsNearestNat v em.roundedMantissa := by
  have hmod : ((em.mantissa % 2 : ℕ) : ℚ) = 0 ∨ ((em.mantissa % 2 : ℕ) : ℚ) = 1 := by
    rcases Nat.mod_two_eq_zero_or_one em.mantissa with hmod | hmod <;> simp [hmod]
  unfold Represents lowEnd at h
  rcases em with ⟨m, _ | _, _ | _⟩ <;>
    simp only [ExtendedMantissa.roundedMantissa, ExtendedMantissa.accuracy,
      Accuracy.roundToNearestEven, Bool.false_eq_true, if_false, if_true] at h ⊢
  · exact .of_abs_lt (by rw [abs_lt]; constructor <;> linarith)
  · exact .of_abs_lt (by rw [abs_lt]; constructor <;> linarith)
  · -- a tie goes to the even neighbour, up or down
    refine ⟨?_, fun _ ↦ Nat.even_iff.2 (by omega)⟩
    rw [Nat.cast_add, abs_le]
    rcases hmod with hmod | hmod <;> dsimp only at hmod <;> constructor <;> linarith
  · exact .of_abs_lt (by rw [Nat.cast_add, Nat.cast_one, abs_lt]; constructor <;> linarith)

end Represents

theorem mantissa_ofMantissaAndAccuracy (m : ℕ) (a : Accuracy) :
    (ExtendedMantissa.ofMantissaAndAccuracy m a).mantissa = m := by
  rcases a with _ | _ | _ | _ <;> rfl

/-! ### Rounding to the doubles around a number -/

/-- The doubles around `q` are multiples of `2 ^ t`. -/
structure IsGrid (q : ℚ) (t : ℤ) : Prop where
  low : -1074 ≤ t
  above : t = -1074 ∨ 2 ^ (52 + t) ≤ q
  below : q < 2 ^ (53 + t)

namespace IsGrid

variable {q : ℚ} {t : ℤ} {r : ℕ}

/-- Below a power of two the step of the grid is 53 bits smaller, or it is that of the smallest
doubles. -/
theorem le_of_lt (h : IsGrid q t) {k : ℤ} (hq : q < 2 ^ k) (hk : -1021 ≤ k) : t ≤ k - 53 := by
  rcases h.above with rfl | hlead
  · omega
  · have hlt := (zpow_lt_zpow_iff_right₀ (one_lt_two (α := ℚ))).1 (hlead.trans_lt hq)
    omega

/-- A number that is rounded on its grid has 53 bits, but for the carry. -/
theorem le_of_isNearestNat (h : IsGrid q t) (hr : IsNearestNat (q / 2 ^ t) r) : r ≤ 2 ^ 53 := by
  refine hr.le_of_lt ?_
  rw [div_lt_iff₀ (zpow_pos two_pos t)]
  refine lt_of_lt_of_eq h.below ?_
  rw [zpow_add₀ two_ne_zero]
  norm_num

/-- A number of 53 bits on its grid has so many when it is rounded. -/
theorem ge_of_isNearestNat (hq : 2 ^ (52 + t) ≤ q) (hr : IsNearestNat (q / 2 ^ t) r) :
    2 ^ 52 ≤ r := by
  refine hr.ge_of_le ?_
  rw [le_div_iff₀ (zpow_pos two_pos t)]
  refine le_of_eq_of_le ?_ hq
  rw [zpow_add₀ two_ne_zero]
  norm_num

end IsGrid

/-- The grid of a number is told by the leading bit of a mantissa for it. -/
theorem Represents.isGrid {em : ExtendedMantissa} {v : ℚ} {e t : ℤ} (hv : Represents em v)
    (ht : t = max (em.mantissa.log2 + e - 52) (-1074)) (he : e ≤ t) : IsGrid (v * 2 ^ e) t := by
  obtain ⟨hge, hlt⟩ := hv.mantissa_le
  have hstep : (0 : ℚ) < 2 ^ e := zpow_pos two_pos e
  refine ⟨by omega, ?_, ?_⟩
  · by_cases hlow : t = -1074
    · exact Or.inl hlow
    have hne : em.mantissa ≠ 0 := by
      intro hzero
      rw [hzero, Nat.log2_zero] at ht
      omega
    have hbits : (2 : ℚ) ^ em.mantissa.log2 ≤ em.mantissa := by
      exact_mod_cast Nat.log2_self_le hne
    have hsum : 52 + t = em.mantissa.log2 + e := by omega
    rw [hsum, zpow_add₀ two_ne_zero, zpow_natCast]
    exact Or.inr (mul_le_mul_of_nonneg_right (hbits.trans hge) hstep.le)
  · have hbits : (em.mantissa : ℚ) + 1 ≤ 2 ^ (em.mantissa.log2 + 1) := by
      exact_mod_cast Nat.lt_log2_self
    calc v * 2 ^ e < 2 ^ (em.mantissa.log2 + 1) * 2 ^ e :=
          mul_lt_mul_of_pos_right (hlt.trans_le hbits) hstep
      _ = 2 ^ (((em.mantissa.log2 + 1 : ℕ) : ℤ) + e) := by
          rw [zpow_add₀ two_ne_zero, zpow_natCast]
      _ ≤ 2 ^ (53 + t) := zpow_le_zpow_right₀ one_le_two (by omega)

/-- The number `r * 2 ^ t` in its written form. If rounding has carried into one bit more, only
zeros are lost. -/
def placed (s : Sign) (r : ℕ) (t : ℤ) : UnpackedFloat :=
  if h : r = 0 then .zero s
  else if r < 2 ^ 53 then .finite s r t (Nat.pos_of_ne_zero h)
  else .finite s (2 ^ 52) (t + 1) (Nat.two_pow_pos 52)

/-- A mantissa is shifted to 53 bits, or to the step of the smallest doubles if that is more. -/
theorem shiftToTargetExponent_eq (m : ℕ) (e : ℤ) (a : Accuracy) :
    let k := (max (m.log2 + e - 52) (-1074) - e).toNat
    shiftToTargetExponent .binary64 m e a =
      (ExtendedMantissa.ofMantissaAndAccuracy m a >>> k, e + k) := by
  have htarget : Format.binary64.targetExponent (totalExponent m e) =
      max (m.log2 + e - 52) (-1074) := by
    simp only [Format.targetExponent, totalExponent, Format.mantissaBits, Format.minExponent]
    omega
  rw [shiftToTargetExponent, htarget, shiftToExponent]

/-- Once a number is rounded, shifting it again loses no more than the zero of a carry. -/
theorem shiftToTargetExponent_placed (s : Sign) {r : ℕ} {t : ℤ} (hr : r ≤ 2 ^ 53)
    (ht : -1074 ≤ t) :
    let again := shiftToTargetExponent .binary64 r t .exact
    (if h : again.1.mantissa = 0 then .zero s
      else .finite s again.1.mantissa again.2 (Nat.pos_of_ne_zero h)) = placed s r t := by
  rw [shiftToTargetExponent_eq, placed]
  rcases hr.lt_or_eq with hlt | rfl
  · have hlog : r.log2 ≤ 52 := by
      by_cases hzero : r = 0
      · rw [hzero, Nat.log2_zero]
        exact Nat.zero_le 52
      · exact Nat.le_of_lt_succ ((Nat.log2_lt hzero).2 hlt)
    have hshift : (max ((r.log2 : ℤ) + t - 52) (-1074) - t).toNat = 0 := by omega
    have hleft : (ExtendedMantissa.ofMantissaAndAccuracy r .exact >>> 0).mantissa = r := rfl
    simp only [hshift, hleft, Int.ofNat_zero, add_zero, if_pos hlt]
  · have hshift : (max (((2 ^ 53 : ℕ).log2 : ℤ) + t - 52) (-1074) - t).toNat = 1 := by
      rw [Nat.log2_two_pow]
      omega
    simp only [hshift]
    rfl

/-- A number is rounded to the nearest multiple of the step of its grid. -/
theorem exists_roundWithAccuracy_eq (s : Sign) {m : ℕ} {e t : ℤ} {a : Accuracy} {v : ℚ}
    (hv : Represents (.ofMantissaAndAccuracy m a) v)
    (ht : t = max (m.log2 + e - 52) (-1074)) (he : e ≤ t) :
    IsGrid (v * 2 ^ e) t ∧ ∃ r, IsNearestNat (v * 2 ^ e / 2 ^ t) r ∧
      roundWithAccuracy .binary64 s m e a = placed s r t := by
  have hgrid : IsGrid (v * 2 ^ e) t :=
    hv.isGrid (by rwa [mantissa_ofMantissaAndAccuracy]) he
  obtain ⟨k, hk⟩ : ∃ k : ℕ, t = e + k := ⟨(t - e).toNat, by omega⟩
  have hvalue : v / 2 ^ k = v * 2 ^ e / 2 ^ t := by
    rw [hk, zpow_add₀ two_ne_zero, zpow_natCast]
    field_simp
  have hr := (hv.shiftRight k).isNearestNat_roundedMantissa
  rw [hvalue] at hr
  have hshift : (max ((m.log2 : ℤ) + e - 52) (-1074) - e).toNat = k := by omega
  refine ⟨hgrid, _, hr, ?_⟩
  rw [roundWithAccuracy, shiftToTargetExponent_eq, hshift, ← hk]
  exact shiftToTargetExponent_placed s (hgrid.le_of_isNearestNat hr) hgrid.low

/-! ### Normal doubles -/

/-- A mantissa that has as many bits as a double can hold. -/
def IsFull (m : ℕ) : Prop := 2 ^ 52 ≤ m ∧ m < 2 ^ 53

theorem IsFull.log2 {m : ℕ} (h : IsFull m) : m.log2 = 52 :=
  (Nat.log2_eq_iff (Nat.lt_of_lt_of_le (Nat.two_pow_pos 52) h.1).ne').2 h

/-- The mantissa and the exponent of a normal double. -/
structure IsNormal (m : ℕ) (e : ℤ) : Prop where
  full : IsFull m
  low : -1074 ≤ e
  high : e ≤ 971

/-- A number that is neither too small nor too large for normal doubles. -/
structure InRange (q : ℚ) : Prop where
  low : 2 ^ (-1021 : ℤ) ≤ q
  high : q ≤ 2 ^ (1022 : ℤ)

/-- A number between two powers of two that are in range is in range. -/
theorem InRange.of_bounds {q : ℚ} (j k : ℤ) (hlow : 2 ^ j ≤ q) (hhigh : q ≤ 2 ^ k) (hj : -1021 ≤ j)
    (hk : k ≤ 1022) : InRange q :=
  ⟨(zpow_le_zpow_right₀ one_le_two hj).trans hlow, hhigh.trans (zpow_le_zpow_right₀ one_le_two hk)⟩

/-- A number in range is rounded to a normal double, which is at most half a step away. -/
theorem InRange.placed_eq {q : ℚ} {t : ℤ} {r : ℕ} (s : Sign) (hrange : InRange q)
    (hgrid : IsGrid q t) (hr : IsNearestNat (q / 2 ^ t) r) :
    ∃ (m : ℕ) (e : ℤ) (hpos : 0 < m), placed s r t = .finite s m e hpos ∧ IsNormal m e ∧
      |(m : ℚ) * 2 ^ e - q| ≤ 2 ^ e / 2 := by
  have hlow := hgrid.low
  have hlead : 2 ^ (52 + t) ≤ q := by
    rcases hgrid.above with rfl | hlead
    · exact (zpow_le_zpow_right₀ one_le_two (by decide)).trans hrange.low
    · exact hlead
  have hhigh : t ≤ 1023 - 53 :=
    hgrid.le_of_lt (hrange.high.trans_lt (zpow_lt_zpow_right₀ one_lt_two (by decide))) (by decide)
  have hge : 2 ^ 52 ≤ r := IsGrid.ge_of_isNearestNat hlead hr
  have herror := hr.abs_mul_sub_le
  rw [placed, dif_neg (by omega)]
  rcases (hgrid.le_of_isNearestNat hr).lt_or_eq with hlt | rfl
  · rw [if_pos hlt]
    exact ⟨r, t, _, rfl, ⟨⟨hge, hlt⟩, hlow, by omega⟩, herror⟩
  · have hcarry : ((2 ^ 52 : ℕ) : ℚ) * 2 ^ (t + 1) = (2 ^ 53 : ℕ) * 2 ^ t := by
      rw [zpow_add_one₀ two_ne_zero]
      push_cast
      ring
    rw [if_neg (lt_irrefl _)]
    refine ⟨2 ^ 52, t + 1, _, rfl, ⟨⟨le_rfl, by decide⟩, by omega, by omega⟩, ?_⟩
    rw [hcarry, zpow_add_one₀ two_ne_zero]
    have hstep : (0 : ℚ) < 2 ^ t := zpow_pos two_pos t
    linarith

/-- A number of enough bits that is in range is rounded to a normal double, which is at most half a
step away. -/
theorem exists_isNormal_of_represents (s : Sign) {m : ℕ} {e : ℤ} {a : Accuracy} {v q : ℚ}
    (hm : e ≤ max (m.log2 + e - 52) (-1074)) (hv : Represents (.ofMantissaAndAccuracy m a) v)
    (hq : v * 2 ^ e = q) (hrange : InRange q) :
    ∃ (m' : ℕ) (e' : ℤ) (hpos : 0 < m'),
      roundWithAccuracy .binary64 s m e a = .finite s m' e' hpos ∧ IsNormal m' e' ∧
        |(m' : ℚ) * 2 ^ e' - q| ≤ 2 ^ e' / 2 := by
  obtain ⟨hgrid, r, hr, hround⟩ := exists_roundWithAccuracy_eq s hv rfl hm
  rw [hround]
  rw [hq] at hgrid hr
  exact hrange.placed_eq s hgrid hr

/-- A quotient is computed with enough bits, or down to the step of the smallest doubles. -/
theorem divCore_le (m : ℕ) {n : ℕ} (e f : ℤ) (hm : 0 < m) (hn : 0 < n) :
    let go := divCore .binary64 m e n f
    go.2.1 ≤ max (go.1.log2 + go.2.1 - 52) (-1074) := by
  intro go
  set t := min (e - f) (Format.binary64.targetExponent (totalExponent m e - totalExponent n f))
    with ht
  have hexponent : go.2.1 = t := rfl
  rw [hexponent]
  by_cases hlow : t ≤ -1074
  · exact hlow.trans (le_max_right _ _)
  -- the target exponent leaves the quotient its 53 bits
  have htarget : t ≤ m.log2 + e - (n.log2 + f) - 53 := by
    rw [ht] at hlow ⊢
    simp only [Format.targetExponent, totalExponent, Format.mantissaBits, Format.minExponent]
      at hlow ⊢
    omega
  have hquotient : go.1 = m <<< (e - f - t).toNat / n := rfl
  have hge : 2 ^ 52 ≤ m <<< (e - f - t).toNat / n := by
    rw [Nat.le_div_iff_mul_le hn, Nat.shiftLeft_eq]
    calc 2 ^ 52 * n ≤ 2 ^ 52 * 2 ^ (n.log2 + 1) := Nat.mul_le_mul_left _ Nat.lt_log2_self.le
      _ = 2 ^ (52 + (n.log2 + 1)) := (pow_add ..).symm
      _ ≤ 2 ^ (m.log2 + (e - f - t).toNat) := Nat.pow_le_pow_right two_pos (by omega)
      _ = 2 ^ m.log2 * 2 ^ (e - f - t).toNat := pow_add ..
      _ ≤ m * 2 ^ (e - f - t).toNat := Nat.mul_le_mul_right _ (Nat.log2_self_le hm.ne')
  have hlog : 52 ≤ go.1.log2 := by
    rw [hquotient]
    exact (Nat.le_log2 (by omega)).2 hge
  omega

/-- What is computed of a quotient stands for it. -/
theorem exists_represents_divCore (m : ℕ) {n : ℕ} (e f : ℤ) (hn : 0 < n) :
    let go := divCore .binary64 m e n f
    ∃ v, Represents (.ofMantissaAndAccuracy go.1 go.2.2) v ∧
      v * 2 ^ go.2.1 = (m : ℚ) * 2 ^ e / (n * 2 ^ f) := by
  intro go
  set t := min (e - f) (Format.binary64.targetExponent (totalExponent m e - totalExponent n f))
  set p := m <<< (e - f - t).toNat with hp
  refine ⟨_, represents_fraction (p / n) (Nat.mod_lt p hn), ?_⟩
  have hn' : (n : ℚ) ≠ 0 := by exact_mod_cast hn.ne'
  have hdivmod : ((p / n : ℕ) : ℚ) + (p % n : ℕ) / n = p / n := by
    rw [eq_div_iff hn', add_mul, div_mul_cancel₀ _ hn']
    exact_mod_cast Nat.div_add_mod' p n
  have hexponent : go.2.1 = t := rfl
  have hshift : t = e - f - (e - f - t).toNat := by omega
  have hcast : (p : ℚ) = m * 2 ^ (e - f - t).toNat := by
    rw [hp, Nat.shiftLeft_eq]
    push_cast
    rfl
  rw [hdivmod, hcast, hexponent, ← zpow_natCast, div_mul_eq_mul_div, mul_assoc,
    ← zpow_add₀ two_ne_zero]
  have hsum : ((e - f - t).toNat : ℤ) + t = e - f := by omega
  rw [hsum, zpow_sub₀ two_ne_zero]
  field_simp

/-- The quotient of two numbers is rounded to a normal double that is at most half a step away. -/
theorem div_eq_finite {m n : ℕ} {e f : ℤ} (hm : 0 < m) (hn : 0 < n)
    (hrange : InRange ((m : ℚ) * 2 ^ e / (n * 2 ^ f))) :
    ∃ (m' : ℕ) (e' : ℤ) (hpos : 0 < m'),
      UnpackedFloat.div .binary64 (.finite .positive m e hm) (.finite .positive n f hn) =
        .finite .positive m' e' hpos ∧
      IsNormal m' e' ∧ |(m' : ℚ) * 2 ^ e' - m * 2 ^ e / (n * 2 ^ f)| ≤ 2 ^ e' / 2 := by
  obtain ⟨v, hv, hvalue⟩ := exists_represents_divCore m e f hn
  exact exists_isNormal_of_represents .positive (divCore_le m e f hm hn) hv hvalue hrange

/-- The product of two numbers is rounded to a normal double that is at most half a step away. -/
theorem mul_eq_finite {m n : ℕ} {e f : ℤ} (hm : 0 < m) (hn : 0 < n) (hbits : 52 ≤ (m * n).log2)
    (hrange : InRange ((m : ℚ) * 2 ^ e * (n * 2 ^ f))) :
    ∃ (m' : ℕ) (e' : ℤ) (hpos : 0 < m'),
      UnpackedFloat.mul .binary64 (.finite .positive m e hm) (.finite .positive n f hn) =
        .finite .positive m' e' hpos ∧
      IsNormal m' e' ∧ |(m' : ℚ) * 2 ^ e' - m * 2 ^ e * (n * 2 ^ f)| ≤ 2 ^ e' / 2 := by
  have hvalue : ((m * n : ℕ) : ℚ) * 2 ^ (e + f) = m * 2 ^ e * (n * 2 ^ f) := by
    rw [zpow_add₀ two_ne_zero]
    push_cast
    ring
  exact exists_isNormal_of_represents .positive (by omega) (represents_exact (m * n)) hvalue hrange

/-- A natural number is rounded to a normal double that is at most half a step away. -/
theorem ofNat_eq_finite {n : ℕ} (hn : 0 < n) (hbits : n < 2 ^ 53) :
    ∃ (m : ℕ) (e : ℤ) (hpos : 0 < m),
      UnpackedFloat.ofNat .binary64 n = .finite .positive m e hpos ∧
        IsNormal m e ∧ |(m : ℚ) * 2 ^ e - n| ≤ 2 ^ e / 2 := by
  have hlog : n.log2 < 53 := (Nat.log2_lt hn.ne').2 hbits
  have htarget : Format.binary64.targetExponent (totalExponent n 0) = n.log2 - 52 := by
    simp only [Format.targetExponent, totalExponent, Format.mantissaBits, Format.minExponent]
    omega
  have hshift : ((0 : ℤ) - (n.log2 - 52)).toNat = 52 - n.log2 := by omega
  have hround : UnpackedFloat.ofNat .binary64 n = roundWithAccuracy .binary64 .positive
      (n <<< (52 - n.log2)) (0 - (52 - n.log2 : ℕ)) .exact := by
    have hsign : compare (n : ℤ) 0 = .gt := Int.compare_eq_gt.2 (by omega)
    rw [UnpackedFloat.ofNat, UnpackedFloat.ofInt, UnpackedFloat.normalize, hsign]
    show UnpackedFloat.round .binary64 .positive (n : ℤ).toNat 0 = _
    rw [Int.toNat_natCast, UnpackedFloat.round, htarget, decreaseExponent, hshift]
  -- the zeros that are put behind the number make up for its exponent
  have hfull : 52 ≤ (n <<< (52 - n.log2)).log2 := by
    have hge : 2 ^ 52 ≤ n <<< (52 - n.log2) := by
      rw [Nat.shiftLeft_eq]
      calc 2 ^ 52 = 2 ^ n.log2 * 2 ^ (52 - n.log2) := by rw [← pow_add]; congr 1; omega
        _ ≤ n * 2 ^ (52 - n.log2) := Nat.mul_le_mul_right _ (Nat.log2_self_le hn.ne')
    exact (Nat.le_log2 (by omega)).2 hge
  have hvalue : ((n <<< (52 - n.log2) : ℕ) : ℚ) * 2 ^ ((0 : ℤ) - (52 - n.log2 : ℕ)) = n := by
    rw [Nat.shiftLeft_eq, zero_sub, zpow_neg, zpow_natCast]
    push_cast
    field_simp
  have hrange : InRange n := by
    refine .of_bounds 0 53 ?_ ?_ (by decide) (by decide)
    · rw [zpow_zero]
      exact_mod_cast hn
    · exact_mod_cast hbits.le
  rw [hround]
  exact exists_isNormal_of_represents .positive (by omega) (represents_exact _) hvalue hrange

end RepoSurvey.Decimal
