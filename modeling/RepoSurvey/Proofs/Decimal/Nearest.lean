import RepoSurvey.Proofs.Decimal.Doubles

/-!
# The nearest double

A double is nearest to a number if no finite double is closer to it; of two that are as close it is
the one whose last bit is zero (`IsNearest`). That is said of doubles and numbers alone: nothing in
it knows how a quotient is computed.

Two facts about the finite doubles carry the proofs. They are compared as their numbers are
(`compare_unpack`), since a mantissa has all the bits that it could have, unless the exponent is the
least one (`IsHeld`). And around a number they are the multiples of the step of its grid, but for
those below the first one (`IsGrid.cases_of_valueOf?`); so rounding to the nearest multiple gives
the nearest of all doubles (`isNearest_placed`), and no other number is nearest
(`IsNearest.valueOf?_eq`). This goes for a quotient, however small it is
(`exists_isNearest_ratio?`): from the least exponent on the grid is that of the smallest doubles.

Rounding keeps the order of numbers (`IsNearest.le_of_lt`), and it tells fractions of one another
whose common denominator has at most 53 bits (`IsNearest.lt_of_fractions`).
-/

namespace RepoSurvey.Decimal

open Float.Model Float.Model.UnpackedFloat

/-! ### What doubles hold -/

/-- A mantissa and an exponent as a double holds them. Only at the least exponent has the mantissa
fewer bits than it could. -/
structure IsHeld (m : ℕ) (e : ℤ) : Prop where
  low : -1074 ≤ e
  bits : m < 2 ^ 53
  full : e = -1074 ∨ 2 ^ 52 ≤ m

/-- The last bit of a double is that of its mantissa. -/
theorem toNat_unpackMantissa_mod_two (bits : BitVec 64) :
    (@unpackMantissa .binary64 bits).toNat % 2 = bits.toNat % 2 := by
  have hlow : (@unpackMantissa .binary64 bits).toNat = bits.toNat % 2 ^ 52 := by
    simp [unpackMantissa]
  omega

/-- A finite double that is not zero holds a mantissa and an exponent, and its last bit is that of
the mantissa. -/
theorem isHeld_of_unpack {x : Float.Model} {s : Sign} {m : ℕ} {e : ℤ} {hpos : 0 < m}
    (h : x.unpack = .finite s m e hpos) : IsHeld m e ∧ x.toBits.toNat % 2 = m % 2 := by
  have hbits : ∀ mantissa : BitVec 52, (1#1 ++ mantissa).toNat = 2 ^ 52 + mantissa.toNat ∧
      mantissa.toNat < 2 ^ 52 := fun mantissa ↦ ⟨toNat_leadingBit_append mantissa, mantissa.isLt⟩
  have hlast : (@unpackMantissa .binary64 x.toBits.toBitVec).toNat % 2 =
      x.toBits.toNat % 2 := toNat_unpackMantissa_mod_two x.toBits.toBitVec
  have hbias : (Format.binary64.exponentBias : ℤ) +
      (Format.binary64.mantissaBitsWithoutImplicit : ℤ) = 1075 := rfl
  unfold Float.Model.unpack UnpackedFloat.unpack at h
  dsimp only at h
  rw [hbias] at h
  split_ifs at h with hall hzero hlow hzero
  · -- numbers whose exponent field is zero lack the leading bit
    obtain ⟨-, rfl, rfl⟩ := UnpackedFloat.finite.inj h
    have hfield : ((@unpackExponent .binary64 x.toBits.toBitVec).toNat : ℤ) = 0 := by
      rw [hlow]
      rfl
    have hmantissa := (hbits (@unpackMantissa .binary64 x.toBits.toBitVec)).2
    rw [hfield]
    exact ⟨⟨le_rfl, hmantissa.trans (by decide), Or.inl rfl⟩, hlast.symm⟩
  -- all other exponent fields stand for a mantissa with a leading bit
  · obtain ⟨-, rfl, rfl⟩ := UnpackedFloat.finite.inj h
    have hfield : (@unpackExponent .binary64 x.toBits.toBitVec).toNat ≠ 0 :=
      fun h ↦ hlow (BitVec.eq_of_toNat_eq h)
    obtain ⟨hlead, hmantissa⟩ := hbits (@unpackMantissa .binary64 x.toBits.toBitVec)
    refine ⟨⟨by omega, ?_, Or.inr ?_⟩, ?_⟩
    · exact lt_of_eq_of_lt hlead (by omega)
    · exact le_of_le_of_eq (by omega) hlead.symm
    · rw [← hlast]
      refine Eq.trans ?_ (congrArg (· % 2) hlead.symm)
      show _ = (2 ^ 52 + _) % 2
      omega

/-- Among positive doubles the order of exponents and mantissas is that of the numbers. -/
theorem IsHeld.compare_eq {m n : ℕ} {e f : ℤ} (h : IsHeld m e) (h' : IsHeld n f) :
    (compare e f).then (compare m n) = compare ((m : ℚ) * 2 ^ e) (n * 2 ^ f) := by
  -- with a larger exponent the mantissa has its leading bit, so it makes up for all the others
  have hlt : ∀ {m n : ℕ} {e f : ℤ}, IsHeld m e → IsHeld n f → e < f →
      (m : ℚ) * 2 ^ e < n * 2 ^ f := by
    intro m n e f h h' hef
    have hfull : 2 ^ 52 ≤ n := h'.full.resolve_left fun hf ↦ by
      have := h.low
      omega
    have hm : (m : ℚ) < 2 ^ 53 := by exact_mod_cast h.bits
    have hn : (2 : ℚ) ^ 52 ≤ n := by exact_mod_cast hfull
    calc (m : ℚ) * 2 ^ e < 2 ^ 53 * 2 ^ e := mul_lt_mul_of_pos_right hm (zpow_pos two_pos e)
      _ = 2 ^ 52 * 2 ^ (e + 1) := by rw [zpow_add_one₀ two_ne_zero]; ring
      _ ≤ 2 ^ 52 * 2 ^ f :=
        mul_le_mul_of_nonneg_left (zpow_le_zpow_right₀ one_le_two (by omega)) (by positivity)
      _ ≤ n * 2 ^ f := mul_le_mul_of_nonneg_right hn (zpow_pos two_pos f).le
  rcases lt_trichotomy e f with hef | rfl | hef
  · rw [compare_lt_iff_lt.2 hef, compare_lt_iff_lt.2 (hlt h h' hef)]
    rfl
  · have hstep : (0 : ℚ) < 2 ^ e := zpow_pos two_pos e
    rw [compare_eq_iff_eq.2 rfl]
    show compare m n = _
    rcases lt_trichotomy m n with hmn | rfl | hmn
    · rw [compare_lt_iff_lt.2 hmn, compare_lt_iff_lt.2]
      exact mul_lt_mul_of_pos_right (by exact_mod_cast hmn) hstep
    · rw [compare_eq_iff_eq.2 rfl, compare_eq_iff_eq.2 rfl]
    · rw [compare_gt_iff_gt.2 hmn, compare_gt_iff_gt.2]
      exact mul_lt_mul_of_pos_right (by exact_mod_cast hmn) hstep
  · rw [compare_gt_iff_gt.2 hef, compare_gt_iff_gt.2 (hlt h' h hef)]
    rfl

/-- Negative numbers are compared the other way round. -/
theorem compare_neg (a b : ℚ) : compare (-a) (-b) = (compare a b).swap := by
  rcases lt_trichotomy a b with hab | rfl | hab
  · rw [compare_lt_iff_lt.2 hab, compare_gt_iff_gt.2 (neg_lt_neg hab)]
    rfl
  · rw [compare_eq_iff_eq.2 rfl, compare_eq_iff_eq.2 rfl]
    rfl
  · rw [compare_gt_iff_gt.2 hab, compare_lt_iff_lt.2 (neg_lt_neg hab)]
    rfl

/-- Finite doubles are compared as their numbers are. -/
theorem compare_unpack {x y : Float} {v w : ℚ} (hx : valueOf? x = some v)
    (hy : valueOf? y = some w) :
    x.toModel.unpack.compare y.toModel.unpack = some (compare v w) := by
  have hpos : ∀ {m : ℕ} (e : ℤ), 0 < m → (0 : ℚ) < m * 2 ^ e := fun e hm ↦
    mul_pos (by exact_mod_cast hm) (zpow_pos two_pos e)
  unfold valueOf? at hx hy
  rcases hux : x.toModel.unpack with _ | _ | _ | ⟨_ | _, m, e, hm⟩ <;>
    rcases huy : y.toModel.unpack with _ | _ | _ | ⟨_ | _, n, f, hn⟩ <;>
    rw [hux] at hx <;> rw [huy] at hy <;>
    simp only [Sign.apply, Option.some.injEq, reduceCtorEq, Int.cast_neg, Int.cast_natCast,
      neg_mul] at hx hy <;> subst hx hy
  all_goals simp only [UnpackedFloat.compare, Option.some.injEq]
  · exact (compare_eq_iff_eq.2 rfl).symm
  · exact (compare_gt_iff_gt.2 (neg_neg_of_pos (hpos f hn))).symm
  · exact (compare_lt_iff_lt.2 (hpos f hn)).symm
  · exact (compare_lt_iff_lt.2 (neg_neg_of_pos (hpos e hm))).symm
  · rw [(isHeld_of_unpack hux).1.compare_eq (isHeld_of_unpack huy).1, compare_neg]
  · exact (compare_lt_iff_lt.2 ((neg_neg_of_pos (hpos e hm)).trans (hpos f hn))).symm
  · exact (compare_gt_iff_gt.2 (hpos e hm)).symm
  · exact (compare_gt_iff_gt.2 ((neg_neg_of_pos (hpos f hn)).trans (hpos e hm))).symm
  · rw [(isHeld_of_unpack hux).1.compare_eq (isHeld_of_unpack huy).1]

section Order

variable {x y : Float} {v w : ℚ}

/-- One finite double is at most another if its number is. -/
theorem le_iff_of_valueOf? (hx : valueOf? x = some v) (hy : valueOf? y = some w) :
    x ≤ y ↔ v ≤ w := by
  show decide ((x.toModel.unpack.compare y.toModel.unpack).any (·.isLE) = true) = true ↔ _
  rw [compare_unpack hx hy, decide_eq_true_iff, Option.any_some, Ordering.isLE_iff_ne_gt,
    compare_gt_iff_gt, not_lt]

/-- One finite double is less than another if its number is. -/
theorem lt_iff_of_valueOf? (hx : valueOf? x = some v) (hy : valueOf? y = some w) :
    x < y ↔ v < w := by
  show decide ((x.toModel.unpack.compare y.toModel.unpack == some .lt) = true) = true ↔ _
  rw [compare_unpack hx hy, decide_eq_true_iff, beq_iff_eq, Option.some.injEq, compare_lt_iff_lt]

/-- Finite doubles are equal if their numbers are; the two zeros are equal. -/
theorem beq_iff_of_valueOf? (hx : valueOf? x = some v) (hy : valueOf? y = some w) :
    (x == y) = true ↔ v = w := by
  show (x.toModel.unpack.compare y.toModel.unpack == some .eq) = true ↔ _
  rw [compare_unpack hx hy, beq_iff_eq, Option.some.injEq, compare_eq_iff_eq]

/-- What is compared with a finite double is compared with the number that it stands for. -/
theorem le_congr_of_valueOf? {z : Float} (hy : valueOf? y = some v) (hz : valueOf? z = some v) :
    x ≤ y ↔ x ≤ z := by
  rcases hx : valueOf? x with _ | w
  · -- infinities and not-a-numbers do not tell finite doubles of one another
    show decide ((x.toModel.unpack.compare y.toModel.unpack).any (·.isLE) = true) = true ↔
      decide ((x.toModel.unpack.compare z.toModel.unpack).any (·.isLE) = true) = true
    unfold valueOf? at hx hy hz
    rcases hux : x.toModel.unpack with (_ | _) | _ | _ | _ <;> rw [hux] at hx <;>
      simp only [reduceCtorEq] at hx <;>
      rcases huy : y.toModel.unpack with _ | _ | _ | _ <;> rw [huy] at hy <;>
      simp only [reduceCtorEq] at hy <;>
      rcases huz : z.toModel.unpack with _ | _ | _ | _ <;> rw [huz] at hz <;>
      simp only [reduceCtorEq] at hz <;> rfl
  · rw [le_iff_of_valueOf? hx hy, le_iff_of_valueOf? hx hz]

end Order

/-! ### Rounded doubles -/

namespace IsHeld

variable {m : ℕ} {e : ℤ}

/-- What is held is an ordinary double or one of the smallest. -/
theorem isNormal_or (h : IsHeld m e) (he : e ≤ 971) : IsNormal m e ∨ e = -1074 ∧ m < 2 ^ 52 := by
  rcases lt_or_ge m (2 ^ 52) with hm | hm
  · exact Or.inr ⟨h.full.resolve_right (by omega), hm⟩
  · exact Or.inl ⟨⟨hm, h.bits⟩, h.low, he⟩

/-- The smallest doubles are packed as they are. -/
theorem pack_eq_of_lt (hpos : 0 < m) (hm : m < 2 ^ 52) :
    UnpackedFloat.pack .binary64 (.finite .positive m (-1074) hpos) =
      packComponents .binary64 .positive 0#11 (BitVec.ofNat 52 m) := by
  have hlog : m.log2 < 52 := (Nat.log2_lt hpos.ne').2 hm
  have hbits : ¬ m.log2 + 1 = Format.binary64.mantissaBits := by
    show ¬ m.log2 + 1 = 53
    omega
  simp only [UnpackedFloat.pack]
  rw [if_neg (by decide), if_neg hbits]

/-- What is held can be packed and unpacked again. -/
theorem unpack_pack (h : IsHeld m e) (he : e ≤ 971) (hpos : 0 < m) :
    (Float.Model.pack (.finite .positive m e hpos)).unpack = .finite .positive m e hpos := by
  rcases h.isNormal_or he with hnormal | ⟨rfl, hm⟩
  · exact hnormal.unpack_pack hpos
  have hmantissa : (BitVec.ofNat 52 m).toNat = m := by
    rw [BitVec.toNat_ofNat, Nat.mod_eq_of_lt hm]
  have hne : BitVec.ofNat 52 m ≠ 0#52 := by
    intro hzero
    rw [hzero] at hmantissa
    exact hpos.ne hmantissa
  show UnpackedFloat.unpack .binary64
    (UnpackedFloat.pack .binary64 (.finite .positive m (-1074) hpos)) = _
  rw [pack_eq_of_lt hpos hm]
  simp only [UnpackedFloat.unpack, unpackExponent_packComponents, unpackMantissa_packComponents,
    unpackSign_packComponents]
  rw [if_neg (by decide), if_pos trivial, dif_neg hne]
  simp only [hmantissa]
  rfl

/-- What is held is packed into a double that stands for it and has its last bit. -/
theorem valueOf?_pack (h : IsHeld m e) (he : e ≤ 971) (hpos : 0 < m) :
    let x := Float.ofModel (.pack (.finite .positive m e hpos))
    valueOf? x = some ((m : ℚ) * 2 ^ e) ∧ x.toBits.toNat % 2 = m % 2 := by
  have hunpack := h.unpack_pack he hpos
  refine ⟨?_, (isHeld_of_unpack hunpack).2⟩
  simp only [valueOf?, hunpack, Sign.apply, Int.cast_natCast]

end IsHeld

/-- What a number is rounded to is a double with its last bit. -/
theorem valueOf?_placed {q : ℚ} {t : ℤ} {r : ℕ} (hgrid : IsGrid q t)
    (hr : IsNearestNat (q / 2 ^ t) r) (ht : t ≤ 970) :
    let x := Float.ofModel (.pack (placed .positive r t))
    valueOf? x = some ((r : ℚ) * 2 ^ t) ∧ (Even r → x.toBits.toNat % 2 = 0) := by
  intro x
  have hlow := hgrid.low
  by_cases hzero : r = 0
  · have hx : x = Float.ofModel (.pack (.zero .positive)) := by
      show Float.ofModel (.pack (placed .positive r t)) = _
      rw [placed, dif_pos hzero]
    rw [hx, hzero, Nat.cast_zero, zero_mul]
    exact ⟨rfl, fun _ ↦ rfl⟩
  rcases (hgrid.le_of_isNearestNat hr).lt_or_eq with hlt | hcarry
  · have hheld : IsHeld r t :=
      ⟨hlow, hlt, hgrid.above.imp_right fun hlead ↦ IsGrid.ge_of_isNearestNat hlead hr⟩
    have hx : x = Float.ofModel (.pack (.finite .positive r t (Nat.pos_of_ne_zero hzero))) := by
      show Float.ofModel (.pack (placed .positive r t)) = _
      rw [placed, dif_neg hzero, if_pos hlt]
    rw [hx]
    obtain ⟨hvalue, hlast⟩ := hheld.valueOf?_pack (by omega) (Nat.pos_of_ne_zero hzero)
    exact ⟨hvalue, fun heven ↦ hlast.trans (Nat.even_iff.1 heven)⟩
  -- the carry runs through all bits, so the exponent grows by one
  · have hheld : IsHeld (2 ^ 52) (t + 1) := ⟨by omega, by decide, Or.inr le_rfl⟩
    have hx : x = Float.ofModel (.pack (.finite .positive (2 ^ 52) (t + 1) (by decide))) := by
      show Float.ofModel (.pack (placed .positive r t)) = _
      rw [placed, dif_neg hzero, if_neg hcarry.not_lt]
    obtain ⟨hvalue, hlast⟩ := hheld.valueOf?_pack (by omega) (Nat.two_pow_pos 52)
    rw [hx, hvalue, hcarry, zpow_add_one₀ two_ne_zero]
    refine ⟨?_, fun _ ↦ hlast⟩
    push_cast
    congr 1
    ring

/-! ### The nearest double -/

/-- A double is nearest to a number if no finite double is closer to it. Of two that are as close it
is the one whose last bit is zero. -/
def IsNearest (x : Float) (q : ℚ) : Prop :=
  ∃ v, valueOf? x = some v ∧ ∀ y w, valueOf? y = some w →
    |v - q| ≤ |w - q| ∧ (|w - q| = |v - q| → w = v ∨ x.toBits.toNat % 2 = 0)

/-- A finite double is a multiple of a power of two, and not a large one. -/
theorem exists_of_valueOf? {x : Float} {v : ℚ} (h : valueOf? x = some v) :
    ∃ (k : ℤ) (e : ℤ), v = k * 2 ^ e ∧ -1074 ≤ e ∧ |(k : ℚ)| < 2 ^ 53 ∧
      (Odd k → x.toBits.toNat % 2 = 1) := by
  unfold valueOf? at h
  rcases hunpack : x.toModel.unpack with _ | _ | _ | ⟨s, m, e, hm⟩ <;> rw [hunpack] at h <;>
    simp only [Option.some.injEq, reduceCtorEq] at h <;> subst h
  · exact ⟨0, 0, by norm_num, by decide, by norm_num, fun hodd ↦ absurd hodd (by decide)⟩
  · obtain ⟨hheld, hlast⟩ := isHeld_of_unpack hunpack
    have habs : |((s.apply m : ℤ) : ℚ)| = m := by cases s <;> simp [Sign.apply]
    refine ⟨s.apply m, e, rfl, hheld.low, ?_, fun hodd ↦ hlast.trans ?_⟩
    · rw [habs]
      exact_mod_cast hheld.bits
    · have hmantissa : Odd (m : ℤ) := by
        cases s
        · exact odd_neg.1 hodd
        · exact hodd
      exact Nat.odd_iff.1 ((Int.odd_coe_nat m).1 hmantissa)

/-- Every double is a multiple of the step of the grid of `q`, or it lies below the grid. -/
theorem IsGrid.cases_of_valueOf? {q : ℚ} {t : ℤ} (hgrid : IsGrid q t) {x : Float} {v : ℚ}
    (h : valueOf? x = some v) : (∃ k : ℤ, v = k * 2 ^ t ∧ (Odd k → x.toBits.toNat % 2 = 1)) ∨
      v < 2 ^ (52 + t) ∧ 2 ^ (52 + t) ≤ q := by
  obtain ⟨k, e, rfl, he, hk, hlast⟩ := exists_of_valueOf? h
  rcases le_or_gt t e with hte | hte
  · obtain ⟨j, rfl⟩ : ∃ j : ℕ, e = t + j := ⟨(e - t).toNat, by omega⟩
    refine Or.inl ⟨k * 2 ^ j, ?_, fun hodd ↦ hlast (Int.odd_mul.1 hodd).1⟩
    rw [zpow_add₀ two_ne_zero, zpow_natCast]
    push_cast
    ring
  · refine Or.inr ⟨?_, hgrid.above.resolve_left (by omega)⟩
    calc (k : ℚ) * 2 ^ e ≤ |(k : ℚ)| * 2 ^ e :=
          mul_le_mul_of_nonneg_right (le_abs_self _) (zpow_pos two_pos e).le
      _ < 2 ^ 53 * 2 ^ e := mul_lt_mul_of_pos_right hk (zpow_pos two_pos e)
      _ = 2 ^ (53 + e) := by rw [zpow_add₀ two_ne_zero]; norm_num
      _ ≤ 2 ^ (52 + t) := zpow_le_zpow_right₀ one_le_two (by omega)

section Rounded

variable {q : ℚ} {t : ℤ} {r : ℕ}

/-- A multiple of the step is no closer than the one that is rounded to. If it is as close, both
are half a step away, one on each side. -/
theorem IsNearestNat.abs_mul_sub_le_of_int (hr : IsNearestNat (q / 2 ^ t) r) (k : ℤ) :
    |(r : ℚ) * 2 ^ t - q| ≤ |(k : ℚ) * 2 ^ t - q| ∧
      (|(k : ℚ) * 2 ^ t - q| = |(r : ℚ) * 2 ^ t - q| → k = r ∨ Even r ∧ Odd k) := by
  have hstep : (0 : ℚ) < 2 ^ t := zpow_pos two_pos t
  obtain ⟨hle, htie⟩ := hr.abs_sub_le_of_int k
  rw [abs_mul_two_zpow_sub, abs_mul_two_zpow_sub]
  exact ⟨mul_le_mul_of_nonneg_right hle hstep.le,
    fun heq ↦ htie (mul_right_cancel₀ hstep.ne' heq)⟩

/-- A double below the grid is farther away than what is rounded to. -/
theorem IsNearestNat.abs_mul_sub_lt_of_lt (hr : IsNearestNat (q / 2 ^ t) r) {w : ℚ}
    (hw : w < 2 ^ (52 + t)) (hq : 2 ^ (52 + t) ≤ q) : |(r : ℚ) * 2 ^ t - q| < |w - q| := by
  have hcast : ((2 ^ 52 : ℤ) : ℚ) * 2 ^ t = 2 ^ (52 + t) := by
    rw [zpow_add₀ two_ne_zero]
    norm_num
  refine (hr.abs_mul_sub_le_of_int (2 ^ 52)).1.trans_lt ?_
  rw [hcast, abs_of_nonpos (by linarith), abs_of_neg (by linarith)]
  linarith

/-- Rounding gives the nearest double. -/
theorem isNearest_placed (hgrid : IsGrid q t) (hr : IsNearestNat (q / 2 ^ t) r) (ht : t ≤ 970) :
    IsNearest (.ofModel (.pack (placed .positive r t))) q := by
  obtain ⟨hvalue, heven⟩ := valueOf?_placed hgrid hr ht
  refine ⟨_, hvalue, fun y w hw ↦ ?_⟩
  rcases hgrid.cases_of_valueOf? hw with ⟨k, rfl, -⟩ | ⟨hbelow, hlead⟩
  · obtain ⟨hle, htie⟩ := hr.abs_mul_sub_le_of_int k
    refine ⟨hle, fun heq ↦ (htie heq).imp ?_ fun h ↦ heven h.1⟩
    rintro rfl
    rw [Int.cast_natCast]
  · have hlt := hr.abs_mul_sub_lt_of_lt hbelow hlead
    exact ⟨hlt.le, fun heq ↦ absurd heq hlt.ne'⟩

/-- The nearest double stands for the number that is rounded to. -/
theorem IsNearest.valueOf?_eq {x : Float} (h : IsNearest x q) (hgrid : IsGrid q t)
    (hr : IsNearestNat (q / 2 ^ t) r) (ht : t ≤ 970) : valueOf? x = some ((r : ℚ) * 2 ^ t) := by
  obtain ⟨v, hx, hnearest⟩ := h
  obtain ⟨hclose, htie⟩ := hnearest _ _ (valueOf?_placed hgrid hr ht).1
  rw [hx, Option.some.injEq]
  rcases hgrid.cases_of_valueOf? hx with ⟨k, rfl, hlast⟩ | ⟨hbelow, hlead⟩
  · obtain ⟨hle, hboth⟩ := hr.abs_mul_sub_le_of_int k
    rcases hboth (hclose.antisymm hle) with rfl | ⟨-, hodd⟩
    · rw [Int.cast_natCast]
    · exact ((htie (hle.antisymm hclose)).resolve_right (by rw [hlast hodd]; decide)).symm
  · exact absurd hclose (hr.abs_mul_sub_lt_of_lt hbelow hlead).not_ge

end Rounded

/-- The quotient of two numbers is rounded on its grid. -/
theorem exists_div_eq_placed {num den : ℕ} (hnum : 0 < num) (hden : 0 < den) :
    ∃ t r, IsGrid ((num : ℚ) / den) t ∧ IsNearestNat ((num : ℚ) / den / 2 ^ t) r ∧
      UnpackedFloat.div .binary64 (.finite .positive num 0 hnum) (.finite .positive den 0 hden) =
        placed .positive r t := by
  obtain ⟨v, hv, hvalue⟩ := exists_represents_divCore num 0 0 hden
  rw [zpow_zero, mul_one, mul_one] at hvalue
  obtain ⟨hgrid, r, hr, hround⟩ :=
    exists_roundWithAccuracy_eq .positive hv rfl (divCore_le num 0 0 hnum hden)
  rw [hvalue] at hgrid hr
  exact ⟨_, r, hgrid, hr, hround⟩

/-- A positive fraction that is not too large is rounded to the nearest double. -/
theorem exists_isNearest_ratio? {num den : ℕ} (hnum : 0 < num) (hden : 0 < den)
    (hhigh : (num : ℚ) / den < 2 ^ (1023 : ℤ)) :
    ∃ x, ratio? num den = some x ∧ IsNearest x (num / den) := by
  obtain ⟨t, r, hgrid, hr, hdiv⟩ := exists_div_eq_placed hnum hden
  have ht : t ≤ 1023 - 53 := hgrid.le_of_lt hhigh (by decide)
  have hfinite := isInf_eq_false_of_valueOf? (valueOf?_placed hgrid hr ht).1
  refine ⟨_, ?_, isNearest_placed hgrid hr ht⟩
  rw [ratio?, dif_pos ⟨hnum, hden⟩, hdiv]
  dsimp only
  rw [hfinite]
  rfl

namespace IsNearest

variable {x y : Float} {q q' v w : ℚ}

theorem exists_valueOf? (h : IsNearest x q) : ∃ v, valueOf? x = some v := by
  obtain ⟨v, hv, -⟩ := h
  exact ⟨v, hv⟩

/-- No finite double is closer than a nearest one. -/
theorem abs_sub_le (h : IsNearest x q) (hx : valueOf? x = some v) (hy : valueOf? y = some w) :
    |v - q| ≤ |w - q| := by
  obtain ⟨_, hv, hle⟩ := h
  rw [hx, Option.some.injEq] at hv
  rw [hv]
  exact (hle y w hy).1

/-- A double reaches a number's nearest double if it reaches the number, or by being that double. -/
theorem le_iff (h : IsNearest x q) (hx : valueOf? x = some v) (hy : valueOf? y = some w) :
    y ≤ x ↔ w ≤ q ∨ w = v := by
  have hclose := h.abs_sub_le hx hy
  rw [le_iff_of_valueOf? hy hx]
  constructor
  · intro hle
    refine (le_or_gt w q).imp_right fun hlt ↦ hle.antisymm ?_
    rw [abs_of_pos (by linarith), abs_of_pos (by linarith)] at hclose
    linarith
  · rintro (hle | rfl)
    · by_contra hlt
      rw [abs_of_neg (by linarith), abs_of_nonpos (by linarith)] at hclose
      linarith
    · exact le_rfl

/-- Rounding keeps the order of numbers. -/
theorem le_of_lt (h : IsNearest x q) (h' : IsNearest y q') (hx : valueOf? x = some v)
    (hy : valueOf? y = some w) (hq : q < q') : v ≤ w := by
  have hclose := sq_le_sq.2 (h.abs_sub_le hx hy)
  have hclose' := sq_le_sq.2 (h'.abs_sub_le hy hx)
  by_contra hlt
  rw [not_le] at hlt
  -- `q` would lie above the middle of the two doubles, and `q'` below
  have hmiddle : v + w ≤ 2 * q := by nlinarith
  have hmiddle' : 2 * q' ≤ v + w := by nlinarith
  linarith

/-- No fraction has nearest doubles that stand for different numbers. -/
theorem valueOf?_eq_of_fraction {num den : ℕ} (h : IsNearest x (num / den))
    (h' : IsNearest y (num / den)) (hnum : 0 < num) (hden : 0 < den)
    (hhigh : (num : ℚ) / den < 2 ^ (1023 : ℤ)) : valueOf? x = valueOf? y := by
  obtain ⟨t, r, hgrid, hr, -⟩ := exists_div_eq_placed hnum hden
  have ht : t ≤ 1023 - 53 := hgrid.le_of_lt hhigh (by decide)
  rw [h.valueOf?_eq hgrid hr ht, h'.valueOf?_eq hgrid hr ht]

/-- The nearest double to a fraction below one is very close to it. -/
theorem abs_sub_le_of_fraction {num den : ℕ} (h : IsNearest x (num / den))
    (hx : valueOf? x = some v) (hnum : 0 < num) (hle : num ≤ den) :
    |v - num / den| ≤ 2 ^ (-54 : ℤ) := by
  have hden : 0 < den := hnum.trans_le hle
  rcases hle.lt_or_eq with hlt | rfl
  · obtain ⟨t, r, hgrid, hr, -⟩ := exists_div_eq_placed hnum hden
    have hone : (num : ℚ) / den < 2 ^ (0 : ℤ) := by
      rw [zpow_zero, div_lt_one (by exact_mod_cast hden)]
      exact_mod_cast hlt
    have ht : t ≤ 0 - 53 := hgrid.le_of_lt hone (by decide)
    obtain rfl : v = r * 2 ^ t :=
      Option.some.inj (hx.symm.trans (h.valueOf?_eq hgrid hr (by omega)))
    calc |(r : ℚ) * 2 ^ t - num / den| ≤ 2 ^ t / 2 := hr.abs_mul_sub_le
      _ ≤ 2 ^ (-53 : ℤ) / 2 :=
        div_le_div_of_nonneg_right (zpow_le_zpow_right₀ one_le_two ht) two_pos.le
      _ = 2 ^ (-54 : ℤ) := by norm_num
  · have hself : (num : ℚ) / num = 1 := div_self (by exact_mod_cast hnum.ne')
    have hclose := h.abs_sub_le hx stands_one.valueOf?_eq
    rw [hself] at hclose ⊢
    refine hclose.trans ?_
    norm_num

/-- Rounding tells fractions of one another if their denominator has at most 53 bits. -/
theorem lt_of_fractions {a b den : ℕ} (h : IsNearest x (a / den)) (h' : IsNearest y (b / den))
    (hx : valueOf? x = some v) (hy : valueOf? y = some w) (ha : 0 < a) (hab : a < b)
    (hb : b ≤ den) (hbits : den < 2 ^ 53) : v < w := by
  have hden : (0 : ℚ) < den := by exact_mod_cast (ha.trans hab).trans_le hb
  have hq : (a : ℚ) / den < b / den := div_lt_div_of_pos_right (by exact_mod_cast hab) hden
  refine (h.le_of_lt h' hx hy hq).lt_of_ne ?_
  rintro rfl
  have hgap : (1 : ℚ) / den ≤ b / den - a / den := by
    rw [← sub_div]
    refine div_le_div_of_nonneg_right ?_ hden.le
    have hsucc : (a : ℚ) + 1 ≤ b := by exact_mod_cast hab
    linarith
  have hstep : 2 * (2 : ℚ) ^ (-54 : ℤ) < 1 / den := by
    have hdouble : 2 * (2 : ℚ) ^ (-54 : ℤ) = 1 / 2 ^ 53 := by norm_num
    rw [hdouble]
    exact one_div_lt_one_div_of_lt hden (by exact_mod_cast hbits)
  have hclose := abs_le.1 (h.abs_sub_le_of_fraction hx ha (hab.le.trans hb))
  have hclose' := abs_le.1 (h'.abs_sub_le_of_fraction hy (ha.trans hab) hb)
  linarith

end IsNearest

end RepoSurvey.Decimal
