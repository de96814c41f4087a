import RepoSurvey.Proofs.Decimal.Rounding

/-!
# Doubles and the numbers that they stand for

A finite double stands for a rational number (`valueOf?`). `Stands x v` says that `x` is normal and
positive and stands for `v`. Dividing such doubles and reading natural numbers as doubles gives such
doubles again, as long as the results are neither too small nor too large, and the number that comes
out is off by at most a share of `2 ^ -53` for each rounding (`Near`).
-/

namespace RepoSurvey.Decimal

open Float.Model Float.Model.UnpackedFloat

/-- The number that a finite double stands for. -/
def valueOf? (x : Float) : Option ℚ :=
  match x.toModel.unpack with
  | .finite s m e _ => some (s.apply m * 2 ^ e)
  | .zero _ => some 0
  | .infinity _ | .notANumber => none

/-- A double that stands for a number is finite. -/
theorem isInf_eq_false_of_valueOf? {x : Float} {v : ℚ} (h : valueOf? x = some v) :
    x.isInf = false := by
  show x.toModel.unpack.isInf = false
  unfold valueOf? at h
  rcases hunpack : x.toModel.unpack with _ | _ | _ | _ <;> rw [hunpack] at h
  · exact absurd h (by simp)
  all_goals rfl

/-- A double is normal and positive and stands for a number. -/
def Stands (x : Float) (v : ℚ) : Prop :=
  ∃ (m : ℕ) (e : ℤ) (hpos : 0 < m),
    x.toModel.unpack = .finite .positive m e hpos ∧ IsNormal m e ∧ v = m * 2 ^ e

/-! ### Packing -/

/-- The leading bit of a normal double is worth its mantissa's own power of two. -/
theorem toNat_leadingBit_append (m : BitVec 52) : (1#1 ++ m).toNat = 2 ^ 52 + m.toNat := by
  rw [BitVec.toNat_append, ← Nat.shiftLeft_add_eq_or_of_lt m.isLt]
  rfl

namespace IsNormal

variable {m : ℕ} {e : ℤ}

/-- The number that stands for the exponent of a normal double is none of those for special ones. -/
theorem toNat_exponentField (h : IsNormal m e) :
    ((BitVec.ofNat 11 (e + 1075).toNat).toNat : ℤ) = e + 1075 ∧
      BitVec.ofNat 11 (e + 1075).toNat ≠ -1#11 ∧ BitVec.ofNat 11 (e + 1075).toNat ≠ 0#11 := by
  have hlow := h.low
  have hhigh := h.high
  have hfield : (BitVec.ofNat 11 (e + 1075).toNat).toNat = (e + 1075).toNat := by
    rw [BitVec.toNat_ofNat, Nat.mod_eq_of_lt (by omega)]
  refine ⟨by omega, fun hall ↦ ?_, fun hzero ↦ ?_⟩
  · have htoNat := congrArg BitVec.toNat hall
    rw [hfield, show (-1#11).toNat = 2047 from rfl] at htoNat
    omega
  · have htoNat := congrArg BitVec.toNat hzero
    rw [hfield, show (0#11).toNat = 0 from rfl] at htoNat
    omega

/-- The leading bit of the mantissa is not packed. -/
theorem pack_eq (h : IsNormal m e) (hpos : 0 < m) :
    UnpackedFloat.pack .binary64 (.finite .positive m e hpos) =
      packComponents .binary64 .positive (BitVec.ofNat 11 (e + 1075).toNat)
        (BitVec.ofNat 52 m) := by
  have hhigh := h.high
  have hbiased : e + (Format.binary64.exponentBias : ℤ) +
      (Format.binary64.mantissaBitsWithoutImplicit : ℤ) = e + 1075 := by
    show e + 1023 + 52 = e + 1075
    omega
  simp only [UnpackedFloat.pack]
  rw [hbiased, if_neg (by simp; omega), if_pos (by rw [h.full.log2]; rfl)]

/-- A normal double has room for its mantissa and its exponent. -/
theorem unpack_pack (h : IsNormal m e) (hpos : 0 < m) :
    (Float.Model.pack (.finite .positive m e hpos)).unpack = .finite .positive m e hpos := by
  obtain ⟨hfield, hnotAll, hnotZero⟩ := h.toNat_exponentField
  have hmantissa : (1#1 ++ BitVec.ofNat 52 m).toNat = m := by
    have hfull := h.full
    rw [IsFull] at hfull
    rw [toNat_leadingBit_append, BitVec.toNat_ofNat]
    omega
  have hexponent : e + 1075 - ((Format.binary64.exponentBias : ℤ) +
      (Format.binary64.mantissaBitsWithoutImplicit : ℤ)) = e := by
    show e + 1075 - (1023 + 52) = e
    omega
  show UnpackedFloat.unpack .binary64
    (UnpackedFloat.pack .binary64 (.finite .positive m e hpos)) = _
  rw [h.pack_eq hpos]
  simp only [UnpackedFloat.unpack, unpackExponent_packComponents, unpackMantissa_packComponents,
    unpackSign_packComponents]
  rw [if_neg hnotAll, if_neg hnotZero]
  simp only [hmantissa, hfield, hexponent]
  rfl

end IsNormal

/-- A normal double stands for its mantissa times its power of two. -/
theorem stands_pack {m : ℕ} {e : ℤ} (h : IsNormal m e) (hpos : 0 < m) :
    Stands (.ofModel (.pack (.finite .positive m e hpos))) (m * 2 ^ e) :=
  ⟨m, e, hpos, h.unpack_pack hpos, h, rfl⟩

/-! ### Errors -/

/-- What one rounding may change a number by, as a factor. -/
def rounding : ℚ := 1 + 2 ^ (-52 : ℤ)

/-- Two numbers differ by at most `k` roundings. -/
def Near (k : ℕ) (v q : ℚ) : Prop := v ≤ q * rounding ^ k ∧ q ≤ v * rounding ^ k

theorem one_le_rounding : 1 ≤ rounding := by norm_num [rounding]

namespace Near

variable {j k : ℕ} {a b v q : ℚ}

theorem mono (h : Near j v q) (hv : 0 ≤ v) (hq : 0 ≤ q) (hjk : j ≤ k) : Near k v q := by
  have hle : rounding ^ j ≤ rounding ^ k := pow_le_pow_right₀ one_le_rounding hjk
  exact ⟨h.1.trans (mul_le_mul_of_nonneg_left hle hq), h.2.trans (mul_le_mul_of_nonneg_left hle hv)⟩

/-- Roundings one after the other add up. -/
theorem trans (h : Near j v q) (h' : Near k q a) : Near (j + k) v a := by
  have hpos (i : ℕ) : 0 ≤ rounding ^ i := pow_nonneg (zero_le_one.trans one_le_rounding) i
  constructor
  · calc v ≤ q * rounding ^ j := h.1
      _ ≤ a * rounding ^ k * rounding ^ j := mul_le_mul_of_nonneg_right h'.1 (hpos j)
      _ = a * rounding ^ (j + k) := by rw [pow_add]; ring
  · calc a ≤ q * rounding ^ k := h'.2
      _ ≤ v * rounding ^ j * rounding ^ k := mul_le_mul_of_nonneg_right h.2 (hpos k)
      _ = v * rounding ^ (j + k) := by rw [pow_add]; ring

/-- The roundings of two numbers add up in their quotient. -/
theorem div (h : Near j v q) (h' : Near k a b) (hv : 0 < v) (hq : 0 < q) (ha : 0 < a)
    (hb : 0 < b) : Near (j + k) (v / a) (q / b) := by
  have hpos (i : ℕ) : 0 < rounding ^ i := pow_pos (zero_lt_one.trans_le one_le_rounding) i
  constructor
  · rw [div_mul_eq_mul_div, div_le_div_iff₀ ha hb]
    calc v * b ≤ q * rounding ^ j * (a * rounding ^ k) :=
          mul_le_mul h.1 h'.2 hb.le (mul_pos hq (hpos j)).le
      _ = q * rounding ^ (j + k) * a := by rw [pow_add]; ring
  · rw [div_mul_eq_mul_div, div_le_div_iff₀ hb ha]
    calc q * a ≤ v * rounding ^ j * (b * rounding ^ k) :=
          mul_le_mul h.2 h'.1 ha.le (mul_pos hv (hpos j)).le
      _ = v * rounding ^ (j + k) * b := by rw [pow_add]; ring

/-- A few roundings change a number by less than a share of `2 ^ -49`. -/
theorem abs_sub_le (h : Near 7 v q) (hv : 0 ≤ v) (hq : 0 ≤ q) : |v - q| ≤ q * 2 ^ (-49 : ℤ) := by
  have hfactor : rounding ^ 7 ≤ 1 + 2 ^ (-49 : ℤ) := by norm_num [rounding]
  have hinverse : (1 - 2 ^ (-49 : ℤ)) * rounding ^ 7 ≤ 1 := by norm_num [rounding]
  have habove : v ≤ q * (1 + 2 ^ (-49 : ℤ)) := h.1.trans (mul_le_mul_of_nonneg_left hfactor hq)
  have hbelow : q * (1 - 2 ^ (-49 : ℤ)) ≤ v := by
    have hshare : (0 : ℚ) ≤ 1 - 2 ^ (-49 : ℤ) := by norm_num
    calc q * (1 - 2 ^ (-49 : ℤ)) ≤ v * rounding ^ 7 * (1 - 2 ^ (-49 : ℤ)) :=
          mul_le_mul_of_nonneg_right h.2 hshare
      _ = v * ((1 - 2 ^ (-49 : ℤ)) * rounding ^ 7) := by ring
      _ ≤ v := mul_le_of_le_one_right hv hinverse
  rw [abs_le]
  constructor <;> linarith

/-- A few roundings do not change a number by more than a factor of two. -/
theorem bounds (h : Near k v q) (hk : k ≤ 7) (hv : 0 ≤ v) (hq : 0 ≤ q) : q / 2 ≤ v ∧ v ≤ 2 * q := by
  have habs := (h.mono hv hq hk).abs_sub_le hv hq
  rw [abs_le] at habs
  norm_num at habs
  constructor <;> linarith

/-- What is near to a number that is well in range is in range. -/
theorem inRange (h : Near k v q) (hk : k ≤ 7) (hv : 0 ≤ v) (i j : ℤ) (hlow : 2 ^ i ≤ q)
    (hhigh : q ≤ 2 ^ j) (hi : -1020 ≤ i) (hj : j ≤ 1021) : InRange v := by
  have hq : 0 ≤ q := (zpow_pos two_pos i).le.trans hlow
  have hbounds := h.bounds hk hv hq
  refine .of_bounds (i - 1) (j + 1) ?_ ?_ (by omega) (by omega)
  · rw [zpow_sub_one₀ two_ne_zero, ← div_eq_mul_inv]
    linarith
  · rw [zpow_add_one₀ two_ne_zero]
    linarith

/-- A number of 53 bits that is half a step away from another differs from it by one rounding. -/
theorem of_half_step {m : ℕ} {e : ℤ} (hfull : IsFull m) (h : |(m : ℚ) * 2 ^ e - q| ≤ 2 ^ e / 2) :
    Near 1 (m * 2 ^ e) q := by
  have hstep : (2 : ℚ) ^ e / 2 ≤ m * 2 ^ e * 2 ^ (-53 : ℤ) := by
    have hbits : (2 : ℚ) ^ (52 : ℤ) ≤ m := by exact_mod_cast hfull.1
    calc (2 : ℚ) ^ e / 2 = 2 ^ (52 : ℤ) * 2 ^ e * 2 ^ (-53 : ℤ) := by
          rw [mul_right_comm, ← zpow_add₀ two_ne_zero]
          norm_num
          ring
      _ ≤ m * 2 ^ e * 2 ^ (-53 : ℤ) := by gcongr
  have hpos : (0 : ℚ) ≤ m * 2 ^ e := by positivity
  rw [abs_le] at h
  generalize (m : ℚ) * 2 ^ e = v at h hstep hpos ⊢
  rw [Near, rounding, pow_one]
  norm_num at hstep ⊢
  constructor <;> linarith

end Near

/-! ### Doubles that stand for positive numbers -/

namespace Stands

variable {x y : Float} {a b v : ℚ}

/-- A double that stands for a number has it as its value. -/
theorem valueOf?_eq (h : Stands x v) : valueOf? x = some v := by
  obtain ⟨m, e, hpos, hunpack, -, rfl⟩ := h
  simp only [valueOf?, hunpack, Sign.apply, Int.cast_natCast]

/-- A double that stands for a number stands for a positive one. -/
theorem pos (h : Stands x v) : 0 < v := by
  obtain ⟨m, e, hpos, -, -, rfl⟩ := h
  positivity

/-- A double that stands for a positive number is positive. -/
theorem zero_lt (h : Stands x v) : 0 < x := by
  obtain ⟨m, e, hpos, hunpack, -, -⟩ := h
  have hzero : (0 : Float).toModel.unpack = .zero .positive := rfl
  show decide ((0 : Float).toModel.unpack.lt x.toModel.unpack = true) = true
  rw [hzero, hunpack]
  rfl

/-- The quotient of two doubles stands for the quotient of their numbers, up to a rounding. -/
theorem div (hx : Stands x a) (hy : Stands y b) (hrange : InRange (a / b)) :
    ∃ v, Stands (x / y) v ∧ Near 1 v (a / b) := by
  obtain ⟨m, e, hm, hunpack, -, rfl⟩ := hx
  obtain ⟨n, f, hn, hunpack', -, rfl⟩ := hy
  obtain ⟨m', e', hpos, hround, hnormal, herror⟩ := div_eq_finite hm hn hrange
  have hpack : x / y = .ofModel (.pack (.finite .positive m' e' hpos)) := by
    show Float.ofModel (.pack (.div .binary64 x.toModel.unpack y.toModel.unpack)) = _
    rw [hunpack, hunpack', hround]
  rw [hpack]
  exact ⟨_, stands_pack hnormal hpos, .of_half_step hnormal.full herror⟩

/-- The product of two doubles stands for the product of their numbers, up to a rounding. -/
theorem mul (hx : Stands x a) (hy : Stands y b) (hrange : InRange (a * b)) :
    ∃ v, Stands (x * y) v ∧ Near 1 v (a * b) := by
  obtain ⟨m, e, hm, hunpack, hnormal, rfl⟩ := hx
  obtain ⟨n, f, hn, hunpack', hnormal', rfl⟩ := hy
  have hbits : 52 ≤ (m * n).log2 := by
    have hle : 2 ^ 52 ≤ m * n := hnormal.full.1.trans (Nat.le_mul_of_pos_right m hn)
    exact (Nat.le_log2 (Nat.mul_pos hm hn).ne').2 hle
  obtain ⟨m', e', hpos, hround, hnormal'', herror⟩ := mul_eq_finite hm hn hbits hrange
  have hpack : x * y = .ofModel (.pack (.finite .positive m' e' hpos)) := by
    show Float.ofModel (.pack (.mul .binary64 x.toModel.unpack y.toModel.unpack)) = _
    rw [hunpack, hunpack', hround]
  rw [hpack]
  exact ⟨_, stands_pack hnormal'' hpos, .of_half_step hnormal''.full herror⟩

end Stands

theorem stands_one : Stands (.ofBits 0x3FF0000000000000) 1 :=
  ⟨2 ^ 52, -52, by decide, rfl, ⟨by norm_num [IsFull], by decide, by decide⟩, by norm_num⟩

/-- A small number is read as a word, which is multiplied by a power of ten. -/
theorem toFloat_of_lt {n : ℕ} (hbits : n < 2 ^ 53) :
    n.toFloat = n.toUInt64.toFloat * .ofBits 0x3FF0000000000000 := by
  show Float.ofScientific n false 0 = _
  rw [Float.ofScientific, dif_pos ⟨hbits, by decide⟩]
  rfl

/-- A large number is multiplied by a power of ten without being rounded before. -/
theorem toFloat_of_ge {n : ℕ} (hbits : 2 ^ 53 ≤ n) (hn : 0 < n <<< 53) :
    n.toFloat = .ofModel (.pack (.mul .binary64 (.finite .positive (n <<< 53) (-53) hn)
      (.finite .positive 1 0 one_pos))) := by
  have hlow : ¬ (0 : ℤ) < -(2 ^ Format.binary64.exponentBits + n.log2) := by
    have hformat : (0 : ℤ) < 2 ^ Format.binary64.exponentBits := by decide
    omega
  show Float.ofScientific n false 0 = _
  rw [Float.ofScientific, dif_neg (by omega)]
  show Float.ofModel (.pack (UnpackedFloat.ofScientific .binary64 n 0)) = _
  rw [UnpackedFloat.ofScientific, dif_neg (by omega), if_neg (by decide), if_neg hlow,
    if_pos (by decide)]
  rfl

/-- A small number is read with two roundings at most: as a word, and in the product. -/
theorem exists_stands_toFloat_of_lt {n : ℕ} (hn : 0 < n) (hbits : n < 2 ^ 53) :
    ∃ v, Stands n.toFloat v ∧ Near 2 v n := by
  obtain ⟨m, e, hpos, hround, hnormal, herror⟩ := ofNat_eq_finite hn hbits
  have hword : Stands n.toUInt64.toFloat (m * 2 ^ e) := by
    have hpack : n.toUInt64.toFloat = .ofModel (.pack (.finite .positive m e hpos)) := by
      show Float.ofModel (.pack (.ofNat .binary64 n.toUInt64.toNat)) = _
      rw [UInt64.toNat_ofNat_of_lt' (hbits.trans (by decide)), hround]
    rw [hpack]
    exact stands_pack hnormal hpos
  have hnear : Near 1 (m * 2 ^ e) n := .of_half_step hnormal.full herror
  have hrange : InRange (m * 2 ^ e * 1) := by
    rw [mul_one]
    refine hnear.inRange (by decide) hword.pos.le 0 53 ?_ ?_ (by decide) (by decide)
    · rw [zpow_zero]
      exact_mod_cast hn
    · exact_mod_cast hbits.le
  obtain ⟨v, hv, hnear'⟩ := hword.mul stands_one hrange
  rw [mul_one] at hnear'
  have hboth : Near (1 + 1) v n := hnear'.trans hnear
  rw [toFloat_of_lt hbits]
  exact ⟨v, hv, hboth⟩

/-- A large number is read with one rounding. -/
theorem exists_stands_toFloat_of_ge {n : ℕ} (hbits : 2 ^ 53 ≤ n)
    (hhigh : (n : ℚ) ≤ 2 ^ (1000 : ℤ)) :
    ∃ v, Stands n.toFloat v ∧ Near 1 v n := by
  have hshift : 2 ^ 52 ≤ n <<< 53 := by
    rw [Nat.shiftLeft_eq]
    omega
  have hpos : 0 < n <<< 53 := Nat.lt_of_lt_of_le (by decide) hshift
  have hvalue : ((n <<< 53 : ℕ) : ℚ) * 2 ^ (-53 : ℤ) * ((1 : ℕ) * 2 ^ (0 : ℤ)) = n := by
    rw [Nat.shiftLeft_eq]
    norm_num
    ring
  have hlog : 52 ≤ (n <<< 53 * 1).log2 := by
    rw [mul_one]
    exact (Nat.le_log2 hpos.ne').2 hshift
  have hrange : InRange n := by
    refine .of_bounds 0 1000 ?_ hhigh (by decide) (by decide)
    rw [zpow_zero]
    exact_mod_cast Nat.one_le_of_lt hbits
  obtain ⟨m, e, hpos', hround, hnormal, herror⟩ :=
    mul_eq_finite (e := -53) (f := 0) hpos one_pos hlog (hvalue.symm ▸ hrange)
  rw [hvalue] at herror
  rw [toFloat_of_ge hbits hpos, hround]
  exact ⟨_, stands_pack hnormal hpos', .of_half_step hnormal.full herror⟩

/-- A natural number that is not too large for a double is read as one that is near to it. -/
theorem exists_stands_toFloat {n : ℕ} (hn : 0 < n) (hhigh : (n : ℚ) ≤ 2 ^ (1000 : ℤ)) :
    ∃ v, Stands n.toFloat v ∧ Near 2 v n := by
  rcases lt_or_ge n (2 ^ 53) with hbits | hbits
  · exact exists_stands_toFloat_of_lt hn hbits
  · obtain ⟨v, hv, hnear⟩ := exists_stands_toFloat_of_ge hbits hhigh
    exact ⟨v, hv, hnear.mono hv.pos.le n.cast_nonneg one_le_two⟩

/-- The nearest double to a positive fraction in range is near to it. -/
theorem exists_stands_ratio? {num den : ℕ} (hnum : 0 < num) (hden : 0 < den)
    (hrange : InRange (num / den)) :
    ∃ x v, ratio? num den = some x ∧ Stands x v ∧ Near 1 v (num / den) := by
  have hvalue : (num : ℚ) * 2 ^ (0 : ℤ) / (den * 2 ^ (0 : ℤ)) = num / den := by simp
  obtain ⟨m, e, hpos, hround, hnormal, herror⟩ :=
    div_eq_finite (e := 0) (f := 0) hnum hden (hvalue.symm ▸ hrange)
  rw [hvalue] at herror
  have hstands := stands_pack hnormal hpos
  refine ⟨_, _, ?_, hstands, .of_half_step hnormal.full herror⟩
  rw [ratio?, dif_pos ⟨hnum, hden⟩, hround]
  dsimp only
  rw [isInf_eq_false_of_valueOf? hstands.valueOf?_eq]
  rfl

end RepoSurvey.Decimal
