/-!
# Decimal text of floating-point numbers

A finite double is read as the exact fraction it stands for (`Parts`), and every text is computed
from that fraction in natural-number arithmetic. `shortest` finds the fewest decimal digits that
read back as the same double; `fixed` rounds to a given number of places; `ratio` goes the other
way and rounds an exact fraction to a double.
-/

namespace RepoSurvey.Decimal

/-! ### Exact values -/

/-- A finite double as the exact number `± mantissa · 2 ^ exponent`. -/
structure Parts where
  /-- Whether the sign bit is set. -/
  negative : Bool
  /-- The integer mantissa, with the leading bit of a normal number. -/
  mantissa : Nat
  /-- The power of two. -/
  exponent : Int
  /-- Whether the next smaller double is only half a step away. -/
  narrowBelow : Bool

/-- The parts of a finite double; `none` for infinities and not-a-numbers. -/
def Parts.ofFloat? (x : Float) : Option Parts :=
  let bits := x.toBits.toNat
  let fraction := bits % Nat.pow 2 52
  let field := bits / Nat.pow 2 52 % Nat.pow 2 11
  let negative := bits / Nat.pow 2 63 == 1
  if field == 2047 then none
  else if field == 0 then some ⟨negative, fraction, -1074, false⟩
  else
    let mantissa := Nat.pow 2 52 + fraction
    some ⟨negative, mantissa, Int.ofNat field - 1075, fraction == 0 && field != 1⟩

/-- `2 ^ e` as a numerator and a denominator. -/
def twoPow (e : Int) : Nat × Nat :=
  if e < 0 then (1, Nat.pow 2 e.natAbs) else (Nat.pow 2 e.natAbs, 1)

/-! ### Shortest digits -/

/-- A decimal number `digits · 10 ^ scale`. -/
structure Scaled where
  digits : Nat
  scale : Int
deriving DecidableEq, Repr

/-- The number of decimal digits of a natural number; 0 has one. -/
def digitCount (n : Nat) : Nat := (Nat.toDigits 10 n).length

/-- The exponent of the leading decimal digit of `num / den`, for a positive `num`. -/
def leadingExponent (num den : Nat) : Int :=
  let guess : Int := Int.ofNat (digitCount num) - Int.ofNat (digitCount den)
  let scaledDown :=
    if guess < 0 then num * Nat.pow 10 guess.natAbs < den else num < den * Nat.pow 10 guess.natAbs
  if scaledDown then guess - 1 else guess

/-- The points of the grid of step `10 ^ scale` next to `center / den` that lie between `low / den`
and `high / den` (the ends count if `closed`), the nearer one first; of two points equally near the
even one comes first. -/
def gridPoint? (low center high den : Nat) (closed : Bool) (scale : Int) : Option Scaled :=
  let up := if scale < 0 then Nat.pow 10 scale.natAbs else 1
  let step := if scale < 0 then den else den * Nat.pow 10 scale.natAbs
  let c := center * up
  let below := c / step
  let inside := fun (k : Nat) ↦
    if closed then low * up ≤ k * step && k * step ≤ high * up
    else low * up < k * step && k * step < high * up
  let gapBelow := c - below * step
  let gapAbove := (below + 1) * step - c
  let belowFirst := gapBelow < gapAbove || (gapBelow == gapAbove && below % 2 == 0)
  let order := if belowFirst then [below, below + 1] else [below + 1, below]
  (order.find? inside).map fun k ↦ ⟨k, scale⟩

/-- The first of the grids of `count`, `count + 1`, … digits that has a point reading back as the
number; `fuel` is the number of grids tried. -/
def firstGrid (low center high den : Nat) (closed : Bool) (lead : Int) : Nat → Nat → Scaled
  | 0, _ => ⟨center / den, 0⟩
  | fuel + 1, count =>
    match gridPoint? low center high den closed (lead - Int.ofNat count + 1) with
    | some point => point
    | none => firstGrid low center high den closed lead fuel (count + 1)

/-- The decimal number with the fewest digits that reads back as the given positive double, and
among those the nearest; seventeen digits always suffice. -/
def shortest (p : Parts) : Scaled :=
  let (num, den) := twoPow (p.exponent - 2)
  let center := 4 * p.mantissa * num
  let low := (4 * p.mantissa - if p.narrowBelow then 1 else 2) * num
  let high := (4 * p.mantissa + 2) * num
  firstGrid low center high den (p.mantissa % 2 == 0) (leadingExponent center den) 17 1

/-- The same number without trailing zeros in its digits. -/
def Scaled.trimZeros (s : Scaled) : Nat → Scaled
  | 0 => s
  | fuel + 1 =>
    if s.digits != 0 && s.digits % 10 == 0 then
      Scaled.trimZeros ⟨s.digits / 10, s.scale + 1⟩ fuel
    else s

/-! ### Written forms -/

/-- How a double is written from its digits. -/
structure Style where
  /-- Positional notation is used from this exponent of the leading digit on. -/
  leastPositional : Int
  /-- Positional notation is used below this exponent of the leading digit. -/
  positionalBelow : Int
  /-- The least number of digits of a written exponent. -/
  exponentWidth : Nat

/-- Numbers are positional from `0.0001` up to below `10 ^ 16`, whole numbers keep `.0`, and
exponents have a sign and at least two digits. -/
def Style.standard : Style := ⟨-4, 16, 2⟩

/-- The decimal digits of a natural number. -/
def natDigits (n : Nat) : List Char := Nat.toDigits 10 n

/-- Zeros in front up to the given width. -/
def padLeft (width : Nat) (cs : List Char) : List Char :=
  List.replicate (width - cs.length) '0' ++ cs

/-- Writes a positive decimal number in the given style. -/
def Scaled.write (style : Style) (s : Scaled) : List Char :=
  let digits := natDigits s.digits
  let lead : Int := s.scale + Int.ofNat digits.length - 1
  if style.leastPositional ≤ lead && lead < style.positionalBelow then
    if lead < 0 then '0' :: '.' :: (List.replicate (lead.natAbs - 1) '0' ++ digits)
    else if 0 ≤ s.scale then digits ++ List.replicate s.scale.natAbs '0' ++ ['.', '0']
    else
      let whole := digits.length - s.scale.natAbs
      digits.take whole ++ '.' :: digits.drop whole
  else
    let mantissa := match digits with
      | [] => []
      | [d] => [d]
      | d :: ds => d :: '.' :: ds
    mantissa ++ ['e', if lead < 0 then '-' else '+'] ++
      padLeft style.exponentWidth (natDigits lead.natAbs)

/-- The text of a double: the fewest digits that read back, in the standard style; `none` for
infinities and not-a-numbers. -/
def finiteText? (x : Float) : Option (List Char) :=
  (Parts.ofFloat? x).map fun p ↦
    let body := if p.mantissa == 0 then ['0', '.', '0'] else
      ((shortest p).trimZeros 400).write Style.standard
    if p.negative then '-' :: body else body

/-- `num / den` to the nearest integer, a half to the even neighbour. -/
def roundHalfEven (num den : Nat) : Nat :=
  let q := num / den
  let r := num % den
  if 2 * r < den then q else if den < 2 * r then q + 1 else if q % 2 == 0 then q else q + 1

/-- The text of a finite double with exactly `places` digits after the point, a half of the last
place to the even neighbour. -/
def fixed (places : Nat) (x : Float) : String :=
  match Parts.ofFloat? x with
  | none => if x.isNaN then "nan" else if x < 0 then "-inf" else "inf"
  | some p =>
    let (num, den) := twoPow p.exponent
    let n := roundHalfEven (p.mantissa * num * Nat.pow 10 places) den
    let digits := padLeft (places + 1) (natDigits n)
    let whole := digits.length - places
    let point := if places == 0 then [] else '.' :: digits.drop whole
    String.ofList ((if p.negative then ['-'] else []) ++ digits.take whole ++ point)

/-! ### Rounding a fraction to a double -/

open Float.Model in
/-- `num / den` rounded to the nearest double, for a positive `den`; `none` if it is too large for
any. The numbers are divided as they are, so that nothing is rounded before. -/
def ratio? (num den : Nat) : Option Float :=
  if h : 0 < num ∧ 0 < den then
    let x := Float.ofModel (.pack (UnpackedFloat.div .binary64
      (.finite .positive num 0 h.1) (.finite .positive den 0 h.2)))
    if x.isInf then none else some x
  else some (num.toFloat / den.toFloat)

end RepoSurvey.Decimal
