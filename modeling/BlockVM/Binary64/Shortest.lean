import BlockVM.Binary64.Basic

namespace BlockVM

/-! The decimal with the fewest digits that reads back as a given binary number, and of those
the nearest. -/

/-- Which of two equally near decimals is taken. -/
inductive TieRule where
  | larger
  /-- The one whose last digit is even. -/
  | even
deriving Repr, DecidableEq

/-- Whether the lower of two neighbours is taken. -/
def TieRule.takesLower (tie : TieRule) (lower : Nat) : Bool :=
  match tie with
  | .larger => false
  | .even => lower % 2 == 0

/-- The number `coefficient * 10 ^ scale`. -/
structure Decimal where
  coefficient : Nat
  scale : Int
deriving Repr, DecidableEq

namespace Decimal

/-- Decimal digits of the coefficient, most significant first. -/
def digits (d : Decimal) : List Char :=
  Nat.toDigits 10 d.coefficient

/-- The position of the decimal point, counted from before the first digit: the number is
`0.d₁d₂… * 10 ^ point`. -/
def point (d : Decimal) : Int :=
  d.digits.length + d.scale

/-- Moves trailing zeros of the coefficient into the scale, at most `fuel` of them. -/
def trimZeros : Nat → Decimal → Decimal
  | 0, d => d
  | fuel + 1, d =>
      if d.coefficient ≠ 0 ∧ d.coefficient % 10 = 0 then
        trimZeros fuel ⟨d.coefficient / 10, d.scale + 1⟩
      else d

end Decimal

namespace Binary64

/-- A positive number `value / unit` with the ends of the interval that rounds to it. -/
structure Rounding where
  low : Nat
  value : Nat
  high : Nat
  unit : Nat
  /-- Whether the two ends round to the number too. -/
  closed : Bool

/-- The numbers that round to `significand * 2 ^ exponent`, in quarters of its last place. Below
a power of two the neighbours are closer. -/
def rounding (significand : Nat) (exponent : Int) : Rounding :=
  let below := if significand = leadingBit ∧ lowestExponent < exponent then 1 else 2
  let up := 1 <<< (exponent - 2).toNat
  { low := (4 * significand - below) * up
    value := 4 * significand * up
    high := (4 * significand + 2) * up
    unit := 1 <<< (2 - exponent).toNat
    closed := significand % 2 = 0 }

namespace Rounding

/-- The power of ten just above the value: `10 ^ (point - 1) ≤ value / unit < 10 ^ point`. -/
def point (r : Rounding) : Int :=
  if r.unit ≤ r.value then (Nat.toDigits 10 (r.value / r.unit)).length
  else
    let places := (Nat.toDigits 10 (r.unit / r.value)).length
    if r.value * Nat.pow 10 (places - 1) = r.unit then 2 - places else 1 - places

/-- Whether `candidate * 10 ^ scale` lies in the interval; `fine` and `coarse` are the powers of
ten that bring both sides to integers. -/
def holds (r : Rounding) (fine coarse candidate : Nat) : Bool :=
  let scaled := candidate * r.unit * coarse
  if r.closed then r.low * fine ≤ scaled && scaled ≤ r.high * fine
  else r.low * fine < scaled && scaled < r.high * fine

/-- The multiple of `10 ^ scale` in the interval that is nearest to the value, if there is one:
it can only be one of the two neighbours of the value. -/
def onGrid? (r : Rounding) (tie : TieRule) (scale : Int) : Option Nat :=
  let fine := Nat.pow 10 (-scale).toNat
  let coarse := Nat.pow 10 scale.toNat
  let floor := r.value * fine / (r.unit * coarse)
  let rest := r.value * fine % (r.unit * coarse)
  let lower := floor ≠ 0 && r.holds fine coarse floor
  let upper := r.holds fine coarse (floor + 1)
  if lower && upper then
    let half := r.unit * coarse
    some (if 2 * rest < half || (2 * rest == half && tie.takesLower floor) then floor else floor + 1)
  else if lower then some floor
  else if upper then some (floor + 1)
  else none

/-- Tries the grids from `digits` digits on, at most `fuel` of them. -/
def search (r : Rounding) (tie : TieRule) (point : Int) : Nat → Nat → Decimal
  | 0, digits =>
      ⟨r.value * Nat.pow 10 (digits - point).toNat / (r.unit * Nat.pow 10 (point - digits).toNat),
        point - digits⟩
  | fuel + 1, digits =>
      match r.onGrid? tie (point - digits) with
      | some coefficient => Decimal.trimZeros 2 ⟨coefficient, point - digits⟩
      | none => search r tie point fuel (digits + 1)

end Rounding

/-- The shortest decimal of a finite number's magnitude; seventeen digits always suffice. -/
def shortest (tie : TieRule) (significand : Nat) (exponent : Int) : Decimal :=
  if significand = 0 then ⟨0, 0⟩
  else
    let interval := rounding significand exponent
    interval.search tie interval.point 17 1

end Binary64

end BlockVM
