import BlockVM.Binary64.Shortest

namespace BlockVM

/-- The decisions of a number format. -/
structure NumberLayout where
  tie : TieRule
  /-- Positions of the decimal point that are written without an exponent, lowest first. -/
  lowest : Int
  highest : Int
  /-- Least number of digits of the exponent. -/
  exponentWidth : Nat

namespace NumberLayout

/-- The exponent always carries a sign. -/
def exponent (layout : NumberLayout) (value : Int) : List Char :=
  let digits := Nat.toDigits 10 value.natAbs
  let padded := List.replicate (layout.exponentWidth - digits.length) '0' ++ digits
  if value < 0 then '-' :: padded else '+' :: padded

/-- Digits with a point inside, before or behind them; a whole number ends in `.0`. -/
def positional (digits : List Char) (point : Int) : List Char :=
  if point ≤ 0 then '0' :: '.' :: List.replicate (-point).toNat '0' ++ digits
  else
    let whole := point.toNat
    if digits.length ≤ whole then
      digits ++ List.replicate (whole - digits.length) '0' ++ ['.', '0']
    else digits.take whole ++ '.' :: digits.drop whole

def scientific (layout : NumberLayout) (digits : List Char) (point : Int) : List Char :=
  let mantissa :=
    match digits with
    | first :: second :: rest => first :: '.' :: second :: rest
    | short => short
  mantissa ++ 'e' :: layout.exponent (point - 1)

def magnitude (layout : NumberLayout) (d : Decimal) : List Char :=
  if d.coefficient = 0 then ['0', '.', '0']
  else if layout.lowest ≤ d.point ∧ d.point ≤ layout.highest then positional d.digits d.point
  else layout.scientific d.digits d.point

/-- The text of a finite number; the sign of a negative zero is kept. -/
def finite (layout : NumberLayout) (negative : Bool) (significand : Nat) (exponent : Int) : List Char :=
  let text := layout.magnitude (Binary64.shortest layout.tie significand exponent)
  if negative then '-' :: text else text

end NumberLayout

namespace Binary64

/-- `num / den` to the nearest integer, a half to the even neighbour. -/
def roundHalfEven (num den : Nat) : Nat :=
  let floor := num / den
  let rest := num % den
  if 2 * rest < den then floor
  else if den < 2 * rest then floor + 1
  else floor + floor % 2

/-- The magnitude `significand * 2 ^ exponent` with one decimal place, rounded from its exact
value. -/
def onePlace (significand : Nat) (exponent : Int) : String :=
  let tenths := roundHalfEven ((significand <<< exponent.toNat) * 10) (1 <<< (-exponent).toNat)
  String.ofList (Nat.toDigits 10 (tenths / 10)) ++ "." ++ String.ofList (Nat.toDigits 10 (tenths % 10))

end Binary64

end BlockVM
