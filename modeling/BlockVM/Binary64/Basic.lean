namespace BlockVM

/-! Binary floating-point numbers of 64 bits, taken apart exactly. -/

/-- What a bit pattern stands for: a finite number is `± significand * 2 ^ exponent`. -/
inductive Binary64 where
  | nan
  | infinite (negative : Bool)
  | finite (negative : Bool) (significand : Nat) (exponent : Int)
deriving Repr, DecidableEq

namespace Binary64

/-- The exponent of the subnormal numbers and of the smallest normal ones. -/
def lowestExponent : Int := -1074

/-- The bit that leads the significand of a normal number. -/
def leadingBit : Nat := 1 <<< 52

def ofBits (bits : UInt64) : Binary64 :=
  let word := bits.toNat
  let negative := word >>> 63 == 1
  let biased : Nat := (word >>> 52) % 2048
  let fraction : Nat := word % leadingBit
  if biased = 2047 then
    if fraction = 0 then .infinite negative else .nan
  else if biased = 0 then .finite negative fraction lowestExponent
  else .finite negative (leadingBit + fraction) ((biased : Int) - 1075)

def ofFloat (x : Float) : Binary64 :=
  ofBits x.toBits

/-- The bit pattern of `± significand * 2 ^ (position - 1074)`, for a significand below
`2 ^ 53` that is normalised or stands at position 0. -/
def packedBits (negative : Bool) (significand position : Nat) : Nat :=
  (if negative then 1 <<< 63 else 0) +
    (if significand < leadingBit then significand
    else (position + 1) * leadingBit + (significand - leadingBit))

/-- Doubles the significand until it is normalised or the exponent is the lowest one. -/
def normalise : Nat → Nat → Nat × Nat
  | 0, significand => (0, significand)
  | position + 1, significand =>
      if leadingBit ≤ significand then (position + 1, significand)
      else normalise position (2 * significand)

/-- The float `± significand * 2 ^ exponent`, for a significand below `2 ^ 53` and an exponent
of a finite float, so nothing is rounded. -/
def toFloat (negative : Bool) (significand : Nat) (exponent : Int) : Float :=
  let (position, mantissa) := normalise (exponent - lowestExponent).toNat significand
  Float.ofBits (UInt64.ofNat (packedBits negative mantissa position))

/-- The remainder of the truncated quotient, exactly: `x - y * n` for the integer `n` next to
`x / y` on the side of zero. It has the sign of `x`. -/
def remainder (x y : Float) : Float :=
  match ofFloat x, ofFloat y with
  | .finite negative m e, .finite _ n f =>
      if n = 0 then Float.ofBits 0x7ff8000000000000
      else
        let unit := min e f
        let rest := (m <<< (e - unit).toNat) % (n <<< (f - unit).toNat)
        toFloat negative rest unit
  | .finite .., .infinite _ => x
  | _, _ => Float.ofBits 0x7ff8000000000000

/-- The integer next to `x` on the side of zero; there is none for NaN and the infinities. -/
def truncate? (x : Float) : Option Int :=
  match ofFloat x with
  | .finite negative m e =>
      let magnitude : Nat := if 0 ≤ e then m <<< e.toNat else m >>> (-e).toNat
      some (if negative then -magnitude else magnitude)
  | _ => none

end Binary64

end BlockVM
