namespace BlockVM

/-- A span of time in whole nanoseconds. -/
structure Duration where
  nanoseconds : Nat
deriving Repr, DecidableEq, Inhabited

namespace Duration

def ofMilliseconds (count : Nat) : Duration :=
  ⟨count * 1000000⟩

instance : LT Duration where
  lt a b := a.nanoseconds < b.nanoseconds

instance (a b : Duration) : Decidable (a < b) :=
  inferInstanceAs (Decidable (a.nanoseconds < b.nanoseconds))

/-- `part` as the digits behind a point, in units of `10 ^ -places`; trailing zeros are dropped,
and so is the point of a whole number. -/
def fractionText (part places : Nat) : String :=
  let digits := Nat.toDigits 10 part
  let padded := List.replicate (places - digits.length) '0' ++ digits
  let kept := (padded.reverse.dropWhile (· == '0')).reverse
  if kept.isEmpty then "" else "." ++ String.ofList kept

/-- The span in the largest unit of `s`, `ms`, `µs` and `ns` that gives a whole part. -/
def render (d : Duration) : String :=
  let n := d.nanoseconds
  if 1000000000 ≤ n then s!"{n / 1000000000}" ++ fractionText (n % 1000000000) 9 ++ "s"
  else if 1000000 ≤ n then s!"{n / 1000000}" ++ fractionText (n % 1000000) 6 ++ "ms"
  else if 1000 ≤ n then s!"{n / 1000}" ++ fractionText (n % 1000) 3 ++ "µs"
  else s!"{n}ns"

end Duration

end BlockVM
