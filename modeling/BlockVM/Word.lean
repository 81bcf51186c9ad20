namespace BlockVM

/-! Integers of one machine word and sizes in memory. -/

namespace Word

/-- The signed word with the mathematical value `i`, if `i` fits. -/
def ofInt? (i : Int) : Option Int64 :=
  if -0x8000000000000000 ≤ i ∧ i < 0x8000000000000000 then some (Int64.ofInt i) else none

/-- The largest signed word. -/
def greatest : Nat := 0x7fffffffffffffff

/-! Operations of the machine wrap around. The ones below say when there is a result. -/

def add? (a b : Int64) : Option Int64 :=
  ofInt? (a.toInt + b.toInt)

def subtract? (a b : Int64) : Option Int64 :=
  ofInt? (a.toInt - b.toInt)

def multiply? (a b : Int64) : Option Int64 :=
  ofInt? (a.toInt * b.toInt)

/-- The quotient cut off at the point. -/
def divide? (a b : Int64) : Option Int64 :=
  if b = 0 then none else ofInt? (a.toInt.tdiv b.toInt)

/-- The remainder of the quotient cut off at the point. The machine forms both at once, so a quotient
that does not fit leaves none. -/
def remainder? (a b : Int64) : Option Int64 :=
  if b = 0 ∨ (a = Int64.minValue ∧ b = -1) then none else some (a % b)

/-- Whether one of two words is negative and the other is not. -/
def opposed (a b : Int64) : Bool :=
  decide (a < 0) != decide (b < 0)

/-- Whether cutting off the quotient of `a` and `b` raises it. -/
def cutsUp (a b : Int64) : Bool :=
  a % b != 0 && opposed a b

/-- The quotient rounded down. -/
def floorDivide? (a b : Int64) : Option Int64 :=
  (divide? a b).map fun quotient => if cutsUp a b then quotient - 1 else quotient

/-- Whether a remainder that has the sign of the dividend needs that of the divisor `b`. -/
def strays (rest b : Int64) : Bool :=
  rest != 0 && opposed rest b

/-- The remainder of the quotient rounded down; it has the sign of the divisor. -/
def modulo (a b : Int64) : Int64 :=
  let rest := (remainder? a b).getD 0
  if strays rest b then rest + b else rest

/-- The number as an unsigned half word. -/
def half? (a : Int64) : Option Nat :=
  if 0 ≤ a.toInt ∧ a.toInt < 0x100000000 then some a.toInt.toNat else none

/-- A count by which the machine can shift a word. -/
def shiftCount? (count : Int64) : Option Nat :=
  (half? count).filter (· < 64)

/-- The word shifted to the left, if shifting back gives it again. -/
def shiftLeft? (a count : Int64) : Option Int64 := do
  let bits ← shiftCount? count
  let shifted := a <<< Int64.ofNat bits
  if shifted >>> Int64.ofNat bits = a then some shifted else none

/-- A shift past all the bits leaves the sign. -/
def shiftRight (a count : Int64) : Int64 :=
  match shiftCount? count with
  | some bits => a >>> Int64.ofNat bits
  | none => if a < 0 then -1 else 0

/-- The product with the factor that the lowest bit of the exponent stands for. -/
def takeIn? (product base : Int64) (exponent : Nat) : Option Int64 :=
  if exponent % 2 = 1 then multiply? product base else some product

/-- `product * base ^ exponent`, bit by bit of the exponent while the base is squared. A product or a
square on the way that does not fit ends it. -/
def powerFrom? (product base : Int64) (exponent : Nat) : Option Int64 :=
  if exponent = 0 then some product
  else
    match takeIn? product base exponent with
    | none => none
    | some product =>
        if exponent = 1 then some product
        else
          match multiply? base base with
          | none => none
          | some square => powerFrom? product square (exponent / 2)
termination_by exponent

def power? (base : Int64) (exponent : Nat) : Option Int64 :=
  powerFrom? 1 base exponent

/-- Reads an optional sign and decimal digits. -/
def read? (text : List Char) : Option Int64 :=
  let (negative, digits) :=
    match text with
    | '-' :: rest => (true, rest)
    | '+' :: rest => (false, rest)
    | rest => (false, rest)
  if digits ≠ [] ∧ digits.all Char.isDigit then
    let magnitude : Nat := Nat.ofDigitChars 10 digits 0
    ofInt? (if negative then -magnitude else magnitude)
  else none

theorem ofInt?_eq_some_iff {i : Int} {word : Int64} :
    ofInt? i = some word ↔ word.toInt = i := by
  unfold ofInt?
  constructor
  · intro found
    split at found
    · cases found
      rename_i fits
      exact Int64.toInt_ofInt_of_le (by omega) (by omega)
    · contradiction
  · rintro rfl
    have lower := Int64.le_toInt word
    have upper := Int64.toInt_lt word
    rw [if_pos ⟨by omega, by omega⟩, Int64.ofInt_toInt]

end Word

namespace Size

/-- The largest size. -/
def greatest : Nat := 0xffffffffffffffff

/-- The size with the mathematical value `i`, if there is one. -/
def ofInt? (i : Int) : Option Nat :=
  if 0 ≤ i ∧ i ≤ greatest then some i.toNat else none

/-- Products of sizes stop at the largest one. -/
def mul (a b : Nat) : Nat := min (a * b) greatest

/-- Bytes one value slot of a sequence takes. -/
def slot : Nat := 32

/-- Reads decimal digits after an optional plus sign. -/
def read? (text : List Char) : Option Nat :=
  let digits := match text with
    | '+' :: rest => rest
    | rest => rest
  if digits ≠ [] ∧ digits.all Char.isDigit then
    let number : Nat := Nat.ofDigitChars 10 digits 0
    if number ≤ greatest then some number else none
  else none

end Size

end BlockVM
