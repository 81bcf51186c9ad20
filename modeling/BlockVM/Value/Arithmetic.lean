import BlockVM.Value.Repr

namespace BlockVM.Value

/-! Arithmetic. A result of `none` says that the operands have no such operation. -/

def exactInt (result : Option Int64) : Except Fault (Option Value) :=
  match result with
  | some i => .ok (some (.int i))
  | none => .error .integerOverflow

def subtract (a b : Value) : Except Fault (Option Value) :=
  match a.number?, b.number? with
  | some (.int x), some (.int y) => exactInt (Word.subtract? x y)
  | some x, some y => .ok (some (.float (x.toFloat - y.toFloat)))
  | _, _ => .ok none

def trueDivide (a b : Value) : Except Fault (Option Value) :=
  match a.number?, b.number? with
  | some x, some y =>
      let divisor := y.toFloat
      if divisor == 0 then .error .divisionByZero else .ok (some (.float (x.toFloat / divisor)))
  | _, _ => .ok none

/-- The quotient, rounded down. -/
def floorDivide (a b : Value) : Except Fault (Option Value) :=
  match a.number?, b.number? with
  | some (.int x), some (.int y) =>
      if y = 0 then .error .integerDivisionByZero
      else exactInt (Word.floorDivide? x y)
  | some x, some y =>
      let divisor := y.toFloat
      if divisor == 0 then .error .floorDivisionByZero
      else .ok (some (.float (x.toFloat / divisor).floor))
  | _, _ => .ok none

/-- The remainder of the quotient rounded down; it has the sign of the divisor. -/
def modulo (a b : Value) : Except Fault (Option Value) :=
  match a.number?, b.number? with
  | some (.int x), some (.int y) =>
      if y = 0 then .error .integerDivisionByZero
      else .ok (some (.int (Word.modulo x y)))
  | some x, some y =>
      let divisor := y.toFloat
      if divisor == 0 then .error .moduloByZero
      else
        let rest := Binary64.remainder x.toFloat divisor
        let differ := decide (rest < 0) != decide (divisor < 0)
        .ok (some (.float (if rest != 0 && differ then rest + divisor else rest)))
  | _, _ => .ok none

/-- Integers to a natural power stay integers; a negative exponent gives a float. -/
def power (a b : Value) : Except Fault (Option Value) :=
  match a.number?, b.number? with
  | some (.int x), some (.int y) =>
      if y < 0 then
        if x = 0 then .error .zeroToNegativePower
        else .ok (some (.float (Float.pow x.toFloat y.toFloat)))
      else exactInt ((Word.half? y).bind (Word.power? x))
  | some x, some y =>
      let base := x.toFloat
      let exponent := y.toFloat
      if base == 0 && exponent < 0 then .error .zeroToNegativePower
      else .ok (some (.float (Float.pow base exponent)))
  | _, _ => .ok none

def shiftLeft (a b : Value) : Except Fault (Option Value) :=
  match a.int?, b.int? with
  | some x, some y =>
      if y < 0 then .error .negativeShift
      else if x = 0 then .ok (some (.int 0))
      else exactInt (Word.shiftLeft? x y)
  | _, _ => .ok none

/-- Division by a power of two, rounded down. -/
def shiftRight (a b : Value) : Except Fault (Option Value) :=
  match a.int?, b.int? with
  | some x, some y =>
      if y < 0 then .error .negativeShift
      else .ok (some (.int (Word.shiftRight x y)))
  | _, _ => .ok none

/-- Two truth values give a truth value, other integers an integer. -/
def bitwise (bools : Bool → Bool → Bool) (ints : Int64 → Int64 → Int64) (a b : Value) :
    Option Value :=
  match a, b with
  | .bool p, .bool q => some (.bool (bools p q))
  | a, b =>
      match a.int?, b.int? with
      | some x, some y => some (.int (ints x y))
      | _, _ => none

def negate (a : Value) : Except Fault (Option Value) :=
  match a.number? with
  | some (.int x) => exactInt (Word.ofInt? (-x.toInt))
  | some (.float x) => .ok (some (.float (-x)))
  | none => .ok none

def positive (a : Value) : Option Value :=
  match a.number? with
  | some (.int x) => some (.int x)
  | some (.float x) => some (.float x)
  | none => none

def invert (a : Value) : Option Value :=
  a.int?.map fun x => .int (~~~x)

end BlockVM.Value
