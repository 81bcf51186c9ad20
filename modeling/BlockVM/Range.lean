import BlockVM.Word

namespace BlockVM

/-- The arithmetic progression from `start` to just before `stop`. A step of zero gives no
elements. -/
structure Range where
  start : Int64
  stop : Int64
  step : Int64
deriving Repr, DecidableEq, Inhabited

namespace Range

/-- The steps that lie between the bounds, the last one rounded up. -/
def extent (r : Range) : Int :=
  let start := r.start.toInt
  let stop := r.stop.toInt
  let step := r.step.toInt
  if 0 < step ∧ start < stop then (stop - start + step - 1).tdiv step
  else if step < 0 ∧ stop < start then (start - stop - step - 1).tdiv (-step)
  else 0

/-- The number of elements, or the largest size if there are more. -/
def size (r : Range) : Nat :=
  (Size.ofInt? r.extent).getD Size.greatest

def isEmpty (r : Range) : Bool :=
  r.size == 0

/-- The element at `index`, if the range is that long. -/
def get? (r : Range) (index : Nat) : Option Int64 :=
  if index < r.size then Word.ofInt? (r.start.toInt + index * r.step.toInt) else none

def contains (r : Range) (value : Int64) : Bool :=
  let start := r.start.toInt
  let stop := r.stop.toInt
  let step := r.step.toInt
  let v := value.toInt
  let inside :=
    if 0 < step then start ≤ v && v < stop
    else if step < 0 then stop < v && v ≤ start
    else false
  inside && (v - start).tmod step == 0

/-- Two empty ranges are equal; others need the same length, start and step. -/
def equal (a b : Range) : Bool :=
  (a.isEmpty && b.isEmpty) || (a.size == b.size && a.start == b.start && a.step == b.step)

/-- A step of one is left out. -/
def render (r : Range) : String :=
  let start := r.start.toInt
  let stop := r.stop.toInt
  let step := r.step.toInt
  if step = 1 then s!"range({start}, {stop})" else s!"range({start}, {stop}, {step})"

end Range

end BlockVM
