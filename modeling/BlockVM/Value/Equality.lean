import BlockVM.Value.Repr

namespace BlockVM.Value

/-! Equality. It looks `nestingLimit` levels into lists and tuples, but counts anew inside a code
object. A code object may hold a list that has been given the code object itself, so comparing
two of them may never end; the result then is `none`. -/

/-- Whether all items are equal; it stops at the first pair that is not. -/
def allEqual (equal : Value → Value → Option Bool) : List Value → List Value → Option Bool
  | x :: xs, y :: ys =>
      match equal x y with
      | some true => allEqual equal xs ys
      | other => other
  | _, _ => some true

def sameItems (equal : Value → Value → Option Bool) (xs ys : List Value) : Option Bool :=
  if xs.length = ys.length then allEqual equal xs ys else some false

/-- Equality with `room` levels to look into, given how code objects are compared. -/
def equalWithin (heap : Heap) (codes : Code Value → Code Value → Option Bool) :
    Nat → Value → Value → Option Bool
  | 0, _, _ => some false
  | room + 1, a, b =>
      match a.number?, b.number? with
      | some x, some y => some (x.equal y)
      | _, _ =>
          match a, b with
          | .str _ s, .str _ t => some (s == t)
          | .list r, .list s =>
              if r = s then some true
              else sameItems (equalWithin heap codes room) (heap.items r).toList (heap.items s).toList
          | .tuple _ xs, .tuple _ ys => sameItems (equalWithin heap codes room) xs ys
          | .range p, .range q => some (p.equal q)
          | .code i c, .code j d => if i = j then some true else codes c d
          | a, b => some (a.same b)

/-- Compares the parts of two code objects, at most `depth` code objects deep. -/
def codeEqualWithin (heap : Heap) : Nat → Code Value → Code Value → Option Bool
  | 0, _, _ => none
  | depth + 1, c, d =>
      if c.name = d.name ∧ c.instructions = d.instructions then
        let equal := equalWithin heap (codeEqualWithin heap depth) (nestingLimit + 1)
        match sameItems equal c.constants d.constants with
        | some true => some (c.names == d.names && c.localSlots == d.localSlots && c.argCount == d.argCount)
        | other => other
      else some false

/-- Equality of values. -/
def equal? (heap : Heap) (a b : Value) : Option Bool :=
  equalWithin heap (codeEqualWithin heap heap.platform.patience) (nestingLimit + 1) a b

/-- Equality of code objects, part by part. -/
def codeEqual? (heap : Heap) (c d : Code Value) : Option Bool :=
  codeEqualWithin heap heap.platform.patience c d

end BlockVM.Value
