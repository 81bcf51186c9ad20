import BlockVM.Value.Equality

namespace BlockVM.Value

/-! The order of values: numbers, strings, and lists and tuples item by item. -/

/-- Compares the first items that are not equal, or else the lengths. -/
def compareItems (equal : Value → Value → Option Bool)
    (cmp : Value → Value → Except Failure (Option Ordering)) :
    List Value → List Value → Except Failure (Option Ordering)
  | [], [] => .ok (some .eq)
  | [], _ :: _ => .ok (some .lt)
  | _ :: _, [] => .ok (some .gt)
  | x :: xs, y :: ys =>
      match equal x y with
      | none => .error .unending
      | some true => compareItems equal cmp xs ys
      | some false => cmp x y

/-- The order of two values, at most `depth` levels deep; `symbol` is named in the error. -/
def compareWithin (heap : Heap) (symbol : String) :
    Nat → Value → Value → Except Failure (Option Ordering)
  | 0, _, _ => .error .unending
  | depth + 1, a, b =>
      match a.number?, b.number? with
      | some x, some y => .ok (x.compare? y)
      | _, _ =>
          match a, b with
          | .str _ s, .str _ t => .ok (some (compare s t))
          | .list r, .list s =>
              compareItems (equal? heap) (compareWithin heap symbol depth) (heap.items r).toList
                (heap.items s).toList
          | .tuple _ xs, .tuple _ ys =>
              compareItems (equal? heap) (compareWithin heap symbol depth) xs ys
          | a, b => .error (.raised (.unordered symbol a.typeName b.typeName))

/-- The order of two values, if there is one. Two lists that contain themselves may be compared
without end. -/
def compare? (heap : Heap) (symbol : String) (a b : Value) : Except Failure (Option Ordering) :=
  compareWithin heap symbol heap.platform.patience a b

end BlockVM.Value
