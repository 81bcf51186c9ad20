import BlockVM.Machine.Exec

namespace BlockVM.Exec

def unary (operator : UnaryOperator) : Exec Unit := do
  let operand ← pop
  let result ← match operator with
    | .positive => pure operand.positive
    | .negative => act (Act.ofExcept operand.negate)
    | .not => pure (some (.bool !(← truthy operand)))
    | .invert => pure operand.invert
  match result with
  | some value => push value
  | none => raise (.badOperand operator.symbol operand.typeName)

/-- Applies an operator to values that have been taken off. -/
def apply (operator : BinaryOperator) (left right : Value) : Exec Unit := do
  let heap := (← get).world.heap
  if operator = .multiply then
    match Value.repetitionBytes? heap left right with
    | some bytes => act (Act.checkResult bytes)
    | none => pure ()
  match ← act (Act.ofExcept (Value.apply heap operator left right)) with
  | some draft => pushDraft draft
  | none => raise (.unsupportedOperands operator.symbol left.typeName right.typeName)

def binary (operator : BinaryOperator) : Exec Unit := do
  let (left, right) ← popTwo
  apply operator left right

/-- As `binary`, but adding to a list extends the list itself. -/
def inplace (operator : BinaryOperator) : Exec Unit := do
  let (left, right) ← popTwo
  match operator, left with
  | .add, .list ref =>
      let extra ← act (Act.drain right)
      act (Act.changeHeap (Heap.updateItems ref (· ++ extra)))
      push (.list ref)
  | _, _ => apply operator left right

/-- Whether an exception is caught by a class or a tuple of classes. All members of the tuple have
to be classes. -/
def catches (raised : ExceptionKind) (handlers : List Value) : Except Fault Bool := do
  let kinds ← handlers.mapM fun
    | .exceptionKind kind => pure kind
    | _ => throw .handlerNotException
  return kinds.any raised.isSubclassOf

def exceptionMatch (raised handler : Value) : Except Fault Bool :=
  let matchKind (kind : ExceptionKind) : Except Fault Bool :=
    match handler with
    | .exceptionKind _ => catches kind [handler]
    | .tuple _ handlers => catches kind handlers
    | _ => .error .handlerNotException
  match raised with
  | .exceptionKind kind => matchKind kind
  | .exception object => matchKind object.kind
  | _ => .ok false

def compare (heap : Heap) (comparison : Comparison) (left right : Value) : Except Failure Bool :=
  let ordered (accept : Ordering → Bool) : Except Failure Bool :=
    (Value.compare? heap comparison.symbol left right).map fun
      | some ordering => accept ordering
      | none => false
  let equal : Except Failure Bool :=
    match Value.equal? heap left right with
    | some result => .ok result
    | none => .error .unending
  match comparison with
  | .less => ordered Ordering.isLT
  | .lessEqual => ordered Ordering.isLE
  | .greater => ordered Ordering.isGT
  | .greaterEqual => ordered Ordering.isGE
  | .equal => equal
  | .notEqual => equal.map (!·)
  | .member => Value.contains heap right left
  | .notMember => (Value.contains heap right left).map (!·)
  | .same => .ok (left.same right)
  | .notSame => .ok !(left.same right)
  | .exceptionMatch => (exceptionMatch left right).mapError .raised

def compareOp (selector : Nat) : Exec Unit := do
  match Comparison.ofSelector? selector with
  | none => raise (.unknownComparison selector)
  | some comparison =>
      let (left, right) ← popTwo
      push (.bool (← act (Act.ofFailing (compare (← get).world.heap comparison left right))))

end BlockVM.Exec
