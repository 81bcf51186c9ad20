import BlockVM.Machine.Exec

namespace BlockVM.Exec

def listAppend (depth : Nat) : Exec Unit := do
  let value ← pop
  match ← peek (depth - 1) with
  | .list ref => act (Act.changeHeap (Heap.updateItems ref (·.push value)))
  | other => raise (.appendToNonList other.typeName)

/-- Puts exactly `expected` items on the stack, the first one on top. -/
def unpackSequence (expected : Nat) : Exec Unit := do
  let items ← act (Act.drain (← pop))
  if items.length < expected then raise (.tooFewValues expected items.length)
  if expected < items.length then raise (.tooManyValues expected)
  changeFrame fun frame => { frame with stack := items ++ frame.stack }

def subscript : Exec Unit := do
  let (container, index) ← popTwo
  pushDraft (← act (Act.ofExcept (Value.item (← get).world.heap container index)))

def storeSubscript : Exec Unit := do
  let (value, container, index) ← popThree
  let heap ← act (Act.ofExcept (Value.setItem (← get).world.heap container index value))
  act (Act.changeHeap fun _ => heap)

/-- Puts the next item on top of the iterator, or takes the exhausted iterator off and jumps. -/
def forIter (exit : Nat) : Exec Unit := do
  match ← act (Act.next (← peek 0)) with
  | some item => push item
  | none =>
      let _ ← pop
      jump exit

/-- Prints a value other than `None` on a line. -/
def printExpr : Exec Unit := do
  match ← pop with
  | .nothing => pure ()
  | value =>
      let text := value.repr (← get).world.heap
      act (Act.print (.value text))
      act (Act.print (.mark '\n'))

end BlockVM.Exec
