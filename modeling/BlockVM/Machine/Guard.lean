import BlockVM.Machine.Exec

namespace BlockVM.Exec

def pushBlock (block : Nat → Block) : Exec Unit := do
  let depth := (← frame).stack.length
  changeFrame (Frame.pushBlock (block depth))
  act (Act.emit (.blockPush (block depth).kind (← frame).blocks.length))

def takeBlock : Exec Block := do
  match (← frame).blocks with
  | block :: rest =>
      changeFrame fun frame => { frame with blocks := rest }
      return block
  | [] => raise .emptyBlockStack

/-- Takes the top block off and leaves the data stack alone. -/
def popBlock : Exec Unit := do
  let block ← takeBlock
  act (Act.emit (.blockPop block.kind (← frame).blocks.length))

/-- Goes on with what the block of a handler has given back. -/
def recover (released : Except Fault (Option Raised)) : Exec Unit := do
  match released with
  | .error fault => raise fault
  | .ok restored =>
      act (Act.emit (.blockPop .exceptHandler (← frame).blocks.length))
      modify fun a => { a with recovered := restored }

/-- Leaves a handler that has come to its end. -/
def popExcept : Exec Unit := do
  let block ← takeBlock
  match block with
  | .exceptHandler _ =>
      let (released, a) := (← get).release block
      set a
      recover released
  | other => raise (.poppedBlock other.kind.name)

/-- The instance to raise: a class is instantiated without a message. -/
def instance? (value : Value) : Exec (Option ExceptionObject) := do
  match value with
  | .exceptionKind kind => return some (← act (Act.newException kind none))
  | .exception object => return some object
  | _ => return none

def raiseVarargs (form : Nat) : Exec Effect := do
  match form with
  | 0 => return .rethrow
  | 1 =>
      match ← instance? (← pop) with
      | some exception => return .throw exception
      | none => raise .notException
  | 2 =>
      let (value, origin) ← popTwo
      match ← instance? value with
      | none => raise .notException
      | some exception =>
          let cause ← match origin with
            | .nothing => pure none
            | other =>
                match ← instance? other with
                | some cause => pure (some cause)
                | none => raise .causeNotException
          let (id, heap) := (← get).world.heap.fresh
          modify (Active.setHeap heap)
          return .throw { exception with id, cause }
  | other => raise (.badRaiseForm other)

/-- Takes up again what a `finally` body or an unmatched handler interrupted. -/
def endFinally : Exec Effect := do
  match ← pop with
  | .nothing => return .next
  | .signal .returning => return .interrupt (.return (← pop))
  | .signal .breaking => return .interrupt .break
  | .signal (.continuing _) =>
      match (← pop).int? with
      | some i => if i < 0 then raise .badContinueTarget else return .interrupt (.continue i.toInt.toNat)
      | none => raise .badContinueTarget
  | .exceptionKind kind =>
      let value ← pop
      let trace ← pop
      let (raised, heap) ←
        act (Act.ofExcept (Raised.ofValues (.exceptionKind kind) value trace (← get).world.heap))
      modify (Active.setHeap heap)
      return .propagate raised
  | other => raise (.endFinallyFound other.typeName)

end BlockVM.Exec
