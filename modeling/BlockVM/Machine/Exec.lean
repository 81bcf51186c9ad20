import BlockVM.Machine.Builtins
import BlockVM.Machine.Unwind

namespace BlockVM

/-! What an instruction may do: work on the running frame and the world, and say what follows. -/

/-- What follows an instruction. -/
inductive Effect where
  /-- The next instruction. -/
  | next
  /-- The frame is interrupted by a signal other than an exception. -/
  | interrupt (signal : Signal)
  /-- An exception goes on propagating as it is. -/
  | propagate (raised : Raised)
  /-- An exception is raised. -/
  | throw (exception : ExceptionObject)
  /-- The exception being handled is raised once more. -/
  | rethrow
  /-- A new frame runs first. -/
  | call (callee : Frame)

/-- Operations on the running frame and the world. One that fails leaves both as they had become
by then. -/
abbrev Exec := EStateM Failure Active

namespace Exec

variable {α : Type}

def act (operation : Act α) : Exec α :=
  fun ⟨world, frame, recovered⟩ =>
    match operation world with
    | .ok result world => .ok result ⟨world, frame, recovered⟩
    | .error failure world => .error failure ⟨world, frame, recovered⟩

def raise (fault : Fault) : Exec α :=
  throw (.raised fault)

def frame : Exec Frame :=
  return (← get).frame

def changeFrame (change : Frame → Frame) : Exec Unit :=
  modify fun ⟨world, frame, recovered⟩ => ⟨world, change frame, recovered⟩

def push (value : Value) : Exec Unit :=
  changeFrame (Frame.push value)

def pushDraft (draft : Draft) : Exec Unit := do
  push (← act (Act.place draft))

def jump (target : Nat) : Exec Unit :=
  changeFrame (Frame.jump target)

def setStack (stack : List Value) : Exec Unit :=
  changeFrame fun frame => { frame with stack }

def pop : Exec Value := do
  match (← frame).stack with
  | value :: rest =>
      setStack rest
      return value
  | [] => raise .stackUnderflow

/-- Takes `count` values, deepest first; none is taken if there are fewer. -/
def popMany (count : Nat) : Exec (List Value) := do
  let stack := (← frame).stack
  if stack.length < count then raise .stackUnderflow
  setStack (stack.drop count)
  return (stack.take count).reverse

/-- Two values, the deeper one first. -/
def popTwo : Exec (Value × Value) := do
  match (← frame).stack with
  | b :: a :: rest =>
      setStack rest
      return (a, b)
  | _ => raise .stackUnderflow

/-- Three values, the deepest one first. -/
def popThree : Exec (Value × Value × Value) := do
  match (← frame).stack with
  | c :: b :: a :: rest =>
      setStack rest
      return (a, b, c)
  | _ => raise .stackUnderflow

/-- The value that lies under `above` others. -/
def peek (above : Nat) : Exec Value := do
  match (← frame).stack[above]? with
  | some value => return value
  | none => raise .stackUnderflow

def truthy (value : Value) : Exec Bool :=
  return value.truthy (← get).world.heap

def constant : Operand Value → Exec Value
  | .const value => pure value
  | _ => raise (.operandMismatch "constant")

def name : Operand Value → Exec String
  | .name name => pure name
  | .slot name => pure name
  | _ => raise (.operandMismatch "name")

def target : Operand Value → Exec Nat
  | .jump target => pure target
  | _ => raise (.operandMismatch "jump target")

def number : Operand Value → Exec Nat
  | .int number => pure number
  | _ => raise (.operandMismatch "integer")

end Exec

end BlockVM
