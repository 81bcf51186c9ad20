import BlockVM.Machine.Exec

namespace BlockVM

namespace Exec

def makeFunction (count : Nat) : Exec Unit := do
  let (code, label) ← popTwo
  let defaults ← popMany count
  match code with
  | .code _ unit =>
      let name := match label with
        | .str _ text => text
        | _ => unit.name
      act (Act.emit (.makeFunction defaults.length))
      let id ← act (Act.allocate Heap.fresh)
      push (.function id name unit defaults)
  | other => raise (.functionWithoutCode other.typeName)

end Exec

/-- The parameters of a code object with their values. Trailing parameters without an argument
take the last defaults. -/
def Code.bindArguments (code : Code Value) (arguments defaults : List Value) :
    Except Fault (List (String × Value)) := do
  let params ← code.params
  let given := arguments.length
  if given < params.length - defaults.length ∨ params.length < given then
    throw (.argumentCount code.name params.length given)
  return params.zip (arguments ++ defaults.drop (defaults.length - (params.length - given)))

namespace Exec

/-- The frame of a call, with namespace of its own. -/
def enter (code : Code Value) (arguments defaults : List Value) : Exec Effect := do
  let caller ← frame
  let bindings ← act (Act.ofExcept (code.bindArguments arguments defaults))
  act (Act.ofLimit ((← get).world.tracker.checkCall caller.depth))
  let locals ← act (Act.allocate (Heap.newNamespace (Namespace.ofList bindings)))
  act (Act.emit (.call code.name (caller.depth + 1)))
  return .call { code, globals := caller.globals, locals, depth := caller.depth + 1 }

/-- The message of an instance made from arguments: one is shown as it is printed, several as a
tuple. -/
def exceptionMessage (heap : Heap) : List Value → Option String
  | [] => none
  | [argument] => some (argument.display heap)
  | several => some ((Value.tuple 0 several).repr heap)

/-- Calls a value. Only a function takes a frame of its own. -/
def invoke (arguments : List Value) (callee : Value) : Exec Effect := do
  match callee with
  | .function _ _ code defaults => enter code arguments defaults
  | .builtin function =>
      push (← act (function.call arguments))
      return .next
  | .exceptionKind kind =>
      let message := exceptionMessage (← get).world.heap arguments
      push (.exception (← act (Act.newException kind message)))
      return .next
  | other => raise (.notCallable other.typeName)

def callFunction (count : Nat) : Exec Effect := do
  let arguments ← popMany count
  invoke arguments (← pop)

end Exec

end BlockVM
