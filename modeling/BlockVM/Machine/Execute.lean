import BlockVM.Machine.Binding
import BlockVM.Machine.Call
import BlockVM.Machine.Guard
import BlockVM.Machine.Operation
import BlockVM.Machine.Traversal

namespace BlockVM

open Exec in
/-- Instructions that work on the running frame and go on with the next one. -/
def operate (opcode : Opcode) (operand : Operand Value) : Exec Unit := do
  match opcode with
  | .popTop => let _ ← pop
  | .rotTwo =>
      let (a, b) ← popTwo
      push b
      push a
  | .rotThree =>
      let (a, b, c) ← popThree
      push c
      push a
      push b
  | .dupTop => push (← peek 0)
  | .dupTopTwo =>
      let second ← peek 1
      let top ← peek 0
      push second
      push top
  | .nop => pure ()
  | .unary operator => unary operator
  | .binary operator => binary operator
  | .inplace operator => inplace operator
  | .binarySubscr => subscript
  | .storeSubscr => storeSubscript
  | .getIter => push (← act (Act.iterate (← pop)))
  | .printExpr => printExpr
  | .popBlock => popBlock
  | .popExcept => popExcept
  | .storeName =>
      let name ← name operand
      let value ← pop
      bind (← frame).locals name value
  | .deleteName =>
      let name ← name operand
      unbind (← frame).locals name (.undefinedName name)
  | .unpackSequence => unpackSequence (← number operand)
  | .forIter => forIter (← target operand)
  | .storeGlobal =>
      let name ← name operand
      let value ← pop
      bind (← frame).globals name value
  | .deleteGlobal =>
      let name ← name operand
      unbind (← frame).globals name (.undefinedName name)
  | .loadConst => push (← constant operand)
  | .loadName => push (← nameValue (← name operand))
  | .buildTuple => pushDraft (.tuple (← popMany (← number operand)))
  | .buildList => pushDraft (.list (← popMany (← number operand)).toArray)
  | .compareOp => compareOp (← number operand)
  | .jumpForward => jump (← target operand)
  | .jumpAbsolute => jump (← target operand)
  | .jumpIfFalseOrPop =>
      let target ← target operand
      if ← truthy (← peek 0) then let _ ← pop else jump target
  | .jumpIfTrueOrPop =>
      let target ← target operand
      if ← truthy (← peek 0) then jump target else let _ ← pop
  | .popJumpIfFalse =>
      let target ← target operand
      if !(← truthy (← pop)) then jump target
  | .popJumpIfTrue =>
      let target ← target operand
      if ← truthy (← pop) then jump target
  | .loadGlobal => push (← globalValue (← name operand))
  | .setupLoop => pushBlock (.loop (← target operand))
  | .setupExcept => pushBlock (.setupExcept (← target operand))
  | .setupFinally => pushBlock (.finally (← target operand))
  | .loadFast => push (← localValue (← name operand))
  | .storeFast =>
      let name ← name operand
      let value ← pop
      bind (← frame).locals name value
  | .deleteFast =>
      let name ← name operand
      unbind (← frame).locals name (.unboundLocal name)
  | .makeFunction => makeFunction (← number operand)
  | .listAppend => listAppend (← number operand)
  | _ => raise (.unsupported opcode)

namespace Exec

/-- Goes on with the next instruction. -/
def thenNext (operation : Exec Unit) : Exec Effect := do
  operation
  return .next

end Exec

open Exec in
/-- Executes one instruction. -/
def execute (opcode : Opcode) (operand : Operand Value) : Exec Effect := do
  match opcode with
  | .breakLoop => return .interrupt .break
  | .continueLoop => return .interrupt (.continue (← target operand))
  | .returnValue => return .interrupt (.return (← pop))
  | .endFinally => endFinally
  | .raiseVarargs => raiseVarargs (← number operand)
  | .callFunction => callFunction (← number operand)
  | other => thenNext (operate other operand)

end BlockVM
