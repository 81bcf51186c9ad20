import BlockVM.ExceptionKind
import BlockVM.Opcode

namespace BlockVM

/-- What a block on the block stack guards. -/
inductive BlockKind where
  | loop
  | setupExcept
  | finally
  | exceptHandler
deriving Repr, DecidableEq, Inhabited

namespace BlockKind

def all : List BlockKind := [.loop, .setupExcept, .finally, .exceptHandler]

def name : BlockKind → String
  | .loop => "Loop"
  | .setupExcept => "SetupExcept"
  | .finally => "Finally"
  | .exceptHandler => "ExceptHandler"

def ofName? (name : String) : Option BlockKind :=
  all.find? (·.name == name)

end BlockKind

/-- What can be observed of a run. Depths are those after the event. -/
inductive Event where
  /-- An instruction is about to be executed. -/
  | instruction (offset : Nat) (opcode : Opcode) (stackDepth frameDepth : Nat)
  | call (code : String) (depth : Nat)
  | return (depth : Nat)
  | blockPush (kind : BlockKind) (depth : Nat)
  | blockPop (kind : BlockKind) (depth : Nat)
  /-- An exception starts to propagate in the running frame. -/
  | exception (kind : ExceptionKind) (frameDepth : Nat)
  | makeFunction (defaults : Nat)
deriving Repr, DecidableEq, Inhabited

end BlockVM
