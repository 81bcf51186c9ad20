import BlockVM.Proofs.CallIsolation
import BlockVM.Proofs.StackConsumption

namespace BlockVM

/-! The footprint of an instruction on the data stack: how many values it needs there, how many it takes
off and how many it puts on. It depends on the opcode, the number that follows it and, for some jumps, on
the branch taken, but never on the values. -/

namespace Opcode

variable {opcode : Opcode} {operand : Operand Value} {count : Nat} {a : Active}

end Opcode

namespace Exec

variable {opcode : Opcode} {operand : Operand Value} {count target : Nat} {a : Active}

theorem thenNext_get {next : Active → Exec Unit} : thenNext (get >>= next) a = thenNext (next a) a := rfl

theorem thenNext_ok {operation : Exec Unit} {after : Active} (run : operation a = .ok () after) :
    thenNext operation a = .ok .next after := by
  change EStateM.bind operation _ a = _
  rw [EStateM.bind, run]
  rfl

theorem thenNext_error {operation : Exec Unit} {failure : Failure} {after : Active}
    (run : operation a = .error failure after) : thenNext operation a = .error failure after := by
  change EStateM.bind operation _ a = _
  rw [EStateM.bind, run]

end Exec

theorem Act.Fails.refused {world : World} {fault : Fault} (fails : Fails world (.raised fault))
    (kind : fault.kind = .stackUnderflow) : ∃ error, fault = .sink error ∧ world.sink.Refused error := by
  cases fails with
  | offStack off => exact absurd kind (Fault.OffStack.kind off)
  | sink refused => exact ⟨_, rfl, refused⟩

/-- The number that follows the opcode. -/
def Instruction.count (instruction : Instruction Value) : Nat :=
  (instruction.arg.getD 0).toNat

namespace Machine

variable {machine : Machine} {instruction : Instruction Value} {a after : Active} {callee : Frame}

end Machine

end BlockVM
