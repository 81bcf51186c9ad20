import BlockVM.Machine.Execute

namespace BlockVM

/-! The machine: one step executes one instruction, or ends in the resolution of a signal. -/

structure Machine where
  active : Active
  /-- The suspended frames, the caller of the running one first. -/
  callers : List Frame

inductive Status where
  | running (machine : Machine)
  | finished (outcome : Except Raised Value) (world : World)
  /-- An operation on values never comes to an end. -/
  | unending (world : World)

namespace Machine

/-- Carries a signal outward until a block absorbs it or the root frame ends. A frame that returns
leaves its value to its caller; an exception is resolved in the caller in turn. -/
def settle : List Frame → Signal → Active → Status
  | [], signal, a =>
      match a.resolve [] signal with
      | .absorbed a => .running ⟨a, []⟩
      | .escaped exit a =>
          let a := a.emit (.return (a.frame.depth - 1))
          match exit with
          | .returned value => .finished (.ok value) a.world
          | .raised raised =>
              let (raised, heap) := raised.leave a.frame a.world.heap
              .finished (.error raised) (a.setHeap heap).world
  | caller :: rest, signal, a =>
      match a.resolve (caller :: rest) signal with
      | .absorbed a => .running ⟨a, caller :: rest⟩
      | .escaped exit a =>
          let a := a.emit (.return (a.frame.depth - 1))
          match exit with
          | .returned value =>
              .running ⟨{ a with frame := caller.push value, recovered := none }, rest⟩
          | .raised raised =>
              let (raised, heap) := raised.leave a.frame a.world.heap
              let a := { a.setHeap heap with frame := caller }
              settle rest (.raise raised) (a.announce raised)

end Machine

/-- A signal under way in the running frame. -/
structure Passage where
  signal : Signal
  active : Active
  /-- The suspended frames, the caller of the running one first. -/
  callers : List Frame

/-- Where a run stands: before an instruction or at its end, or with a signal under way. -/
inductive Phase where
  | resting (status : Status)
  | passing (passage : Passage)

namespace Phase

/-- Lets a signal under way come to rest. -/
def settle : Phase → Status
  | .resting status => status
  | .passing passage => Machine.settle passage.callers passage.signal passage.active

end Phase

namespace Machine

/-- Raises the exception of a fault in the running frame. -/
def raise (callers : List Frame) (fault : Fault) (a : Active) : Phase :=
  let (raised, a) := a.raise callers fault
  .passing ⟨.raise raised, a, callers⟩

/-- What an effect leads to. -/
def follow (callers : List Frame) (effect : Effect) (a : Active) : Phase :=
  match effect with
  | .next => .resting (.running ⟨a, callers⟩)
  | .interrupt signal => .passing ⟨signal, a, callers⟩
  | .propagate raised => .passing ⟨.raise raised, a.announce raised, callers⟩
  | .throw exception =>
      let (raised, a) := a.throw callers exception
      .passing ⟨.raise raised, a, callers⟩
  | .rethrow =>
      match handled? a.world.heap (a.frame :: callers) with
      | some (raised, heap) => .passing ⟨.raise raised, (a.setHeap heap).announce raised, callers⟩
      | none =>
          match a.recovered with
          | some raised => .passing ⟨.raise raised, a.announce raised, callers⟩
          | none => raise callers .noActiveException a
  | .call callee => .resting (.running ⟨{ a with frame := callee }, a.frame :: callers⟩)

/-- Counts the next instruction and decodes it, if the tracker admits it. -/
def fetch : Active → Except Fault (Instruction Value) × Active
  | ⟨world, frame, recovered⟩ =>
      let world := { world with tracker := world.tracker.count }
      match world.tracker.refusal? with
      | some error => (.error (.limit error), ⟨world, frame, recovered⟩)
      | none =>
          match frame.code.decodeAt frame.ip with
          | .error fault => (.error fault, ⟨world, frame, recovered⟩)
          | .ok instruction =>
              let frame := { frame with lastOffset := instruction.offset, ip := instruction.next }
              let world := world.emit
                (.instruction instruction.offset instruction.opcode frame.stack.length frame.depth)
              (.ok instruction, ⟨world, frame, recovered⟩)

/-- Executes the next instruction, up to a signal. -/
def dispatch : Machine → Phase
  | ⟨active, callers⟩ =>
      match fetch active with
      | (.error fault, a) => raise callers fault a
      | (.ok instruction, a) =>
          match execute instruction.opcode instruction.operand a with
          | .ok effect a => follow callers effect a
          | .error (.raised fault) a => raise callers fault a
          | .error .unending a => .resting (.unending a.world)

/-- Executes the next instruction and lets its signal come to rest. -/
def step (machine : Machine) : Status :=
  machine.dispatch.settle

end Machine

namespace Status

/-- Takes at most `fuel` steps. -/
def advance : Nat → Status → Status
  | fuel + 1, .running machine => advance fuel machine.step
  | _, status => status

def world : Status → World
  | .running machine => machine.active.world
  | .finished _ world => world
  | .unending world => world

/-- Changes the world between two steps. -/
def mapWorld (change : World → World) : Status → Status
  | .running ⟨⟨world, frame, recovered⟩, callers⟩ =>
      .running ⟨⟨change world, frame, recovered⟩, callers⟩
  | .finished outcome world => .finished outcome (change world)
  | .unending world => .unending (change world)

theorem advance_zero (status : Status) : status.advance 0 = status := by
  cases status <;> rfl

theorem advance_add (steps fuel : Nat) (status : Status) :
    status.advance (steps + fuel) = (status.advance steps).advance fuel := by
  induction steps generalizing status with
  | zero => rw [Nat.zero_add, advance_zero]
  | succ steps ih =>
      rw [Nat.succ_add]
      cases status with
      | running machine => exact ih machine.step
      | finished outcome world | unending world => cases fuel <;> rfl

theorem advance_finished (fuel : Nat) (outcome : Except Raised Value) (world : World) :
    advance fuel (.finished outcome world) = .finished outcome world := by
  cases fuel <;> rfl

end Status

end BlockVM
