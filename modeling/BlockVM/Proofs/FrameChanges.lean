import BlockVM.Proofs.InstructionBudgets
import BlockVM.Proofs.InternalFaults

namespace BlockVM

/-! What a run does to its frames, turn by turn: it stays within the running frame, enters a callee or
goes back to a caller. All frames but the running one are left alone. -/

/-- The depth of each frame is the number of frames up to it. -/
def Numbered : List Frame → Prop
  | [] => True
  | frame :: callers => frame.depth = callers.length + 1 ∧ Numbered callers

@[simp] theorem Tracker.count_limits (tracker : Tracker) : tracker.count.limits = tracker.limits := by
  cases tracker <;> rfl

namespace Machine

theorem fetch_anchored {a after : Active} {result : Except Fault (Instruction Value)}
    (fetched : fetch a = (result, after)) : a.Anchored after := by
  have fetches := fetch_fetches a
  rw [fetched] at fetches
  cases fetches with
  | refused fatal => exact .of_frame rfl rfl
  | decoded decoded counted same =>
      exact ⟨⟨a.frame.stack, a.frame.blocks, _, _, rfl⟩, .of_namespaces (by rw [same])⟩

end Machine

namespace Phase

/-- One step of a run whose host only looks on: between two instructions it changes neither the heap
nor a limit. -/
inductive Turn : Phase → Phase → Prop where
  | dispatch (machine : Machine) (ends : ∀ world, machine.dispatch ≠ .resting (.unending world)) :
      Turn (.resting (.running machine)) machine.dispatch
  | signal (passage : Passage) : Turn (.passing passage) passage.step
  | host {change : World → World} (machine : Machine)
      (heap : (change machine.active.world).heap = machine.active.world.heap)
      (limits : (change machine.active.world).tracker.limits = machine.active.world.tracker.limits) :
      Turn (.resting (.running machine)) (.resting ((Status.running machine).mapWorld change))

def Runs : Phase → Phase → Prop :=
  Relation.ReflTransGen Turn

theorem Runs.advance {status : Status} {fuel : Nat} (ends : ∀ world, status.advance fuel ≠ .unending world) :
    Runs (.resting status) (.resting (status.advance fuel)) :=
  reflTransGen_advance Turn.signal Turn.dispatch ends

/-- The running frame with the world around it, and the frames below. -/
inductive Holds : Phase → Active → List Frame → Prop where
  | running (a : Active) (callers : List Frame) : Holds (.resting (.running ⟨a, callers⟩)) a callers
  | passing (signal : Signal) (a : Active) (callers : List Frame) : Holds (.passing ⟨signal, a, callers⟩) a callers

namespace Holds

variable {phase : Phase} {a : Active} {callers : List Frame}

theorem frames (holds : phase.Holds a callers) : phase.frames = a.frame :: callers := by
  cases holds <;> rfl

theorem world (holds : phase.Holds a callers) : phase.world = a.world := by
  cases holds <;> rfl

theorem unique {b : Active} {others : List Frame} (holds : phase.Holds a callers)
    (same : phase.Holds b others) : b = a ∧ others = callers := by
  cases holds <;> cases same <;> exact ⟨rfl, rfl⟩

end Holds

inductive Shifts (before : Phase) : Phase → Prop where
  | within {after : Phase} {a b : Active} {callers : List Frame} (held : before.Holds a callers)
      (holds : after.Holds b callers) (anchored : a.Anchored b) : Shifts before after
  | into {machine : Machine} {instruction : Instruction Value} {a b : Active} {callee : Frame} {count : Nat}
      (running : before = .resting (.running machine))
      (fetched : Machine.fetch machine.active = (.ok instruction, a))
      (opcode : instruction.opcode = .callFunction) (operand : instruction.operand = .int count)
      (calls : a.Calls count callee b) (anchored : a.Anchored b) :
      Shifts before (.resting (.running ⟨{ b with frame := callee }, b.frame :: machine.callers⟩))
  | back {passage : Passage} {after : Phase} {b : Active} {caller : Frame} {rest : List Frame}
      (passing : before = .passing passage) (empty : passage.active.frame.blocks = [])
      (waiting : passage.callers = caller :: rest) (exits : passage.Exits after) (holds : after.Holds b rest)
      (resumed : ∃ stack, b.frame = { caller with stack })
      (spared : b.world.heap.namespaces = passage.active.world.heap.namespaces) : Shifts before after
  | finished {passage : Passage} {after : Phase} (passing : before = .passing passage)
      (last : passage.callers = []) (ended : after.frames = []) : Shifts before after

theorem dispatch_shifts {machine : Machine} (ends : ∀ world, machine.dispatch ≠ .resting (.unending world)) :
    (Phase.resting (.running machine)).Shifts machine.dispatch := by
  have dispatches := machine.dispatch_dispatches
  generalize machine.dispatch = after at dispatches ends
  cases dispatches with
  | refused fetched =>
      exact .within (.running _ _) (.passing _ _ _)
        ((Machine.fetch_anchored fetched).trans (Active.raise_anchored machine.callers _ _))
  | unending fetched works => exact absurd rfl (ends _)
  | executed fetched works leads =>
      have executed := (Machine.fetch_anchored fetched).trans works.anchored
      cases leads with
      | onward => exact .within (.running _ _) (.running _ _) executed
      | interrupted _ _ _ anchored => exact .within (.running _ _) (.passing _ _ _) (executed.trans anchored)
  | called fetched works opcode operand calls => exact .into rfl fetched opcode operand calls works.anchored

theorem leave_shifts {passage : Passage} (empty : passage.active.frame.blocks = []) :
    (Phase.passing passage).Shifts passage.leave := by
  cases homeless : Passage.homeless? passage.signal with
  | some fault =>
      rw [Passage.leave_homeless homeless]
      exact .within (.passing _ _ _) (.passing _ _ _) (Active.raise_anchored passage.callers fault _)
  | none =>
      have exits := Passage.leave_exits homeless
      generalize passage.leave = after at exits
      have left := exits
      cases exits with
      | finished last | failed last => exact .finished rfl last rfl
      | returned waiting returns pushed spared =>
          exact .back rfl empty waiting left (.running _ _) ⟨_, pushed⟩ spared
      | @escaped raised onward caller rest b waiting raises same resumed spared =>
          exact .back rfl empty waiting left (.passing _ _ _) ⟨caller.stack, resumed⟩ spared

theorem signal_shifts (passage : Passage) : (Phase.passing passage).Shifts passage.step := by
  have advances := passage.step_advances
  generalize passage.step = after at advances
  cases advances with
  | @absorbed block rest after standing met =>
      have anchored := passage.active.meet_anchored passage.callers block rest passage.signal
      rw [met] at anchored
      exact .within (.passing _ _ _) (.running _ _) anchored
  | @passed block rest onward after standing met =>
      have anchored := passage.active.meet_anchored passage.callers block rest passage.signal
      rw [met] at anchored
      exact .within (.passing _ _ _) (.passing _ _ _) anchored
  | left empty left => exact left ▸ leave_shifts empty

namespace Turn

variable {before after : Phase}

theorem shifts (turn : Turn before after) : before.Shifts after := by
  cases turn with
  | dispatch machine ends => exact dispatch_shifts ends
  | signal passage => exact signal_shifts passage
  | @host change machine heap limits =>
      obtain ⟨⟨world, frame, recovered⟩, callers⟩ := machine
      exact .within (.running _ _) (.running _ _) (.of_frame rfl (congrArg Heap.namespaces heap))

theorem limits (turn : Turn before after) : after.world.tracker.limits = before.world.tracker.limits := by
  cases turn with
  | dispatch machine ends =>
      rw [machine.dispatch_tracker, Tracker.count_limits]
      rfl
  | signal passage =>
      rw [passage.step_quiet.tracker]
      rfl
  | host machine heap limits => exact limits

end Turn

end Phase

end BlockVM
