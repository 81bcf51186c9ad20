import BlockVM.Proofs.RunSteps

namespace BlockVM

/-! No run comes upon an internal fault. Each step either goes on or raises a fault, and only a machine
in disorder would raise an internal one. -/

theorem Machine.fetch_errs (a : Active) : Errs Fault.Ordinary (fetch a).1 := by
  unfold fetch
  dsimp only
  split
  · exact rfl
  · have decoded := a.frame.code.decodeAt_errs a.frame.ip
    split
    · rename_i fault failed
      rw [failed] at decoded
      exact decoded
    · trivial

/-- Where a frame goes on once the block has absorbed a signal. The block of a running handler absorbs
none. -/
def Block.target? : Block → Option Nat
  | .loop exit _ => some exit
  | .setupExcept handler _ => some handler
  | .finally handler _ => some handler
  | .exceptHandler _ => none

theorem Block.target?_isSome (block : Block) : block.target?.isSome = true ↔ block.kind ≠ .exceptHandler := by
  cases block <;> simp [target?, kind]

theorem Frame.absorbed_ip {block : Block} {signal : Signal} (frame : Frame)
    (absorbs : block.absorbs signal = true) (leaves : block.stays signal = false) :
    block.target? = some (frame.absorbed block signal).ip := by
  cases block with
  | exceptHandler depth => cases absorbs
  | loop exit depth =>
      cases signal with
      | «break» => rfl
      | «continue» target => cases leaves
      | «return» value | «raise» raised => cases absorbs
  | setupExcept handler depth =>
      cases signal with
      | «raise» raised => rfl
      | «return» value | «break» | «continue» target => cases absorbs
  | «finally» handler depth => cases signal <;> rfl

namespace Passage

/-- How a signal leaves a frame that has no block left. -/
inductive Exits (passage : Passage) : Phase → Prop where
  | finished {value : Value} {world : World} (last : passage.callers = [])
      (returns : passage.signal = .return value) : Exits passage (.resting (.finished (.ok value) world))
  | returned {value : Value} {caller : Frame} {rest : List Frame} {after : Active}
      (waiting : passage.callers = caller :: rest) (returns : passage.signal = .return value)
      (pushed : after.frame = caller.push value)
      (spared : after.world.heap.namespaces = passage.active.world.heap.namespaces) :
      Exits passage (.resting (.running ⟨after, rest⟩))
  | failed {raised final : Raised} {world : World} (last : passage.callers = [])
      (raises : passage.signal = .raise raised) (same : final.exception = raised.exception) :
      Exits passage (.resting (.finished (.error final) world))
  | escaped {raised onward : Raised} {caller : Frame} {rest : List Frame} {after : Active}
      (waiting : passage.callers = caller :: rest) (raises : passage.signal = .raise raised)
      (same : onward.exception = raised.exception) (resumed : after.frame = caller)
      (spared : after.world.heap.namespaces = passage.active.world.heap.namespaces) :
      Exits passage (.passing ⟨.raise onward, after, rest⟩)

/-- Without a loop, `break` and `continue` turn into faults. -/
def homeless? : Signal → Option Fault
  | .break => some .breakOutsideLoop
  | .continue _ => some .continueOutsideLoop
  | .return _ | .raise _ => none

theorem leave_exits {passage : Passage} (leaves : homeless? passage.signal = none) :
    passage.Exits passage.leave := by
  obtain ⟨signal, a, callers⟩ := passage
  cases signal with
  | «break» | «continue» target => cases leaves
  | «return» value =>
      cases callers with
      | nil => exact .finished rfl rfl
      | cons caller rest => exact .returned rfl rfl rfl rfl
  | «raise» raised =>
      cases callers with
      | nil => exact .failed rfl rfl rfl
      | cons caller rest => exact .escaped rfl rfl rfl rfl rfl

theorem leave_homeless {passage : Passage} {fault : Fault} (homeless : homeless? passage.signal = some fault) :
    passage.leave = .passing (.ofFault passage.callers fault passage.active) := by
  obtain ⟨signal, a, callers⟩ := passage
  cases signal with
  | «break» | «continue» target => cases homeless; rfl
  | «return» value | «raise» raised => cases homeless

end Passage

namespace Phase

/-- A step that raises a fault. -/
inductive Raises : Phase → Fault → Phase → Prop where
  | fetching {machine : Machine} {fault : Fault} {a : Active}
      (failed : Machine.fetch machine.active = (.error fault, a)) :
      Raises (.resting (.running machine)) fault (.passing (.ofFault machine.callers fault a))
  | executing {machine : Machine} {instruction : Instruction Value} {fault : Fault} {a after : Active}
      (fetched : Machine.fetch machine.active = (.ok instruction, a))
      (failed : execute instruction.opcode instruction.operand a = .error (.raised fault) after) :
      Raises (.resting (.running machine)) fault (.passing (.ofFault machine.callers fault after))
  | releasing {passage : Passage} {block : Block} {rest : List Block} {fault : Fault} {off left : Active}
      (standing : passage.active.frame.blocks = block :: rest)
      (failed : { passage.active with frame := { passage.active.frame with blocks := rest } }.release block =
        (.error fault, off)) :
      Raises (.passing passage) fault (.passing (.ofFault passage.callers fault left))
  | noting {passage : Passage} {target : Nat} {left : Active} (continues : passage.signal = .continue target)
      (far : Word.greatest < target) :
      Raises (.passing passage) .continueTooFar (.passing (.ofFault passage.callers .continueTooFar left))
  | leaving {passage : Passage} {fault : Fault} (empty : passage.active.frame.blocks = [])
      (homeless : Passage.homeless? passage.signal = some fault) :
      Raises (.passing passage) fault (.passing (.ofFault passage.callers fault passage.active))

/-- A step that goes on: the effect of an instruction follows, a block absorbs a signal or lets it pass,
or the signal leaves its frame. -/
inductive Proceeds : Phase → Phase → Prop where
  | followed {machine : Machine} {instruction : Instruction Value} {effect : Effect} {a after : Active}
      (fetched : Machine.fetch machine.active = (.ok instruction, a))
      (run : execute instruction.opcode instruction.operand a = .ok effect after) :
      Proceeds (.resting (.running machine)) (Machine.follow machine.callers effect after)
  | observed (change : World → World) (machine : Machine) :
      Proceeds (.resting (.running machine)) (.resting ((Status.running machine).mapWorld change))
  | absorbed {passage : Passage} {block : Block} {rest : List Block} {after : Active}
      (standing : passage.active.frame.blocks = block :: rest)
      (place : block.target? = some after.frame.ip ∨ passage.signal = .continue after.frame.ip) :
      Proceeds (.passing passage) (.resting (.running ⟨after, passage.callers⟩))
  | passed {passage : Passage} {block : Block} {rest : List Block} {onward : Signal} {after : Active}
      (standing : passage.active.frame.blocks = block :: rest) (below : after.frame.blocks = rest)
      (carried : passage.signal.Carried onward) :
      Proceeds (.passing passage) (.passing ⟨onward, after, passage.callers⟩)
  | left {passage : Passage} {next : Phase} (empty : passage.active.frame.blocks = [])
      (exits : passage.Exits next) : Proceeds (.passing passage) next

theorem dispatch_proceeds {machine : Machine} (ends : ∀ world, machine.dispatch ≠ .resting (.unending world)) :
    Proceeds (.resting (.running machine)) machine.dispatch ∨
      ∃ fault, Raises (.resting (.running machine)) fault machine.dispatch := by
  have executes := machine.dispatch_executes
  generalize machine.dispatch = reached at executes ends
  cases executes with
  | refused fetched => exact .inr ⟨_, .fetching fetched⟩
  | followed fetched run => exact .inl (.followed fetched run)
  | failed fetched run => exact .inr ⟨_, .executing fetched run⟩
  | unending fetched run => exact absurd rfl (ends _)

theorem signal_proceeds (passage : Passage) :
    Proceeds (.passing passage) passage.step ∨ ∃ fault, Raises (.passing passage) fault passage.step := by
  cases standing : passage.active.frame.blocks with
  | nil =>
      have stepped : passage.step = passage.leave := by simp only [Passage.step, standing]
      rw [stepped]
      cases homeless : Passage.homeless? passage.signal with
      | none => exact .inl (.left standing (Passage.leave_exits homeless))
      | some fault => exact .inr ⟨fault, Passage.leave_homeless homeless ▸ .leaving standing homeless⟩
  | cons block rest =>
      have meets := passage.active.meet_meets passage.callers block rest passage.signal
      simp only [Passage.step, standing]
      generalize passage.active.meet passage.callers block rest passage.signal = met at meets
      cases meets with
      | stayed continues stays => exact .inl (.absorbed standing (.inr continues))
      | @damaged fault left _ _ _ _ _ released =>
          obtain ⟨off, failed⟩ := released
          exact .inr ⟨fault, .releasing standing failed⟩
      | tooFar _ continues far _ _ => exact .inr ⟨.continueTooFar, .noting continues far⟩
      | passed _ carried _ lowered _ => exact .inl (.passed standing (by rw [lowered]; rfl) carried)
      | absorbed leaves _ carried absorbs resumed _ =>
          refine .inl (.absorbed standing (.inl ?_))
          rw [resumed]
          exact Frame.absorbed_ip _ ((carried.absorbs block).trans absorbs) ((carried.stays block).trans leaves)

/-- There is no third way for a step. -/
theorem Step.proceeds_or_raises {before after : Phase} (stepped : Step before after) :
    Proceeds before after ∨ ∃ fault, Raises before fault after := by
  cases stepped with
  | dispatch machine ends => exact dispatch_proceeds ends
  | signal passage => exact signal_proceeds passage
  | host change machine => exact .inl (.observed change machine)

theorem Raises.ordinary {before after : Phase} {fault : Fault} (raises : Raises before fault after)
    (encodable : before.Encodable) : fault.isInternal = false := by
  cases raises with
  | @fetching machine _ a failed =>
      have errs := Machine.fetch_errs machine.active
      rw [failed] at errs
      exact errs
  | @executing machine instruction _ a after fetched failed =>
      have works := (execute_works (Machine.fetch_fits fetched)).keeps a
      rw [failed] at works
      exact works.1
  | @releasing passage block rest _ off left standing failed =>
      have errs := { passage.active with frame := { passage.active.frame with blocks := rest } }.release_errs block
      rw [failed] at errs
      exact errs
  | noting continues far =>
      rw [Encodable, continues] at encodable
      exact absurd encodable (Nat.not_le.mpr far)
  | @leaving passage fault empty homeless =>
      cases signal : passage.signal <;> rw [signal] at homeless <;> cases homeless <;> rfl

end Phase

end BlockVM
