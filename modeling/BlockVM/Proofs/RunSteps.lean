import Mathlib.Logic.Relation
import BlockVM.Machine.Run
import BlockVM.Proofs.Instructions
import BlockVM.Proofs.Passage

namespace BlockVM

namespace Code

variable {α : Type} {code : Code α} {offset : Nat}

theorem lookup_error {β : Type} {table : Table} {entries : List β} {index : Nat} {fault : Fault}
    (failed : code.lookup table entries index = .error fault) : fault.kind.isFatal = true := by
  unfold lookup at failed
  split at failed
  · cases failed
  · cases failed
    rfl

theorem resolve_error {operandClass : OperandClass} {next index : Nat} {fault : Fault}
    (failed : code.resolve operandClass next index = .error fault) : fault.kind.isFatal = true := by
  have mapped {β γ : Type} {table : Table} {entries : List β} {wrap : β → γ}
      (failed : (code.lookup table entries index).map wrap = .error fault) : fault.kind.isFatal = true := by
    cases found : code.lookup table entries index with
    | ok entry => rw [found] at failed; cases failed
    | error other =>
        rw [found] at failed
        cases failed
        exact lookup_error found
  cases operandClass with
  | const | name | slot => exact mapped failed
  | none | jumpRelative | jumpAbsolute | int => cases failed

theorem resolve_fits {operandClass : OperandClass} {next index : Nat} {operand : Operand α}
    (resolved : code.resolve operandClass next index = .ok operand) : operand.Fits operandClass := by
  have found {β : Type} {table : Table} {entries : List β} {wrap : β → Operand α}
      (resolved : (code.lookup table entries index).map wrap = .ok operand) : ∃ entry, operand = wrap entry := by
    cases looked : code.lookup table entries index with
    | ok entry => rw [looked] at resolved; cases resolved; exact ⟨entry, rfl⟩
    | error fault => rw [looked] at resolved; cases resolved
  cases operandClass with
  | const => obtain ⟨entry, rfl⟩ := found resolved; exact .const entry
  | name => obtain ⟨entry, rfl⟩ := found resolved; exact .name entry
  | slot => obtain ⟨entry, rfl⟩ := found resolved; exact .slot entry
  | none => cases resolved; exact .none
  | jumpRelative => cases resolved; exact .relative _
  | jumpAbsolute => cases resolved; exact .absolute _
  | int => cases resolved; exact .int _

inductive Decodes (code : Code α) (offset : Nat) : Except Fault (Instruction α) → Prop where
  | failed {fault : Fault} (fatal : fault.kind.isFatal = true) : Decodes code offset (.error fault)
  | bare {opcode : Opcode} (plain : opcode.hasOperand = false) :
      Decodes code offset (.ok { opcode, offset, arg := none, operand := .none, next := offset + 1 })
  | resolved {opcode : Opcode} {arg : UInt16} {operand : Operand α}
      (resolved : code.resolve opcode.operandClass (offset + 3) arg.toNat = .ok operand) :
      Decodes code offset (.ok { opcode, offset, arg := some arg, operand, next := offset + 3 })

theorem decodeAt_decodes (code : Code α) (offset : Nat) : Decodes code offset (code.decodeAt offset) := by
  unfold decodeAt
  split
  · exact .failed rfl
  · split
    · exact .failed rfl
    · rename_i opcode _
      split
      · split
        · rename_i low high _ _
          dsimp only
          cases resolved : code.resolve opcode.operandClass (offset + 3) (littleEndian low high).toNat with
          | ok operand => exact .resolved resolved
          | error fault => exact .failed (resolve_error resolved)
        · exact .failed rfl
      · rename_i plain
        exact .bare (Bool.not_eq_true _ ▸ plain)

theorem decodeAt_error {fault : Fault} (failed : code.decodeAt offset = .error fault) :
    fault.kind.isFatal = true := by
  have decodes := code.decodeAt_decodes offset
  rw [failed] at decodes
  cases decodes
  assumption

theorem decodeAt_continue {instruction : Instruction α} {target : Nat}
    (decoded : code.decodeAt offset = .ok instruction) (continues : instruction.opcode = .continueLoop)
    (leads : instruction.operand = .jump target) : target < 2 ^ 16 := by
  have decodes := code.decodeAt_decodes offset
  rw [decoded] at decodes
  cases decodes with
  | bare plain => cases leads
  | resolved resolved =>
      subst continues leads
      cases resolved
      exact UInt16.toNat_lt _

/-- Each instruction is decoded to an operand of the sort that its opcode calls for. -/
theorem decodeAt_fits {instruction : Instruction α} (decoded : code.decodeAt offset = .ok instruction) :
    instruction.operand.Fits instruction.opcode.operandClass := by
  have decodes := code.decodeAt_decodes offset
  rw [decoded] at decodes
  cases decodes with
  | bare plain =>
      rw [Opcode.hasOperand_eq] at plain
      rw [show Opcode.operandClass _ = .none by simpa using plain]
      exact .none
  | resolved resolved => exact resolve_fits resolved

/-- An operand of an instruction takes two bytes after the opcode. -/
theorem decodeAt_next {instruction : Instruction α} (decoded : code.decodeAt offset = .ok instruction) :
    instruction.offset = offset ∧ (instruction.operand ≠ .none → instruction.next = offset + 3) := by
  have decodes := code.decodeAt_decodes offset
  rw [decoded] at decodes
  cases decodes with
  | bare plain => exact ⟨rfl, fun operand => absurd rfl operand⟩
  | resolved resolved => exact ⟨rfl, fun _ => rfl⟩

end Code

theorem Tracker.refusal?_kind {tracker : Tracker} {error : LimitError}
    (refused : tracker.refusal? = some error) : error.kind = .timeoutError := by
  have late {limits : Limits} {elapsed : Duration} (late : refusal?.overdue limits elapsed = some error) :
      error.kind = .timeoutError := by
    unfold refusal?.overdue at late
    split at late
    · split at late
      · cases late
        rfl
      · cases late
    · cases late
  unfold refusal? at refused
  split at refused
  · cases refused
  · split at refused
    · split at refused
      · cases refused
        rfl
      · exact late refused
    · exact late refused

namespace Machine

inductive Fetches (a : Active) : Except Fault (Instruction Value) × Active → Prop where
  | refused {fault : Fault} (fatal : fault.kind.isFatal = true) :
      Fetches a (.error fault, { a with world := { a.world with tracker := a.world.tracker.count } })
  | decoded {instruction : Instruction Value} {world : World}
      (decoded : a.frame.code.decodeAt a.frame.ip = .ok instruction)
      (counted : world.tracker = a.world.tracker.count) (same : world.heap = a.world.heap) :
      Fetches a (.ok instruction,
        { a with
          world
          frame := { a.frame with lastOffset := instruction.offset, ip := instruction.next } })

theorem fetch_fetches (a : Active) : Fetches a (fetch a) := by
  unfold fetch
  dsimp only
  split
  · rename_i error refused
    refine .refused ?_
    rw [Fault.kind, Tracker.refusal?_kind refused]
    rfl
  · split
    · rename_i fault failed
      exact .refused (Code.decodeAt_error failed)
    · rename_i instruction decoded
      exact .decoded decoded rfl rfl

section

variable {a after : Active} {instruction : Instruction Value} (fetched : fetch a = (.ok instruction, after))

include fetched

theorem fetch_spec : a.frame.code.decodeAt a.frame.ip = .ok instruction ∧ after.world.heap = a.world.heap ∧
    after.frame = { a.frame with ip := instruction.next, lastOffset := a.frame.ip } := by
  have fetches := fetch_fetches a
  rw [fetched] at fetches
  cases fetches with
  | decoded decoded _ same => exact ⟨decoded, same, by rw [(Code.decodeAt_next decoded).1]⟩

theorem fetch_fits : instruction.operand.Fits instruction.opcode.operandClass :=
  Code.decodeAt_fits (fetch_spec fetched).1

/-- A `continue` leads to a number of two bytes, which any word can hold. -/
theorem fetch_near (target : Nat) (continues : instruction.opcode = .continueLoop)
    (leads : instruction.operand = .jump target) : target ≤ Word.greatest := by
  have small := Code.decodeAt_continue (fetch_spec fetched).1 continues leads
  unfold Word.greatest
  omega

end

/-- Where an instruction leads that calls nothing and leaves the running frame as it is in `a`: on in
that frame, or to a signal. -/
inductive Leads (callers : List Frame) (a : Active) : Phase → Prop where
  | onward : Leads callers a (.resting (.running ⟨a, callers⟩))
  | interrupted {signal : Signal} {after : Active} (encodable : signal.Encodable)
      (same : after.frame = a.frame) (quiet : a.world.Quiet after.world) (anchored : a.Anchored after) :
      Leads callers a (.passing ⟨signal, after, callers⟩)

theorem leads_raise (callers : List Frame) (fault : Fault) (a : Active) :
    Leads callers a (raise callers fault a) :=
  .interrupted trivial (a.raise_frame callers fault) (a.raise_extends callers fault).quiet
    (a.raise_anchored callers fault)

theorem leads_follow (callers : List Frame) {effect : Effect} (plain : effect.Plain) (a : Active) :
    Leads callers a (follow callers effect a) := by
  cases effect with
  | next => exact .onward
  | interrupt signal => exact .interrupted plain rfl (.refl a.world) (.refl a)
  | propagate raised =>
      exact .interrupted trivial rfl (a.announce_extends raised).quiet (a.announce_anchored raised)
  | throw exception =>
      obtain ⟨same, _, noted⟩ := a.throw_spec callers exception
      exact .interrupted trivial same noted.quiet (a.throw_anchored callers exception)
  | rethrow =>
      unfold follow
      dsimp only
      split
      · rename_i raised heap handled
        exact .interrupted trivial rfl ((a.setHeap_extends heap).trans (Active.announce_extends raised _).quiet)
          (.of_frame rfl (handled?_namespaces handled))
      · split
        · rename_i raised _
          exact .interrupted trivial rfl (a.announce_extends raised).quiet (a.announce_anchored raised)
        · exact leads_raise callers _ a
  | call callee => cases plain

/-- What the next instruction comes to. -/
inductive Executes (machine : Machine) : Phase → Prop where
  | refused {fault : Fault} {a : Active} (fetched : fetch machine.active = (.error fault, a)) :
      Executes machine (.passing (.ofFault machine.callers fault a))
  | followed {instruction : Instruction Value} {effect : Effect} {a after : Active}
      (fetched : fetch machine.active = (.ok instruction, a))
      (run : execute instruction.opcode instruction.operand a = .ok effect after) :
      Executes machine (follow machine.callers effect after)
  | failed {instruction : Instruction Value} {fault : Fault} {a after : Active}
      (fetched : fetch machine.active = (.ok instruction, a))
      (run : execute instruction.opcode instruction.operand a = .error (.raised fault) after) :
      Executes machine (.passing (.ofFault machine.callers fault after))
  | unending {instruction : Instruction Value} {a after : Active}
      (fetched : fetch machine.active = (.ok instruction, a))
      (run : execute instruction.opcode instruction.operand a = .error .unending after) :
      Executes machine (.resting (.unending after.world))

theorem dispatch_followed {active a after : Active} {instruction : Instruction Value} {effect : Effect}
    (callers : List Frame) (fetched : fetch active = (.ok instruction, a))
    (run : execute instruction.opcode instruction.operand a = .ok effect after) :
    dispatch ⟨active, callers⟩ = follow callers effect after := by
  simp only [dispatch, fetched, run]

theorem dispatch_failed {active a after : Active} {instruction : Instruction Value} {fault : Fault}
    (callers : List Frame) (fetched : fetch active = (.ok instruction, a))
    (run : execute instruction.opcode instruction.operand a = .error (.raised fault) after) :
    dispatch ⟨active, callers⟩ = .passing (.ofFault callers fault after) := by
  simp only [dispatch, fetched, run, Passage.raise_eq]

theorem dispatch_unending {active a after : Active} {instruction : Instruction Value}
    (callers : List Frame) (fetched : fetch active = (.ok instruction, a))
    (run : execute instruction.opcode instruction.operand a = .error .unending after) :
    dispatch ⟨active, callers⟩ = .resting (.unending after.world) := by
  simp only [dispatch, fetched, run]

theorem dispatch_executes (machine : Machine) : machine.Executes machine.dispatch := by
  obtain ⟨active, callers⟩ := machine
  rcases fetched : fetch active with ⟨fault | instruction, a⟩
  · have dispatched : dispatch ⟨active, callers⟩ = .passing (.ofFault callers fault a) := by
      simp only [dispatch, fetched, Passage.raise_eq]
    exact dispatched ▸ .refused fetched
  · cases run : execute instruction.opcode instruction.operand a with
    | ok effect after => exact dispatch_followed callers fetched run ▸ .followed fetched run
    | error failure after =>
        cases failure with
        | raised fault => exact dispatch_failed callers fetched run ▸ .failed fetched run
        | unending => exact dispatch_unending callers fetched run ▸ .unending fetched run

inductive Dispatches (machine : Machine) : Phase → Prop where
  | refused {fault : Fault} {a : Active} (fetched : fetch machine.active = (.error fault, a)) :
      Dispatches machine (.passing (.ofFault machine.callers fault a))
  | unending {instruction : Instruction Value} {a after : Active}
      (fetched : fetch machine.active = (.ok instruction, a)) (works : a.Works instruction.opcode after) :
      Dispatches machine (.resting (.unending after.world))
  | executed {instruction : Instruction Value} {a after : Active} {phase : Phase}
      (fetched : fetch machine.active = (.ok instruction, a)) (works : a.Works instruction.opcode after)
      (leads : Leads machine.callers after phase)
      (left : Leaves (· = after) (execute instruction.opcode instruction.operand a)) : Dispatches machine phase
  | called {instruction : Instruction Value} {a after : Active} {callee : Frame} {count : Nat}
      (fetched : fetch machine.active = (.ok instruction, a)) (works : a.Works instruction.opcode after)
      (opcode : instruction.opcode = .callFunction) (operand : instruction.operand = .int count)
      (calls : a.Calls count callee after) :
      Dispatches machine (.resting (.running ⟨{ after with frame := callee }, after.frame :: machine.callers⟩))

theorem dispatch_dispatches (machine : Machine) : machine.Dispatches machine.dispatch := by
  have executes := machine.dispatch_executes
  generalize machine.dispatch = reached at executes
  cases executes with
  | refused fetched => exact .refused fetched
  | @followed instruction effect a after fetched run =>
      have works := (execute_works (fetch_fits fetched)).keeps a
      rw [run] at works
      rcases execute_effect (fetch_near fetched) run with plain | ⟨count, callee, opcode, operand, rfl, calls⟩
      · exact .executed fetched works (leads_follow machine.callers plain after) (run ▸ rfl)
      · exact .called fetched works opcode operand calls
  | @failed instruction fault a after fetched run =>
      have works := (execute_works (fetch_fits fetched)).keeps a
      rw [run] at works
      exact .executed fetched works.2 (leads_raise machine.callers fault after) (run ▸ ⟨works.1, rfl⟩)
  | @unending instruction a after fetched run =>
      have works := (execute_works (fetch_fits fetched)).keeps a
      rw [run] at works
      exact .unending fetched works.2

/-- An instruction that never ends would show in the status. -/
theorem dispatch_ends {machine : Machine} {fuel : Nat}
    (ends : ∀ world, (Status.running machine).advance (fuel + 1) ≠ .unending world) (world : World) :
    machine.dispatch ≠ .resting (.unending world) := by
  intro stuck
  have stepped : machine.step = .unending world := by rw [step, stuck, Phase.settle]
  apply ends world
  rw [Status.advance, stepped]
  cases fuel <;> rfl

end Machine

namespace Phase

/-- One step of a run. Between two instructions the host may change the world, as when it reports the
time or takes out what was printed; an instruction that never ends is no step. -/
inductive Step : Phase → Phase → Prop where
  | dispatch (machine : Machine) (ends : ∀ world, machine.dispatch ≠ .resting (.unending world)) :
      Step (.resting (.running machine)) machine.dispatch
  | signal (passage : Passage) : Step (.passing passage) passage.step
  | host (change : World → World) (machine : Machine) :
      Step (.resting (.running machine)) (.resting ((Status.running machine).mapWorld change))

def Reaches : Phase → Phase → Prop :=
  Relation.ReflTransGen Step

/-- The frames of a run, the running one first. -/
def frames : Phase → List Frame
  | .resting (.running machine) => machine.active.frame :: machine.callers
  | .resting _ => []
  | .passing passage => passage.active.frame :: passage.callers

section

variable {relation : Phase → Phase → Prop} (signal : ∀ passage, relation (.passing passage) passage.step)

include signal

theorem reflTransGen_proceed (phase : Phase) (steps : Nat) :
    Relation.ReflTransGen relation phase (proceed^[steps] phase) := by
  induction steps with
  | zero => exact .refl
  | succ steps ih =>
      rw [Function.iterate_succ_apply']
      cases arrived : proceed^[steps] phase with
      | resting status => rwa [arrived] at ih
      | passing passage =>
          rw [arrived] at ih
          exact ih.tail (signal passage)

theorem reflTransGen_settle (phase : Phase) : Relation.ReflTransGen relation phase (.resting phase.settle) := by
  cases phase with
  | resting status => exact .refl
  | passing passage =>
      obtain ⟨steps, _, rested⟩ := passage.exists_resting
      exact rested ▸ reflTransGen_proceed signal (.passing passage) steps

/-- A run comes by what it comes to in any number of steps, short of an operation that never ends. -/
theorem reflTransGen_advance {status : Status} {fuel : Nat}
    (dispatch : ∀ machine : Machine, (∀ world, machine.dispatch ≠ .resting (.unending world)) →
      relation (.resting (.running machine)) machine.dispatch)
    (ends : ∀ world, status.advance fuel ≠ .unending world) :
    Relation.ReflTransGen relation (.resting status) (.resting (status.advance fuel)) := by
  induction fuel generalizing status with
  | zero => cases status <;> exact .refl
  | succ fuel ih =>
      cases status with
      | finished outcome world | unending world => exact .refl
      | running machine =>
          have dispatched : Relation.ReflTransGen relation (.resting (.running machine)) machine.dispatch :=
            .single (dispatch machine (Machine.dispatch_ends ends))
          exact (dispatched.trans (reflTransGen_settle signal machine.dispatch)).trans (ih ends)

end

namespace Reaches

variable {first second : Phase}

theorem preserves {invariant : Phase → Prop} (reached : Reaches first second)
    (kept : ∀ before after, Step before after → invariant before → invariant after)
    (initially : invariant first) : invariant second := by
  induction reached with
  | refl => exact initially
  | tail _ stepped ih => exact kept _ _ stepped ih

theorem settle (phase : Phase) : Reaches phase (.resting phase.settle) :=
  reflTransGen_settle Step.signal phase

theorem advance {status : Status} {fuel : Nat} (ends : ∀ world, status.advance fuel ≠ .unending world) :
    Reaches (.resting status) (.resting (status.advance fuel)) :=
  reflTransGen_advance Step.signal Step.dispatch ends

end Reaches

def Encodable : Phase → Prop
  | .passing passage => passage.signal.Encodable
  | .resting _ => True

end Phase

theorem Passage.leave_encodable (passage : Passage) : passage.leave.Encodable := by
  obtain ⟨signal, a, callers⟩ := passage
  cases signal <;> cases callers <;> trivial

theorem Passage.step_encodable {passage : Passage} (encodable : passage.signal.Encodable) :
    passage.step.Encodable := by
  have advances := passage.step_advances
  generalize passage.step = next at advances
  cases advances with
  | absorbed standing met => trivial
  | passed standing met =>
      obtain ⟨_, _, carried | ⟨raised, rfl, _⟩⟩ := Active.meet_passed met
      · exact carried.encodable encodable
      · trivial
  | left empty left => exact left ▸ passage.leave_encodable

namespace Phase

theorem Step.encodable {before after : Phase} (stepped : Step before after)
    (encodable : before.Encodable) : after.Encodable := by
  cases stepped with
  | dispatch machine _ =>
      have dispatches := machine.dispatch_dispatches
      generalize machine.dispatch = after at dispatches
      cases dispatches with
      | refused _ | unending _ _ | called _ _ _ _ _ => trivial
      | executed _ _ leads =>
          cases leads with
          | onward => trivial
          | interrupted encodable _ _ _ => exact encodable
  | signal passage => exact Passage.step_encodable encodable
  | host change machine => trivial

/-- Every signal of a run can be noted by a `finally` block. -/
theorem Reaches.encodable {status : Status} {phase : Phase} (reached : Reaches (.resting status) phase) :
    phase.Encodable :=
  reached.preserves (fun _ _ => Step.encodable) trivial

end Phase

end BlockVM
