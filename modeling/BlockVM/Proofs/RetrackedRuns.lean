import BlockVM.Proofs.InstructionBudgets
import BlockVM.Proofs.Retracking

namespace BlockVM

/-! Runs under another tracker. Signals, instructions and steps do the same in a world and in the retracked world.
The one place that looks further is the fetching of an instruction, which asks the tracker to admit it. -/

namespace Retracking

variable (retracking : Retracking)

def encounter : Encounter → Encounter
  | .absorbed a => .absorbed (retracking.active a)
  | .passed signal a => .passed signal (retracking.active a)

def resolution : Resolution → Resolution
  | .absorbed a => .absorbed (retracking.active a)
  | .escaped exit a => .escaped exit (retracking.active a)

def phase : Phase → Phase
  | .resting status => .resting (status.mapWorld retracking.world)
  | .passing ⟨signal, a, callers⟩ => .passing ⟨signal, retracking.active a, callers⟩

end Retracking

namespace Active

variable (retracking : Retracking)

theorem emit_retracking (event : Event) (a : Active) :
    (retracking.active a).emit event = retracking.active (a.emit event) := by
  simp only [emit, Retracking.active, retracking.world_emit]

theorem announce_retracking (raised : Raised) (a : Active) :
    (retracking.active a).announce raised = retracking.active (a.announce raised) := by
  have emitted := emit_retracking retracking (.exception raised.kind a.frame.depth) a
  simp only [announce, Retracking.active] at emitted ⊢
  rw [emitted]

theorem throw_retracking (callers : List Frame) (exception : ExceptionObject) (a : Active) :
    (retracking.active a).throw callers exception =
      ((a.throw callers exception).1, retracking.active (a.throw callers exception).2) := by
  have heap : (retracking.active a).world.heap = a.world.heap := rfl
  have frame : (retracking.active a).frame = a.frame := rfl
  unfold throw
  rw [heap, frame]
  cases handled? a.world.heap (a.frame :: callers) with
  | none => exact congrArg (Prod.mk _) (announce_retracking retracking _ a)
  | some found =>
      obtain ⟨handled, restored⟩ := found
      dsimp only
      split
      · exact congrArg (Prod.mk _) (announce_retracking retracking _ (a.setHeap restored))
      · exact congrArg (Prod.mk _) (announce_retracking retracking _ (withContext _ exception (a.setHeap restored)).2)

theorem raise_retracking (callers : List Frame) (fault : Fault) (a : Active) :
    (retracking.active a).raise callers fault =
      ((a.raise callers fault).1, retracking.active (a.raise callers fault).2) :=
  throw_retracking retracking callers _ (a.setHeap a.world.heap.fresh.2)

theorem restore_retracking (restored : Raised) (signal : Signal) (a : Active) :
    (retracking.active a).restore restored signal =
      ((a.restore restored signal).1, retracking.active (a.restore restored signal).2) := by
  cases signal with
  | raise raised =>
      unfold restore
      dsimp only
      split <;> rfl
  | _ => rfl

theorem enterHandler_retracking (handler : Nat) (raised : Raised) (a : Active) :
    (retracking.active a).enterHandler handler raised = retracking.active (a.enterHandler handler raised) := by
  unfold enterHandler
  dsimp only
  rw [← emit_retracking]
  rfl

theorem enterContinue_retracking (handler target : Nat) (a : Active) :
    (retracking.active a).enterContinue handler target = (a.enterContinue handler target).map retracking.active := by
  unfold enterContinue
  split <;> rfl

theorem absorb_retracking (block : Block) (signal : Signal) (a : Active) :
    (retracking.active a).absorb block signal = (a.absorb block signal).map (·.map retracking.active) := by
  have handled (handler : Nat) (raised : Raised) :
      (if raised.kind.isFatal then none else some (Except.ok ((retracking.active a).enterHandler handler raised))) =
        Option.map (Except.map retracking.active)
          (if raised.kind.isFatal then none else some (Except.ok (a.enterHandler handler raised)) :
            Option (Except Fault Active)) := by
    rw [enterHandler_retracking]
    split <;> rfl
  unfold absorb
  split
  · rfl
  · exact handled _ _
  · exact handled _ _
  · rfl
  · rfl
  · exact congrArg some (enterContinue_retracking retracking _ _ a)
  · rfl

theorem supplant_retracking (callers : List Frame) (fault : Fault) (a : Active) :
    (retracking.active a).supplant callers fault = retracking.encounter (a.supplant callers fault) := by
  unfold supplant
  rw [raise_retracking]
  rfl

theorem offer_retracking (callers : List Frame) (block : Block) (signal : Signal) (a : Active) :
    (match (retracking.active a).absorb block signal with
      | some (.ok after) => Encounter.absorbed after
      | some (.error fault) => (retracking.active a).supplant callers fault
      | none => .passed signal (retracking.active a)) =
    retracking.encounter (match a.absorb block signal with
      | some (.ok after) => .absorbed after
      | some (.error fault) => a.supplant callers fault
      | none => .passed signal a) := by
  rw [absorb_retracking]
  rcases a.absorb block signal with _ | fault | after
  · rfl
  · exact supplant_retracking retracking callers fault a
  · rfl

theorem meet_retracking (callers : List Frame) (block : Block) (rest : List Block) (signal : Signal) (a : Active) :
    (retracking.active a).meet callers block rest signal = retracking.encounter (a.meet callers block rest signal) := by
  unfold meet
  split
  · rfl
  · dsimp only
    have lowered : { retracking.active a with frame := { (retracking.active a).frame with blocks := rest } } =
        retracking.active { a with frame := { a.frame with blocks := rest } } := rfl
    rw [lowered, release_retracking]
    generalize { a with frame := { a.frame with blocks := rest } }.release block = released
    obtain ⟨outcome, left⟩ := released
    dsimp only
    rw [emit_retracking]
    generalize left.emit (.blockPop block.kind rest.length) = noted
    cases outcome with
    | error fault => exact supplant_retracking retracking callers fault noted
    | ok restored =>
        cases restored with
        | none => exact offer_retracking retracking callers block signal noted
        | some saved =>
            dsimp only
            rw [restore_retracking]
            exact offer_retracking retracking callers block _ _

theorem drain_retracking (callers : List Frame) (blocks : List Block) (signal : Signal) (a : Active) :
    (retracking.active a).drain callers blocks signal = retracking.encounter (a.drain callers blocks signal) := by
  induction blocks generalizing signal a with
  | nil => rfl
  | cons block rest ih =>
      rw [drain, drain, meet_retracking]
      cases a.meet callers block rest signal with
      | absorbed after => rfl
      | passed onward after => exact ih onward after

theorem resolve_retracking (callers : List Frame) (signal : Signal) (a : Active) :
    (retracking.active a).resolve callers signal = retracking.resolution (a.resolve callers signal) := by
  have blocks : (retracking.active a).frame.blocks = a.frame.blocks := rfl
  unfold resolve
  rw [blocks, drain_retracking]
  cases a.drain callers a.frame.blocks signal with
  | absorbed after => rfl
  | passed onward after =>
      cases onward with
      | «return» value => rfl
      | raise raised => rfl
      | «break» =>
          simp only [Retracking.encounter, raise_retracking]
          rfl
      | «continue» target =>
          simp only [Retracking.encounter, raise_retracking]
          rfl

end Active

namespace Machine

variable (retracking : Retracking)

theorem settle_retracking (callers : List Frame) (signal : Signal) (a : Active) :
    settle callers signal (retracking.active a) = (settle callers signal a).mapWorld retracking.world := by
  induction callers generalizing signal a with
  | nil =>
      rw [settle, settle, Active.resolve_retracking]
      cases a.resolve [] signal with
      | absorbed after => rfl
      | escaped exit after =>
          have noted := Active.emit_retracking retracking (.return (after.frame.depth - 1)) after
          simp only [Retracking.resolution]
          rw [show (retracking.active after).frame = after.frame from rfl, noted]
          cases exit <;> rfl
  | cons caller rest ih =>
      rw [settle, settle, Active.resolve_retracking]
      cases a.resolve (caller :: rest) signal with
      | absorbed after => rfl
      | escaped exit after =>
          have noted := Active.emit_retracking retracking (.return (after.frame.depth - 1)) after
          simp only [Retracking.resolution]
          rw [show (retracking.active after).frame = after.frame from rfl, noted]
          cases exit with
          | returned value => rfl
          | raised raised =>
              dsimp only
              rw [← ih, ← Active.announce_retracking]
              rfl

theorem raise_retracking (callers : List Frame) (fault : Fault) (a : Active) :
    raise callers fault (retracking.active a) = retracking.phase (raise callers fault a) := by
  unfold raise
  rw [Active.raise_retracking]
  rfl

theorem follow_retracking (callers : List Frame) (effect : Effect) (a : Active) :
    follow callers effect (retracking.active a) = retracking.phase (follow callers effect a) := by
  have announced (raised : Raised) (b : Active) :
      Phase.passing ⟨.raise raised, (retracking.active b).announce raised, callers⟩ =
        retracking.phase (.passing ⟨.raise raised, b.announce raised, callers⟩) := by
    rw [Active.announce_retracking]
    rfl
  cases effect with
  | next | interrupt signal | call callee => rfl
  | propagate raised => exact announced raised a
  | throw exception =>
      unfold follow
      dsimp only
      rw [Active.throw_retracking]
      rfl
  | rethrow =>
      have heap : (retracking.active a).world.heap = a.world.heap := rfl
      have frame : (retracking.active a).frame = a.frame := rfl
      have recovered : (retracking.active a).recovered = a.recovered := rfl
      unfold follow
      dsimp only
      rw [heap, frame, recovered]
      cases handled? a.world.heap (a.frame :: callers) with
      | some found => exact announced found.1 (a.setHeap found.2)
      | none =>
          cases a.recovered with
          | some raised => exact announced raised a
          | none => exact raise_retracking retracking callers _ a

/-- Only here does the tracker matter: both trackers have to admit the instruction, or neither. -/
theorem fetch_retracking {a : Active}
    (unnoticed : (retracking.tracker a.world.tracker.count).refusal? = a.world.tracker.count.refusal?) :
    fetch (retracking.active a) = ((fetch a).1, retracking.active (fetch a).2) := by
  obtain ⟨⟨heap, sink, tracker, events⟩, frame, recovered⟩ := a
  simp only [fetch, Retracking.active, Retracking.world, retracking.count]
  rw [unnoticed]
  cases tracker.count.refusal? with
  | some error => rfl
  | none =>
      cases frame.code.decodeAt frame.ip with
      | error fault => rfl
      | ok instruction => simp [World.emit]

theorem dispatch_retracking {machine : Machine}
    (unnoticed : (retracking.tracker machine.active.world.tracker.count).refusal? =
      machine.active.world.tracker.count.refusal?) :
    (retracking.machine machine).dispatch = retracking.phase machine.dispatch := by
  obtain ⟨a, callers⟩ := machine
  simp only [dispatch, Retracking.machine]
  rw [fetch_retracking retracking unnoticed]
  rcases fetched : fetch a with ⟨fault | instruction, b⟩
  · exact raise_retracking retracking callers fault b
  · dsimp only
    rw [(execute_works (fetch_fits fetched)).commutes retracking b]
    cases execute instruction.opcode instruction.operand b with
    | ok effect after => exact follow_retracking retracking callers effect after
    | error failure after =>
        cases failure with
        | raised fault => exact raise_retracking retracking callers fault after
        | unending => rfl

theorem phase_settle_retracking (phase : Phase) :
    (retracking.phase phase).settle = phase.settle.mapWorld retracking.world := by
  cases phase with
  | resting status => rfl
  | passing passage => exact settle_retracking retracking passage.callers passage.signal passage.active

/-- A retracked step is the same step, unless the tracker makes a difference. -/
theorem step_retracking {machine : Machine}
    (unnoticed : (retracking.tracker machine.active.world.tracker.count).refusal? =
      machine.active.world.tracker.count.refusal?) :
    (retracking.machine machine).step = machine.step.mapWorld retracking.world := by
  rw [step, dispatch_retracking retracking unnoticed, phase_settle_retracking, step]

end Machine

/-- Both trackers admit the same of the next `fuel` instructions. -/
def Retracking.Unnoticed (retracking : Retracking) (fuel : Nat) (tracker : Tracker) : Prop :=
  ∀ k < fuel, (retracking.tracker (Tracker.count^[k + 1] tracker)).refusal? = (Tracker.count^[k + 1] tracker).refusal?

theorem Retracking.Unnoticed.step {retracking : Retracking} {fuel : Nat} {machine : Machine}
    (unnoticed : retracking.Unnoticed (fuel + 1) machine.active.world.tracker) :
    (retracking.machine machine).step = machine.step.mapWorld retracking.world ∧
      retracking.Unnoticed fuel machine.step.world.tracker := by
  refine ⟨Machine.step_retracking retracking (unnoticed 0 (Nat.succ_pos fuel)), ?_⟩
  intro k below
  rw [machine.step_tracker]
  exact unnoticed (k + 1) (Nat.succ_lt_succ below)

namespace Status

variable {retracking : Retracking}

theorem advance_retracking {fuel : Nat} {status : Status} (unnoticed : retracking.Unnoticed fuel status.world.tracker) :
    (status.mapWorld retracking.world).advance fuel = (status.advance fuel).mapWorld retracking.world := by
  induction fuel generalizing status with
  | zero => rw [advance_zero, advance_zero]
  | succ fuel ih =>
      cases status with
      | running machine =>
          obtain ⟨stepped, onward⟩ := unnoticed.step
          change (Status.running (retracking.machine machine)).advance (fuel + 1) = _
          rw [advance, stepped, ih onward, advance]
      | finished outcome world => rfl
      | unending world => rfl

theorem fetched_retracking {fuel : Nat} {status : Status} (unnoticed : retracking.Unnoticed fuel status.world.tracker) :
    (status.mapWorld retracking.world).fetched fuel = status.fetched fuel := by
  induction fuel generalizing status with
  | zero => rfl
  | succ fuel ih =>
      cases status with
      | running machine =>
          obtain ⟨stepped, onward⟩ := unnoticed.step
          have same := Machine.fetch_retracking retracking (unnoticed 0 (Nat.succ_pos fuel))
          change (Status.running (retracking.machine machine)).fetched (fuel + 1) = _
          rw [fetched, fetched, stepped, ih onward]
          exact congrArg (fun outcome => outcome.1 :: machine.step.fetched fuel) same
      | finished outcome world => rfl
      | unending world => rfl

end Status

theorem World.launch_retracking (retracking : Retracking) (code : Code Value) (environment : Environment)
    (arguments : List Value) (world : World) :
    (retracking.world world).launch code environment arguments =
      (world.launch code environment arguments).mapWorld retracking.world := by
  unfold launch
  cases code.bindArguments arguments [] with
  | error fault => rfl
  | ok bindings =>
      dsimp only
      rw [show (retracking.world world).tracker = retracking.tracker world.tracker from rfl, retracking.checkCall]
      cases world.tracker.checkCall 0 with
      | error error => rfl
      | ok _ =>
          rw [Status.mapWorld, ← retracking.world_emit]
          rfl

end BlockVM
