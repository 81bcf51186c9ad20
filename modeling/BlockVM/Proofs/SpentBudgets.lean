import BlockVM.Proofs.InstructionBudgets

namespace BlockVM

/-! What a run under a spent budget ends with. The refusal is a fatal exception, and it takes all
blocks off all frames. It comes out as it is unless one of those blocks is damaged; then the exception
of the damage comes out in its place. -/

/-- The kind of an exception from a block that could not be taken off. -/
def ExceptionKind.isDamage : ExceptionKind → Bool
  | .stackUnderflow | .systemError => true
  | _ => false

theorem ExceptionKind.isDamage_iff {kind : ExceptionKind} :
    kind.isDamage = true ↔ kind = .stackUnderflow ∨ kind = .systemError := by
  cases kind <;> simp [isDamage]

/-- An exception of kind `before` that passed `whole` regions comes out as it is; otherwise that of
some damage does. -/
structure Survives (whole : Prop) (before after : ExceptionKind) : Prop where
  intact : whole → after = before
  damaged : ¬ whole → after.isDamage = true

namespace Survives

variable {first second : Prop} {before middle after : ExceptionKind}

theorem trans (earlier : Survives first before middle) (later : Survives second middle after) :
    Survives (first ∧ second) before after := by
  refine ⟨fun whole => (later.intact whole.2).trans (earlier.intact whole.1), ?_⟩
  intro broken
  by_cases sound : second
  · rw [later.intact sound]
    exact earlier.damaged fun whole => broken ⟨whole, sound⟩
  · exact later.damaged sound

theorem congr (same : first ↔ second) (survives : Survives first before after) :
    Survives second before after :=
  ⟨fun whole => survives.intact (same.mpr whole), fun broken => survives.damaged (broken ∘ same.mp)⟩

end Survives

namespace Active

theorem meet_survives (callers : List Frame) (block : Block) (rest : List Block) {raised : Raised}
    (a : Active) (fatal : raised.kind.isFatal = true) :
    ∃ onward after, a.meet callers block rest (.raise raised) = .passed (.raise onward) after ∧
      onward.kind.isFatal = true ∧ after.frame.blocks = rest ∧
      Survives (block.Intact a.frame.stack) raised.kind onward.kind ∧
      (block.Intact a.frame.stack → after.frame.stack = a.frame.stack.rtake block.depth) := by
  have pending : (Signal.raise raised).Fatal := fatal
  have meets := a.meet_meets callers block rest (.raise raised)
  generalize a.meet callers block rest (.raise raised) = met at meets
  cases meets with
  | stayed continues | tooFar _ continues => cases continues
  | absorbed _ _ _ absorbs => rw [pending.not_absorbs block] at absorbs; cases absorbs
  | @damaged fault left _ damaged kind below =>
      have spoilt : fault.kind.isDamage = true := by rcases kind with kind | ⟨_, kind⟩ <;> rw [kind] <;> rfl
      have ends : fault.kind.isFatal = true := by rcases kind with kind | ⟨_, kind⟩ <;> rw [kind] <;> rfl
      refine ⟨_, _, supplant_eq, ?_, ?_, ?_, fun intact => absurd intact damaged⟩
      · rw [raise_kind, ends]
      · rw [raise_frame, below]
      · rw [raise_kind]
        exact ⟨fun intact => absurd intact damaged, fun _ => spoilt⟩
  | @passed onward left intact carried _ lowered =>
      have kept : ∃ same, onward = .raise same ∧ same.kind = raised.kind := by
        cases carried with
        | same => exact ⟨raised, rfl, rfl⟩
        | chained _ id context => exact ⟨_, rfl, rfl⟩
      obtain ⟨same, rfl, kind⟩ := kept
      refine ⟨same, left, rfl, ?_, ?_, ⟨fun _ => kind, fun broken => absurd intact broken⟩, fun _ => ?_⟩
      · rw [kind, fatal]
      · rw [lowered]; rfl
      · rw [lowered]; rfl

theorem drain_survives (callers : List Frame) (blocks : List Block) {raised : Raised} {a : Active}
    (standing : a.frame.blocks = blocks) (fatal : raised.kind.isFatal = true) :
    ∃ onward after, a.drain callers blocks (.raise raised) = .passed (.raise onward) after ∧
      onward.kind.isFatal = true ∧ Survives (Yields blocks a.frame.stack) raised.kind onward.kind := by
  induction blocks generalizing raised a with
  | nil => exact ⟨raised, a, rfl, fatal, ⟨fun _ => rfl, fun broken => absurd trivial broken⟩⟩
  | cons block rest ih =>
      obtain ⟨middle, left, met, middleFatal, below, survives, lowered⟩ :=
        a.meet_survives callers block rest fatal
      obtain ⟨onward, after, drained, onwardFatal, later⟩ := ih below middleFatal
      refine ⟨onward, after, by simp only [drain, met, drained], onwardFatal, ?_, ?_⟩
      · rintro ⟨intact, yields⟩
        rw [← lowered intact] at yields
        exact (later.intact yields).trans (survives.intact intact)
      · intro broken
        by_cases intact : block.Intact a.frame.stack
        · refine later.damaged fun yields => broken ⟨intact, ?_⟩
          rw [← lowered intact]
          exact yields
        · -- Past the damaged block the exception is one of damage, whatever the rest of the blocks do.
          by_cases yields : Yields rest left.frame.stack
          · rw [later.intact yields]
            exact survives.damaged intact
          · exact later.damaged yields

end Active

/-- No block of the frame is damaged. -/
def Frame.Whole (frame : Frame) : Prop :=
  Yields frame.blocks frame.stack

theorem Active.resolve_survives (callers : List Frame) {raised : Raised} (a : Active)
    (fatal : raised.kind.isFatal = true) :
    ∃ onward after, a.resolve callers (.raise raised) = .escaped (.raised onward) after ∧
      onward.kind.isFatal = true ∧ Survives a.frame.Whole raised.kind onward.kind := by
  obtain ⟨onward, after, drained, onwardFatal, survives⟩ :=
    a.drain_survives callers a.frame.blocks rfl fatal
  exact ⟨onward, after, by rw [resolve, drained], onwardFatal, survives⟩

theorem Machine.settle_survives (callers : List Frame) {raised : Raised} {a : Active}
    (fatal : raised.kind.isFatal = true) :
    ∃ final world, settle callers (.raise raised) a = .finished (.error final) world ∧
      Survives (∀ frame ∈ a.frame :: callers, frame.Whole) raised.kind final.kind := by
  induction callers generalizing raised a with
  | nil =>
      obtain ⟨onward, after, resolved, _, survives⟩ := a.resolve_survives [] fatal
      have settled : ∃ world, settle [] (.raise raised) a =
          .finished (.error (onward.leave after.frame after.world.heap).1) world := by
        rw [settle, resolved]
        exact ⟨_, rfl⟩
      obtain ⟨world, settled⟩ := settled
      exact ⟨_, world, settled, survives.congr (by simp)⟩
  | cons caller rest ih =>
      obtain ⟨onward, after, resolved, onwardFatal, survives⟩ := a.resolve_survives (caller :: rest) fatal
      rw [settle, resolved]
      dsimp only
      have leftFatal : (onward.leave after.frame after.world.heap).1.kind.isFatal = true := onwardFatal
      obtain ⟨final, world, settled, later⟩ := ih leftFatal
        (a := { (after.emit (.return (after.frame.depth - 1))).setHeap
          (onward.leave after.frame after.world.heap).2 with frame := caller }.announce
            (onward.leave after.frame after.world.heap).1)
      refine ⟨final, world, settled, (survives.trans later).congr ?_⟩
      simp

theorem Machine.dispatch_spent {machine : Machine} {limits : Limits} {count budget : Nat}
    {elapsed : Duration} (limited : machine.active.world.tracker = .limited limits count elapsed)
    (budgeted : limits.maxOperations = some budget) (spent : budget ≤ count) :
    ∃ a, a.frame = machine.active.frame ∧
      machine.dispatch = .passing (.ofFault machine.callers (.limit (.instructionBudget budget)) a) := by
  obtain ⟨⟨⟨heap, sink, tracker, events⟩, frame, recovered⟩, callers⟩ := machine
  cases limited
  have refused : (Tracker.limited limits (count + 1) elapsed).refusal? = some (.instructionBudget budget) := by
    simp only [Tracker.refusal?, budgeted, if_pos (Nat.lt_succ_of_le spent)]
  refine ⟨⟨⟨heap, sink, .limited limits (count + 1) elapsed, events⟩, frame, recovered⟩, rfl, ?_⟩
  simp only [dispatch, fetch, Tracker.count, refused, Passage.raise_eq]

/-- When a run wants an instruction beyond its budget, it ends there and then, whatever blocks and
frames are live. It ends with the refusal of the budget if no block of any frame is damaged, and with a
stack underflow or a system error otherwise. -/
theorem spent_budget_ends_run {status : Status} {machine : Machine} {steps : Nat} {limits : Limits}
    {count budget : Nat} {elapsed : Duration} (ran : status.advance steps = .running machine)
    (limited : machine.active.world.tracker = .limited limits count elapsed)
    (budgeted : limits.maxOperations = some budget) (spent : budget ≤ count) :
    ∃ final world, (∀ fuel, status.advance (steps + (fuel + 1)) = .finished (.error final) world) ∧
      (final.kind = .timeoutError ↔ ∀ frame ∈ machine.active.frame :: machine.callers, frame.Whole) ∧
      (final.kind = .timeoutError ∨ final.kind = .stackUnderflow ∨ final.kind = .systemError) := by
  obtain ⟨a, same, dispatched⟩ := Machine.dispatch_spent limited budgeted spent
  have kind := a.raise_kind machine.callers (.limit (.instructionBudget budget))
  have fatal : (a.raise machine.callers (.limit (.instructionBudget budget))).1.kind.isFatal = true := by
    rw [kind]
    rfl
  obtain ⟨final, world, settled, survives⟩ := Machine.settle_survives machine.callers fatal
    (a := (a.raise machine.callers (.limit (.instructionBudget budget))).2)
  rw [kind, Active.raise_frame, same] at survives
  have stepped : machine.step = .finished (.error final) world := by
    rw [Machine.step, dispatched]
    exact settled
  refine ⟨final, world, fun fuel => ?_, ⟨fun timeout => ?_, survives.intact⟩, ?_⟩
  · rw [Status.advance_add, ran, Status.advance, stepped, Status.advance_finished]
  · by_contra broken
    have damaged := survives.damaged broken
    rw [timeout] at damaged
    cases damaged
  · by_cases whole : ∀ frame ∈ machine.active.frame :: machine.callers, frame.Whole
    · exact .inl (survives.intact whole)
    · exact .inr (ExceptionKind.isDamage_iff.mp (survives.damaged whole))

/-- A jump to itself under a `finally` block. -/
def guardedJump : Code Value :=
  { name := "guarded", instructions := #[122, 3, 0, 113, 3, 0, 88], constants := [], names := []
    localSlots := [], argCount := 0 }

def threeInstructions : World :=
  { (default : World) with tracker := .ofLimits { maxOperations := some 3 } }

theorem spent_budget_ends_run_guarded :
    ∃ final ended, (threeInstructions.launch guardedJump default []).advance 4 =
      .finished (.error final) ended ∧ final.kind = .timeoutError := by
  obtain ⟨machine, handler, ran, limited, guarded, alone⟩ : ∃ machine handler,
      (threeInstructions.launch guardedJump default []).advance 3 = .running machine ∧
      machine.active.world.tracker = .limited { maxOperations := some 3 } 3 ⟨0⟩ ∧
      machine.active.frame.blocks = [.finally handler 0] ∧ machine.callers = [] :=
    ⟨_, _, rfl, rfl, rfl, rfl⟩
  obtain ⟨final, ended, ends, timeout, _⟩ := spent_budget_ends_run ran limited rfl (Nat.le_refl 3)
  refine ⟨final, ended, ends 0, timeout.mpr ?_⟩
  rw [alone]
  intro frame member
  obtain rfl := List.mem_singleton.mp member
  rw [Frame.Whole, guarded]
  exact ⟨Nat.zero_le _, trivial⟩

/-- A loop is entered with one value on the data stack, and then the value is dropped. -/
def droppedFloor : Code Value :=
  { name := "dropped", instructions := #[100, 0, 0, 120, 0, 0, 1, 9], constants := [.int 1], names := []
    localSlots := [], argCount := 0 }

/-- The refusal of a budget does not always come out of the run: where the loop cannot be taken off, a
stack underflow does. -/
theorem spent_budget_masked :
    ¬ ∀ (code : Code Value) (environment : Environment) (arguments : List Value) (world : World)
      (machine : Machine) (steps : Nat) (limits : Limits) (count budget : Nat) (elapsed : Duration),
      (world.launch code environment arguments).advance steps = .running machine →
      machine.active.world.tracker = .limited limits count elapsed →
      limits.maxOperations = some budget → budget ≤ count →
      ∃ final ended, (world.launch code environment arguments).advance (steps + 1) =
        .finished (.error final) ended ∧ final.kind = .timeoutError := by
  intro surfaces
  obtain ⟨final, ended, ends, timeout⟩ := surfaces droppedFloor default [] threeInstructions _ 3
    { maxOperations := some 3 } 3 3 ⟨0⟩ rfl rfl rfl (Nat.le_refl 3)
  obtain ⟨actual, actualEnded, actually, kind⟩ : ∃ actual actualEnded,
      (threeInstructions.launch droppedFloor default []).advance 4 = .finished (.error actual) actualEnded ∧
      actual.kind = .stackUnderflow := ⟨_, _, rfl, rfl⟩
  obtain ⟨same, _⟩ := Status.finished.inj (actually.symm.trans ends)
  rw [← Except.error.inj same, kind] at timeout
  cases timeout

end BlockVM
