import BlockVM.Proofs.CallStack

namespace BlockVM

/-! Calls are isolated. While a callee runs, the frames below it wait as they are, and so do their
locals; when it ends, its value or its exception is all that its caller gets. -/

/-- The frames of a call and of the calls it makes, on top of the frames `base` that wait for it. The
lowest of them is the callee, whose locals are `own`. -/
def Rises (own : NamespaceRef) (base frames : List Frame) : Prop :=
  ∃ inner callee, frames = inner ++ callee :: base ∧ callee.locals = own

namespace Rises

variable {own : NamespaceRef} {base callers : List Frame} {frame : Frame}

theorem replace {other : Frame} (rises : Rises own base (frame :: callers))
    (locals : other.locals = frame.locals) : Rises own base (other :: callers) := by
  obtain ⟨inner, callee, same, calleeLocals⟩ := rises
  cases inner with
  | nil =>
      obtain ⟨rfl, rfl⟩ := List.cons.inj same
      exact ⟨[], other, rfl, locals.trans calleeLocals⟩
  | cons top inner =>
      obtain ⟨rfl, rfl⟩ := List.cons.inj same
      exact ⟨other :: inner, callee, rfl, calleeLocals⟩

theorem push (rises : Rises own base callers) (frame : Frame) : Rises own base (frame :: callers) := by
  obtain ⟨inner, callee, rfl, calleeLocals⟩ := rises
  exact ⟨frame :: inner, callee, rfl, calleeLocals⟩

theorem pop (rises : Rises own base (frame :: callers)) (deeper : base.length < callers.length) :
    Rises own base callers := by
  obtain ⟨inner, callee, same, calleeLocals⟩ := rises
  cases inner with
  | nil =>
      obtain ⟨rfl, rfl⟩ := List.cons.inj same
      exact absurd deeper (Nat.lt_irrefl _)
  | cons top inner =>
      obtain ⟨rfl, rfl⟩ := List.cons.inj same
      exact ⟨inner, callee, rfl, calleeLocals⟩

theorem suffix (rises : Rises own base (frame :: callers)) : base <:+ callers := by
  obtain ⟨inner, callee, same, _⟩ := rises
  cases inner with
  | nil =>
      obtain ⟨rfl, rfl⟩ := List.cons.inj same
      exact List.suffix_rfl
  | cons top inner =>
      obtain ⟨rfl, rfl⟩ := List.cons.inj same
      exact ⟨inner ++ [callee], by simp⟩

end Rises

/-- A frame changes the locals of a caller only if they are the globals of all. -/
theorem Stacked.spares {environment : Environment} {a b : Active} {callers : List Frame}
    (stacked : Stacked environment a callers) (anchored : a.Anchored b) {frame : Frame}
    (member : frame ∈ callers) (apart : frame.locals ≠ environment.globals) :
    b.world.heap.space frame.locals = a.world.heap.space frame.locals := by
  refine anchored.spaces.kept frame.locals (stacked.locals frame (List.mem_cons_of_mem _ member)) ?_
  rintro (own | shared)
  · have distinct := stacked.stack.nodup_locals
    rw [List.map_cons, List.nodup_cons] at distinct
    exact distinct.1 (own ▸ List.mem_map_of_mem member)
  · rw [stacked.stack.globals_eq a.frame List.mem_cons_self] at shared
    exact apart shared

namespace Phase

/-- A turn that leaves more frames than `base`. -/
def TurnAbove (base : List Frame) (before after : Phase) : Prop :=
  before.Turn after ∧ base.length < after.frames.length

def RunsAbove (base : List Frame) : Phase → Phase → Prop :=
  Relation.ReflTransGen (TurnAbove base)

/-- A call is under way, and since the heap was `heap` nothing of its callers has changed. -/
structure Isolates (environment : Environment) (own : NamespaceRef) (base : List Frame) (heap : Heap)
    (phase : Phase) : Prop where
  stacked : phase.Stacked environment
  frames : Rises own base phase.frames
  spaces : ∀ frame ∈ base, frame.locals ≠ environment.globals →
    phase.world.heap.space frame.locals = heap.space frame.locals

section

variable {environment : Environment} {own : NamespaceRef} {base : List Frame} {heap : Heap}
  {before after phase next : Phase}

theorem TurnAbove.rises (turn : TurnAbove base before after) (frames : Rises own base before.frames) :
    Rises own base after.frames := by
  obtain ⟨turn, deeper⟩ := turn
  cases turn.shifts with
  | within held holds anchored =>
      rw [held.frames] at frames
      rw [holds.frames]
      exact frames.replace anchored.locals
  | into running fetched opcode operand calls anchored =>
      subst running
      exact (frames.replace ((Machine.fetch_anchored fetched).trans anchored).locals).push _
  | back passing empty waiting exits holds resumed spared =>
      subst passing
      obtain ⟨stack, resumed⟩ := resumed
      rw [holds.frames] at deeper ⊢
      rw [Phase.frames, waiting] at frames
      exact (frames.pop deeper).replace (by rw [resumed])
  | finished passing last ended =>
      rw [ended] at deeper
      cases deeper

theorem RunsAbove.rises (ran : RunsAbove base before after) (frames : Rises own base before.frames) :
    Rises own base after.frames := by
  induction ran with
  | refl => exact frames
  | tail _ turn ih => exact turn.rises ih

theorem TurnAbove.isolates (turn : TurnAbove base before after)
    (isolates : before.Isolates environment own base heap) : after.Isolates environment own base heap := by
  obtain ⟨stacked, frames, spaces⟩ := isolates
  refine ⟨turn.1.stacked stacked, turn.rises frames, ?_⟩
  obtain ⟨turn, deeper⟩ := turn
  intro frame member apart
  rw [← spaces frame member apart]
  cases turn.shifts with
  | within held holds anchored =>
      rw [held.frames] at frames
      rw [held.world, holds.world]
      exact (stacked _ _ held).spares anchored (frames.suffix.subset member) apart
  | into running fetched opcode operand calls anchored =>
      subst running
      exact (stacked _ _ (.running _ _)).spares ((Machine.fetch_anchored fetched).trans anchored)
        (frames.suffix.subset member) apart
  | back passing empty waiting exits holds resumed spared =>
      subst passing
      rw [holds.world, Heap.space, spared]
      rfl
  | finished passing last ended =>
      rw [ended] at deeper
      cases deeper

theorem RunsAbove.isolates (ran : RunsAbove base before after)
    (isolates : before.Isolates environment own base heap) : after.Isolates environment own base heap := by
  induction ran with
  | refl => exact isolates
  | tail _ turn ih => exact turn.isolates ih

/-- A call ends when a signal leaves the callee. -/
theorem Turn.exits {caller : Frame} {callers : List Frame} (turn : phase.Turn next)
    (risen : Rises own (caller :: callers) phase.frames) (ended : next.frames.length ≤ callers.length + 1) :
    ∃ passage, phase = .passing passage ∧ passage.callers = caller :: callers ∧
      passage.active.frame.blocks = [] ∧ passage.Exits next := by
  cases turn.shifts with
  | within held holds anchored =>
      rw [held.frames] at risen
      have higher := risen.suffix.length_le
      rw [holds.frames] at ended
      simp only [List.length_cons] at higher ended
      omega
  | into running fetched opcode operand calls anchored =>
      subst running
      have higher := risen.suffix.length_le
      simp only [Phase.frames, List.length_cons] at higher ended
      omega
  | @back passage _ _ _ _ passing empty waiting exits holds resumed spared =>
      subst passing
      have higher := risen.suffix
      refine ⟨passage, rfl, (higher.eq_of_length ?_).symm, empty, exits⟩
      have height := higher.length_le
      rw [holds.frames] at ended
      rw [waiting] at height ⊢
      simp only [List.length_cons] at height ended ⊢
      omega
  | finished passing last ended =>
      subst passing
      have higher := risen.suffix
      rw [last] at higher
      cases List.eq_nil_of_suffix_nil higher

theorem Isolates.exits {caller : Frame} {callers : List Frame}
    (isolates : phase.Isolates environment own (caller :: callers) heap) (turn : phase.Turn next)
    (ended : next.frames.length ≤ callers.length + 1) :
    ∃ passage, phase = .passing passage ∧ passage.callers = caller :: callers ∧
      passage.active.frame.blocks = [] ∧ passage.Exits next :=
  turn.exits isolates.frames ended

end

end Phase

namespace Machine

/-- The running frame as it waits for a call with `count` arguments. -/
def waiting (machine : Machine) (count : Nat) : Frame :=
  { machine.active.frame with
    stack := machine.active.frame.stack.drop (count + 1)
    ip := machine.active.frame.ip + 3
    lastOffset := machine.active.frame.ip }

theorem dispatch_called {machine : Machine} {instruction : Instruction Value} {a after : Active} {callee : Frame}
    (fetched : fetch machine.active = (.ok instruction, a))
    (run : execute instruction.opcode instruction.operand a = .ok (.call callee) after) :
    ∃ count, machine.Calling instruction a count ∧ a.Calls count callee after ∧
      after.frame = machine.waiting count ∧
      machine.dispatch =
        .resting (.running ⟨{ after with frame := callee }, machine.waiting count :: machine.callers⟩) := by
  rcases execute_effect (fetch_near fetched) run with plain | ⟨count, _, opcode, operand, same, calls⟩
  · cases plain
  · obtain rfl := Effect.call.inj same
    obtain ⟨decoded, heap, frame⟩ := fetch_spec fetched
    have stack : a.frame.stack = machine.active.frame.stack := by rw [frame]
    have next := (Code.decodeAt_next decoded).2 (by rw [operand]; nofun)
    have waits : after.frame = machine.waiting count := by rw [calls.waits, frame, next, waiting]
    obtain ⟨id, name, defaults, bindings, found, bound, _⟩ := calls.function
    rw [stack] at found bound
    refine ⟨count, ⟨fetched, opcode, operand, id, name, _, defaults, bindings, found, bound⟩, calls, waits, ?_⟩
    rw [← waits]
    obtain ⟨active, callers⟩ := machine
    simp only [dispatch, fetched, run, follow]

end Machine

/-- When an instruction of a run calls a function, its frame gives up the function and the arguments.
From then on and until the call ends, all frames below the callee stay as they are, and so do those of
their locals that are not the globals. The call ends when a signal leaves the callee: the caller goes on
after the call with the value that is returned, or the exception goes on in the caller. -/
theorem call_isolated (code : Code Value) (arguments : List Value) {environment : Environment} {world : World}
    (known : environment.Known world.heap) {machine : Machine}
    (reached : (Phase.resting (world.launch code environment arguments)).Runs (.resting (.running machine)))
    {instruction : Instruction Value} {a after : Active} {callee : Frame}
    (fetched : Machine.fetch machine.active = (.ok instruction, a))
    (run : execute instruction.opcode instruction.operand a = .ok (.call callee) after) :
    ∃ count, machine.Calling instruction a count ∧
      machine.dispatch =
        .resting (.running ⟨{ after with frame := callee }, machine.waiting count :: machine.callers⟩) ∧
      ∀ phase, machine.dispatch.RunsAbove (machine.waiting count :: machine.callers) phase →
        Rises callee.locals (machine.waiting count :: machine.callers) phase.frames ∧
        (∀ frame ∈ machine.waiting count :: machine.callers, frame.locals ≠ environment.globals →
          phase.world.heap.space frame.locals = machine.active.world.heap.space frame.locals) ∧
        ∀ next, phase.Turn next → next.frames.length ≤ machine.callers.length + 1 →
          ∃ passage, phase = .passing passage ∧ passage.callers = machine.waiting count :: machine.callers ∧
            passage.active.frame.blocks = [] ∧ passage.Exits next := by
  obtain ⟨count, calling, calls, waits, dispatched⟩ := Machine.dispatch_called fetched run
  refine ⟨count, calling, dispatched, fun phase ran => ?_⟩
  have stacked := reached.stacked (world.launch_stacked code arguments known)
  have turn : (Phase.resting (.running machine)).Turn machine.dispatch :=
    .dispatch machine (fun world => by rw [dispatched]; nofun)
  have called : machine.dispatch.Isolates environment callee.locals (machine.waiting count :: machine.callers)
      machine.active.world.heap := by
    refine ⟨turn.stacked stacked, ?_, ?_⟩
    · rw [dispatched]
      exact ⟨[], callee, rfl, rfl⟩
    · intro frame member _
      obtain ⟨id, name, defaults, bindings, _, _, pushed⟩ := calls.function
      rw [(Machine.fetch_spec fetched).2.1] at pushed
      have older := (stacked _ _ (.running _ _)).locals
      rw [dispatched]
      refine Heap.space_of_push pushed ?_
      rcases List.mem_cons.mp member with rfl | waiting
      · exact older machine.active.frame List.mem_cons_self
      · exact older frame (List.mem_cons_of_mem _ waiting)
  have isolates := ran.isolates called
  exact ⟨isolates.frames, isolates.spaces, fun next => isolates.exits⟩

theorem call_isolated_callOnce :
    ∃ machine instruction a callee after,
      (twoFrames.launch callOnce ⟨⟨0⟩, ⟨0⟩⟩ []).advance 3 = .running machine ∧
      Machine.fetch machine.active = (.ok instruction, a) ∧
      execute instruction.opcode instruction.operand a = .ok (.call callee) after ∧
      ∀ phase, machine.dispatch.RunsAbove (machine.waiting 0 :: machine.callers) phase →
        Rises callee.locals (machine.waiting 0 :: machine.callers) phase.frames := by
  obtain ⟨machine, instruction, a, callee, after, ran, fetched, run, operand⟩ :
      ∃ machine instruction a callee after,
        (twoFrames.launch callOnce ⟨⟨0⟩, ⟨0⟩⟩ []).advance 3 = .running machine ∧
        Machine.fetch machine.active = (.ok instruction, a) ∧
        execute instruction.opcode instruction.operand a = .ok (.call callee) after ∧
        instruction.operand = .int 0 :=
    ⟨_, _, _, _, _, rfl, rfl, rfl, rfl⟩
  have known : Environment.Known ⟨⟨0⟩, ⟨0⟩⟩ twoFrames.heap := ⟨by decide, by decide⟩
  have reached := Phase.Runs.advance (fun world => by rw [ran]; nofun)
  obtain ⟨count, calling, _, isolated⟩ := call_isolated callOnce [] known (ran ▸ reached) fetched run
  obtain rfl := Operand.int.inj (operand.symm.trans calling.operand)
  exact ⟨machine, instruction, a, callee, after, ran, fetched, run, fun phase above => (isolated phase above).1⟩

end BlockVM
