import BlockVM.Proofs.ExceptionContexts

namespace BlockVM

/-! Raising the exception being handled once more. It is not chained to itself where it is raised as it is; with
a cause, a copy of it is raised, and the copy is chained to the original. -/

theorem rtake_cons {keep : Nat} {top : Value} {rest : List Value} (enough : keep ≤ rest.length) :
    (top :: rest).rtake keep = rest.rtake keep := by
  simp only [List.rtake, List.length_cons, Nat.succ_sub enough, List.drop_succ_cons]

/-- A value that is not the topmost one that a handler saved can be taken without harm to the handler. -/
theorem Frame.Saving.popped {frame : Frame} {depth : Nat} {kind value trace top : Value} {rest : List Value}
    (saving : frame.Saving depth kind value trace) (stack : frame.stack = top :: rest) (differs : top ≠ kind) :
    { frame with stack := rest }.Saving depth kind value trace := by
  obtain ⟨enough, slots⟩ := saving
  rw [stack] at enough slots
  have above : depth + 3 ≤ rest.length := by
    rcases Nat.lt_or_ge rest.length (depth + 3) with whole | above
    · have exact : depth + 3 = (top :: rest).length := Nat.le_antisymm enough whole
      rw [exact, List.rtake, Nat.sub_self, List.drop_zero] at slots
      exact absurd (List.cons.inj slots).1 differs
    · exact above
  rw [rtake_cons above, rtake_cons (by omega)] at slots
  exact ⟨above, slots⟩

theorem Innermost.popped {frame : Frame} {callers : List Frame} {kind value trace top : Value} {rest : List Value}
    (innermost : Innermost (frame :: callers) kind value trace) (stack : frame.stack = top :: rest)
    (differs : top ≠ kind) : Innermost ({ frame with stack := rest } :: callers) kind value trace := by
  cases innermost with
  | here blocks nearest saving => exact .here blocks nearest (saving.popped stack differs)
  | outward idle further => exact .outward idle further

namespace Raised

theorem ofValues_exception {kind trace : Value} {object : ExceptionObject} {raised : Raised} {heap after : Heap}
    (built : ofValues kind (.exception object) trace heap = .ok (raised, after)) (other : Heap) :
    ofValues kind (.exception object) trace other = .ok (raised, other) := by
  obtain ⟨⟨known, rfl⟩, -, rfl | ⟨frames, rfl⟩⟩ := saved_of_ofValues built <;>
    · cases built
      rfl

end Raised

/-- The cause that a value stands for: none, an exception, or a class to instantiate. -/
def Value.cause? (heap : Heap) : Value → Option (Option ExceptionObject × Heap)
  | .nothing => some (none, heap)
  | .exception object => some (some object, heap)
  | .exceptionKind kind =>
      some (some { id := heap.born, kind, message := none, context := none, cause := none }, heap.fresh.2)
  | _ => none

theorem Value.born_le_of_cause? {origin : Value} {cause : Option ExceptionObject} {heap known : Heap}
    (given : origin.cause? heap = some (cause, known)) : heap.born ≤ known.born := by
  cases origin with
  | nothing | exception object =>
      cases given
      exact Nat.le_refl heap.born
  | exceptionKind kind =>
      cases given
      exact Nat.le_succ heap.born
  | _ => cases given

namespace Exec

variable {a : Active} {exception : ExceptionObject} {rest : List Value}

theorem raiseVarargs_one (stack : a.frame.stack = .exception exception :: rest) :
    raiseVarargs 1 a = .ok (.throw exception) { a with frame := { a.frame with stack := rest } } := by
  obtain ⟨world, ⟨code, globals, locals, _, blocks, ip, last, level⟩, recovered⟩ := a
  subst stack
  rfl

theorem raiseVarargs_two {origin : Value} {cause : Option ExceptionObject} {heap : Heap}
    (stack : a.frame.stack = origin :: .exception exception :: rest)
    (known : origin.cause? a.world.heap = some (cause, heap)) :
    raiseVarargs 2 a = .ok (.throw { exception with id := heap.born, cause })
      ({ a with frame := { a.frame with stack := rest } }.setHeap heap.fresh.2) := by
  obtain ⟨world, ⟨code, globals, locals, _, blocks, ip, last, level⟩, recovered⟩ := a
  subst stack
  cases origin with
  | nothing | exception object | exceptionKind kind =>
      cases known
      rfl
  | _ => cases known

end Exec

namespace Machine

variable {machine : Machine} {a after : Active} {exception : ExceptionObject}

theorem dispatch_raiseVarargs {instruction : Instruction Value} {form : Nat} {effect : Effect}
    (fetched : fetch machine.active = (.ok instruction, a)) (opcode : instruction.opcode = .raiseVarargs)
    (operand : instruction.operand = .int form) (run : Exec.raiseVarargs form a = .ok effect after) :
    machine.dispatch = follow machine.callers effect after := by
  apply dispatch_followed _ fetched
  rw [opcode, operand]
  exact run

/-- The next instruction raises an exception, of which this holds wherever it is shown on its way. The way ends
where the exception comes to rest, or at a block that fails. -/
def Sends (machine : Machine) (raised : ExceptionObject) (holds : List Frame → ExceptionObject → Prop) : Prop :=
  ∃ origin pending, machine.dispatch = .passing origin ∧ origin.signal = .raise pending ∧
    pending.exception = raised ∧ origin.Carries (holds (origin.active.frame :: origin.callers)) ∧
    ((∃ left, origin.Conveys left (.resting (Phase.passing origin).settle)) ∨ origin.Thwarted)

theorem sends_gains {origin : Passage} {pending : Raised} (dispatched : machine.dispatch = .passing origin)
    (raises : origin.signal = .raise pending) (same : pending.exception = exception) :
    machine.Sends exception exception.Gains :=
  ⟨origin, pending, dispatched, raises, same, same ▸ Passage.carries_gains raises, origin.conveys_or_thwarted⟩

theorem Sends.imp {first second : List Frame → ExceptionObject → Prop} (sends : machine.Sends exception first)
    (implies : ∀ frames now, first frames now → second frames now) : machine.Sends exception second := by
  obtain ⟨origin, pending, dispatched, raises, same, carries, arrives⟩ := sends
  exact ⟨origin, pending, dispatched, raises, same, carries.imp (implies _), arrives⟩

/-- Raised again as it is, the exception being handled is on its way itself, with the context that it has: if it
has none, one of the other handlers running may still give it theirs, which is another exception. Raised again
with a cause, it becomes the context of a copy, and remains so; the operands are then above what the handler saved,
and the exception is one that was made before. -/
theorem reraise_context {instruction : Instruction Value} {form : Nat} {kind value trace : Value} {held : Raised}
    {heap : Heap} (fetched : fetch machine.active = (.ok instruction, a))
    (opcode : instruction.opcode = .raiseVarargs) (operand : instruction.operand = .int form)
    (innermost : Innermost (a.frame :: machine.callers) kind value trace)
    (built : Raised.ofValues kind value trace a.world.heap = .ok (held, heap)) :
    (form = 0 ∨ form = 1 ∧ a.frame.stack.head? = some (.exception held.exception) →
      machine.Sends held.exception held.exception.Gains) ∧
    ∀ origin cause rest known, form = 2 → a.frame.stack = origin :: .exception held.exception :: rest →
      origin.cause? a.world.heap = some (cause, known) → value = .exception held.exception →
      Innermost ({ a.frame with stack := rest } :: machine.callers) kind value trace →
      held.exception.id < a.world.heap.born →
      let copy := { held.exception with id := known.fresh.2.born, cause, context := some held.exception }
      machine.Sends copy fun _ now => now = copy := by
  have thrown {exception : ExceptionObject} {after : Active}
      (run : Exec.raiseVarargs form a = .ok (.throw exception) after) :
      machine.dispatch = .passing (.ofThrow machine.callers exception after) :=
    dispatch_raiseVarargs fetched opcode operand run
  refine ⟨?_, ?_⟩
  · rintro (rfl | ⟨rfl, top⟩)
    · have handled : handled? a.world.heap (a.frame :: machine.callers) = some (held, heap) := by
        rw [innermost.handled?, built]
        rfl
      have taken : machine.dispatch = .passing ⟨.raise held, (a.setHeap heap).announce held, machine.callers⟩ := by
        rw [dispatch_raiseVarargs fetched opcode operand rfl]
        simp only [follow, handled]
      exact sends_gains taken rfl rfl
    · obtain ⟨rest, stack⟩ := List.head?_eq_some_iff.mp top
      obtain ⟨⟨known, rfl⟩, -, -⟩ := Raised.saved_of_ofValues built
      have handled : handled? a.world.heap ({ a.frame with stack := rest } :: machine.callers) = some (held, heap) := by
        rw [(innermost.popped stack (by simp)).handled?, built]
        rfl
      -- It is looked up in the same heap as before, so that it is found to be the same even if it is made anew.
      refine sends_gains (thrown (Exec.raiseVarargs_one stack)) rfl ?_
      rw [Active.throw_handled handled, if_pos rfl]
  · rintro origin cause rest known rfl stack given rfl below made copy
    have handled : handled? known.fresh.2 ({ a.frame with stack := rest } :: machine.callers) =
        some (held, known.fresh.2) := by
      rw [below.handled?, Raised.ofValues_exception built]
      rfl
    have differs : held.exception.id ≠ known.born := by
      have later := Value.born_le_of_cause? given
      omega
    have sent := sends_gains (thrown (Exec.raiseVarargs_two stack given)) rfl rfl
    rw [Active.throw_handled handled, if_neg differs] at sent
    exact sent.imp fun frames now gains => gains.eq_of_context rfl

end Machine

/-- A handler that raises its exception again. -/
def raiseAgain : Code Value :=
  { name := "again", instructions := #[121, 6, 0, 100, 0, 0, 130, 1, 0, 1, 130, 1, 0]
    constants := [.exceptionKind .valueError], names := [], localSlots := [], argCount := 0 }

/-- A handler that raises its exception again, with no cause. -/
def raiseAgainFrom : Code Value :=
  { name := "again", instructions := #[121, 6, 0, 100, 0, 0, 130, 1, 0, 1, 100, 1, 0, 130, 2, 0]
    constants := [.exceptionKind .valueError, .nothing], names := [], localSlots := [], argCount := 0 }

theorem reraise_context_raiseAgain :
    (∃ machine held, (twoFrames.launch raiseAgain ⟨⟨0⟩, ⟨0⟩⟩ []).advance 4 = .running machine ∧
      held.kind = .valueError ∧ held.context = none ∧ machine.Sends held held.Gains) ∧
    ∃ machine held copy, (twoFrames.launch raiseAgainFrom ⟨⟨0⟩, ⟨0⟩⟩ []).advance 5 = .running machine ∧
      held.kind = .valueError ∧ held.context = none ∧ copy.context = some held ∧
      machine.Sends copy fun _ now => now = copy := by
  constructor
  · obtain ⟨machine, instruction, a, kind, value, trace, held, heap, ran, fetched, opcode, operand, blocks, saving,
        built, raised, bare, top⟩ : ∃ machine instruction a kind value trace held heap,
          (twoFrames.launch raiseAgain ⟨⟨0⟩, ⟨0⟩⟩ []).advance 4 = .running machine ∧
          Machine.fetch machine.active = (.ok instruction, a) ∧ instruction.opcode = .raiseVarargs ∧
          instruction.operand = .int 1 ∧ a.frame.blocks = [] ++ .exceptHandler 0 :: [] ∧
          a.frame.Saving 0 kind value trace ∧ Raised.ofValues kind value trace a.world.heap = .ok (held, heap) ∧
          held.exception.kind = .valueError ∧ held.exception.context = none ∧
          a.frame.stack.head? = some (.exception held.exception) :=
      ⟨_, _, _, _, _, _, _, _, rfl, rfl, rfl, rfl, rfl, ⟨by decide, rfl⟩, rfl, rfl, rfl, rfl⟩
    have innermost : Innermost (a.frame :: machine.callers) kind value trace := .here blocks (by simp) saving
    exact ⟨machine, held.exception, ran, raised, bare,
      (Machine.reraise_context fetched opcode operand innermost built).1 (.inr ⟨rfl, top⟩)⟩
  · obtain ⟨machine, instruction, a, kind, trace, held, heap, rest, ran, fetched, opcode, operand, blocks, saving,
        built, raised, bare, stack, below, made⟩ : ∃ machine instruction a kind trace held heap rest,
          (twoFrames.launch raiseAgainFrom ⟨⟨0⟩, ⟨0⟩⟩ []).advance 5 = .running machine ∧
          Machine.fetch machine.active = (.ok instruction, a) ∧ instruction.opcode = .raiseVarargs ∧
          instruction.operand = .int 2 ∧ a.frame.blocks = [] ++ .exceptHandler 0 :: [] ∧
          a.frame.Saving 0 kind (.exception held.exception) trace ∧
          Raised.ofValues kind (.exception held.exception) trace a.world.heap = .ok (held, heap) ∧
          held.exception.kind = .valueError ∧ held.exception.context = none ∧
          a.frame.stack = .nothing :: .exception held.exception :: rest ∧
          { a.frame with stack := rest }.Saving 0 kind (.exception held.exception) trace ∧
          held.exception.id < a.world.heap.born :=
      ⟨_, _, _, _, _, _, _, _, rfl, rfl, rfl, rfl, rfl, ⟨by decide, rfl⟩, rfl, rfl, rfl, rfl, ⟨by decide, rfl⟩,
        by decide⟩
    have innermost : Innermost (a.frame :: machine.callers) kind (.exception held.exception) trace :=
      .here blocks (by simp) saving
    exact ⟨machine, held.exception, _, ran, raised, bare, rfl,
      (Machine.reraise_context fetched opcode operand innermost built).2 .nothing none rest a.world.heap rfl stack rfl
        rfl (.here blocks (by simp) below) made⟩

/-- The exception of a handler becomes the context of its own copy, with which the run ends. -/
theorem raiseAgainFrom_chained :
    let start := twoFrames.launch raiseAgainFrom ⟨⟨0⟩, ⟨0⟩⟩ []
    ∃ machine held rest heap final world, start.advance 5 = .running machine ∧
      handled? machine.active.world.heap (machine.active.frame :: machine.callers) = some (held, heap) ∧
      machine.active.frame.stack = .nothing :: .exception held.exception :: rest ∧ held.exception.context = none ∧
      start.advance 6 = .finished (.error final) world ∧ final.exception.context = some held.exception :=
  ⟨_, _, _, _, _, _, rfl, rfl, rfl, rfl, rfl, rfl⟩

end BlockVM
