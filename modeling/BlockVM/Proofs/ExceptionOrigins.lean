import BlockVM.Proofs.CallStack

namespace BlockVM

/-! # Origins of exceptions

Every exception that is under way was raised anew, or was taken up from where an earlier one had been saved. -/

/-- The slots of the data stack in which a running handler has saved its exception. -/
structure Frame.Saving (frame : Frame) (depth : Nat) (kind value trace : Value) : Prop where
  enough : depth + 3 ≤ frame.stack.length
  slots : frame.stack.rtake (depth + 3) = kind :: value :: trace :: frame.stack.rtake depth

/-- No handler is running in the frame. -/
def Frame.Idle (frame : Frame) : Prop :=
  ∀ block ∈ frame.blocks, block.kind ≠ .exceptHandler

/-- The innermost running handler has saved these values: the first one from the top of the block stack of
the first frame in which a handler is running. -/
inductive Innermost : List Frame → Value → Value → Value → Prop where
  | here {frame : Frame} {callers : List Frame} {above below : List Block} {depth : Nat} {kind value trace : Value}
      (blocks : frame.blocks = above ++ .exceptHandler depth :: below)
      (nearest : ∀ block ∈ above, block.kind ≠ .exceptHandler) (saving : frame.Saving depth kind value trace) :
      Innermost (frame :: callers) kind value trace
  | outward {frame : Frame} {callers : List Frame} {kind value trace : Value} (idle : frame.Idle)
      (further : Innermost callers kind value trace) : Innermost (frame :: callers) kind value trace

theorem handlerDepth?_of_plain {above : List Block} (plain : ∀ block ∈ above, block.kind ≠ .exceptHandler)
    (below : List Block) :
    (above ++ below).findSome? (fun | .exceptHandler depth => some depth | _ => none) =
      below.findSome? (fun | .exceptHandler depth => some depth | _ => none) := by
  induction above with
  | nil => rfl
  | cons block above ih =>
      obtain ⟨top, rest⟩ := List.forall_mem_cons.mp plain
      cases block with
      | exceptHandler depth => exact absurd rfl top
      | loop exit depth | setupExcept handler depth | «finally» handler depth => exact ih rest

theorem Frame.Idle.handlerDepth? {frame : Frame} (idle : frame.Idle) : frame.handlerDepth? = none := by
  have plain := handlerDepth?_of_plain idle []
  rw [List.append_nil] at plain
  exact plain

theorem handled?_of_idle {frames : List Frame} (idle : ∀ frame ∈ frames, frame.Idle) (heap : Heap) :
    handled? heap frames = none := by
  induction frames with
  | nil => rfl
  | cons frame callers ih =>
      obtain ⟨top, rest⟩ := List.forall_mem_cons.mp idle
      rw [handled?, top.handlerDepth?]
      exact ih rest

theorem Innermost.handled? {frames : List Frame} {kind value trace : Value}
    (innermost : Innermost frames kind value trace) (heap : Heap) :
    handled? heap frames = (Raised.ofValues kind value trace heap).toOption := by
  induction innermost with
  | @here frame callers above below depth kind value trace blocks nearest saving =>
      have found : frame.handlerDepth? = some depth := by
        rw [Frame.handlerDepth?, blocks]
        exact handlerDepth?_of_plain nearest _
      simp only [BlockVM.handled?, found, Frame.trim?_of_le saving.enough, saving.slots]
  | outward idle further ih =>
      rw [BlockVM.handled?, idle.handlerDepth?]
      exact ih

theorem Frame.idle_of_handlerDepth? {frame : Frame} (none : frame.handlerDepth? = none) : frame.Idle := by
  intro block member
  have skipped := List.findSome?_eq_none_iff.mp none block member
  cases block with
  | exceptHandler depth => cases skipped
  | loop exit depth | setupExcept handler depth | «finally» handler depth => simp [Block.kind]

theorem Frame.exists_of_handlerDepth? {frame : Frame} {depth : Nat} (found : frame.handlerDepth? = some depth) :
    ∃ above below, frame.blocks = above ++ .exceptHandler depth :: below ∧
      ∀ block ∈ above, block.kind ≠ .exceptHandler := by
  obtain ⟨above, block, below, blocks, named, skipped⟩ := List.findSome?_eq_some_iff.mp found
  cases block with
  | exceptHandler level =>
      cases named
      refine ⟨above, below, blocks, fun other member => ?_⟩
      have passed := skipped other member
      cases other with
      | exceptHandler depth => cases passed
      | loop exit depth | setupExcept handler depth | «finally» handler depth => simp [Block.kind]
  | loop exit depth | setupExcept handler depth | «finally» handler depth => cases named

namespace Raised

/-- The traceback as it is saved on the data stack. -/
def traceValue (raised : Raised) : Value :=
  match raised.trace with
  | some trace => .traceback trace
  | none => .nothing

theorem ofValues_trace {kind value trace : Value} {heap after : Heap} {raised : Raised}
    (built : ofValues kind value trace heap = .ok (raised, after)) : trace = raised.traceValue := by
  obtain ⟨⟨known, rfl⟩, value, trace⟩ := saved_of_ofValues built
  rcases value with rfl | ⟨object, rfl⟩ <;> rcases trace with rfl | ⟨frames, rfl⟩ <;> cases built <;> rfl

end Raised

theorem handled?_innermost {heap after : Heap} {frames : List Frame} {raised : Raised}
    (handled : handled? heap frames = some (raised, after)) :
    ∃ kind value, Innermost frames kind value raised.traceValue ∧ Saved kind value raised.traceValue := by
  induction frames with
  | nil => cases handled
  | cons frame callers ih =>
      unfold handled? at handled
      cases found : frame.handlerDepth? with
      | none =>
          rw [found] at handled
          obtain ⟨kind, value, innermost, saved⟩ := ih handled
          exact ⟨kind, value, .outward (Frame.idle_of_handlerDepth? found) innermost, saved⟩
      | some depth =>
          rw [found] at handled
          dsimp only at handled
          obtain ⟨above, below, blocks, nearest⟩ := Frame.exists_of_handlerDepth? found
          rcases Nat.lt_or_ge frame.stack.length (depth + 3) with short | enough
          · rw [Frame.trim?_of_lt short] at handled
            cases handled
          · obtain ⟨kind, value, trace, slots⟩ := Active.rtake_handler enough
            simp only [Frame.trim?_of_le enough, slots] at handled
            cases built : Raised.ofValues kind value trace heap with
            | error fault => rw [built] at handled; cases handled
            | ok result =>
                rw [built] at handled
                cases handled
                obtain rfl := Raised.ofValues_trace built
                exact ⟨kind, value, .here blocks nearest ⟨enough, slots⟩, Raised.saved_of_ofValues built⟩

namespace Active

variable {callers : List Frame} {exception : ExceptionObject} {a : Active}

theorem throw_unhandled (unhandled : handled? a.world.heap (a.frame :: callers) = none) :
    (a.throw callers exception).1 = ⟨exception, none⟩ := by
  simp only [throw, unhandled]

theorem throw_handled {held : Raised} {heap : Heap}
    (handled : handled? a.world.heap (a.frame :: callers) = some (held, heap)) :
    (a.throw callers exception).1 =
      if held.exception.id = exception.id then ⟨exception, none⟩
      else ⟨{ exception with id := heap.born, context := some held.exception }, none⟩ := by
  simp only [throw, handled]
  by_cases own : held.exception.id = exception.id
  · rw [if_pos own, if_pos own]
  · rw [if_neg own, if_neg own]
    rfl

/-- The exception of a fault, before it is raised. -/
def exceptionOf (fault : Fault) (a : Active) : ExceptionObject :=
  { id := a.world.heap.born, kind := fault.kind, message := fault.message?, context := none, cause := none }

/-- The state in which an exception has just been made. -/
def aged (a : Active) : Active :=
  a.setHeap a.world.heap.fresh.2

end Active

namespace Passage

/-- An exception under way that has just been raised. -/
def ofThrow (callers : List Frame) (exception : ExceptionObject) (a : Active) : Passage :=
  ⟨.raise (a.throw callers exception).1, (a.throw callers exception).2, callers⟩

theorem ofFault_eq (callers : List Frame) (fault : Fault) (a : Active) :
    ofFault callers fault a = ofThrow callers (a.exceptionOf fault) a.aged :=
  rfl

end Passage

/-- An exception is raised anew: in the place of an instruction or by one, by a `break` or `continue` without a
loop, or in the place of a signal that a block fails on. It is raised in the state `a`, where the instruction has
taken its operands from the data stack. -/
inductive Phase.Throws : Phase → ExceptionObject → Active → List Frame → Prop where
  | refused {machine : Machine} {fault : Fault} {a : Active}
      (fetched : Machine.fetch machine.active = (.error fault, a)) :
      Throws (.resting (.running machine)) (a.exceptionOf fault) a.aged machine.callers
  | failed {machine : Machine} {instruction : Instruction Value} {fault : Fault} {before a : Active}
      (fetched : Machine.fetch machine.active = (.ok instruction, before))
      (run : execute instruction.opcode instruction.operand before = .error (.raised fault) a) :
      Throws (.resting (.running machine)) (a.exceptionOf fault) a.aged machine.callers
  | thrown {machine : Machine} {instruction : Instruction Value} {exception : ExceptionObject} {before a : Active}
      (fetched : Machine.fetch machine.active = (.ok instruction, before))
      (run : execute instruction.opcode instruction.operand before = .ok (.throw exception) a) :
      Throws (.resting (.running machine)) exception a machine.callers
  | nothing {machine : Machine} {instruction : Instruction Value} {before a : Active}
      (fetched : Machine.fetch machine.active = (.ok instruction, before))
      (run : execute instruction.opcode instruction.operand before = .ok .rethrow a)
      (unhandled : handled? a.world.heap (a.frame :: machine.callers) = none) (forgotten : a.recovered = none) :
      Throws (.resting (.running machine)) (a.exceptionOf .noActiveException) a.aged machine.callers
  | homeless {passage : Passage} {fault : Fault} (empty : passage.active.frame.blocks = [])
      (homeless : Passage.homeless? passage.signal = some fault) :
      Throws (.passing passage) (passage.active.exceptionOf fault) passage.active.aged passage.callers
  | supplanted {passage : Passage} {block : Block} {rest : List Block} {fault : Fault} {a : Active}
      (standing : passage.active.frame.blocks = block :: rest)
      (met : passage.active.meet passage.callers block rest passage.signal = a.supplant passage.callers fault) :
      Throws (.passing passage) (a.exceptionOf fault) a.aged passage.callers

theorem Phase.Throws.step {before : Phase} {exception : ExceptionObject} {a : Active} {callers : List Frame}
    (throws : before.Throws exception a callers) : before.Step (.passing (.ofThrow callers exception a)) := by
  have dispatched {machine : Machine} {passage : Passage} (same : machine.dispatch = .passing passage) :
      (Phase.resting (.running machine)).Step (.passing passage) :=
    same ▸ .dispatch machine (by rw [same]; nofun)
  have stepped {passage next : Passage} (same : passage.step = .passing next) :
      (Phase.passing passage).Step (.passing next) :=
    same ▸ .signal passage
  cases throws with
  | @refused machine fault a fetched =>
      apply dispatched
      obtain ⟨active, callers⟩ := machine
      simp only [Machine.dispatch, fetched, Passage.raise_eq, Passage.ofFault_eq]
  | failed fetched run => exact dispatched (Machine.dispatch_failed _ fetched run)
  | thrown fetched run => exact dispatched (Machine.dispatch_followed _ fetched run)
  | nothing fetched run unhandled forgotten =>
      apply dispatched
      refine (Machine.dispatch_followed _ fetched run).trans ?_
      simp only [Machine.follow, unhandled, forgotten, Passage.raise_eq, Passage.ofFault_eq]
  | homeless empty homeless =>
      apply stepped
      simp only [Passage.step, empty, Passage.leave_homeless homeless, Passage.ofFault_eq]
  | supplanted standing met =>
      apply stepped
      simp only [Passage.step, standing, met, Active.supplant_eq]
      rfl

theorem Active.throw_trace (callers : List Frame) (exception : ExceptionObject) (a : Active) :
    (a.throw callers exception).1.trace = none := by
  unfold throw
  split
  rfl

theorem Active.raise_trace (callers : List Frame) (fault : Fault) (a : Active) :
    (a.raise callers fault).1.trace = none :=
  throw_trace callers _ _

/-- The next instruction takes up an exception that was saved with the given traceback: the end of a `finally` body
takes it from the data stack, and a bare `raise` takes the one that the innermost running handler has saved or, if
there is none, the one that a finished handler gave back. -/
inductive Machine.TakesUp (machine : Machine) (trace : Value) : Prop where
  | resumed {instruction : Instruction Value} {a : Active} {kind value : Value} {rest : List Value}
      (fetched : fetch machine.active = (.ok instruction, a)) (opcode : instruction.opcode = .endFinally)
      (stack : a.frame.stack = kind :: value :: trace :: rest) (saved : Saved kind value trace) : TakesUp machine trace
  | handled {instruction : Instruction Value} {a : Active} {kind value : Value}
      (fetched : fetch machine.active = (.ok instruction, a)) (opcode : instruction.opcode = .raiseVarargs)
      (operand : instruction.operand = .int 0)
      (innermost : Innermost (a.frame :: machine.callers) kind value trace) (saved : Saved kind value trace) :
      TakesUp machine trace
  | recovered {instruction : Instruction Value} {a : Active} {raised : Raised}
      (fetched : fetch machine.active = (.ok instruction, a)) (opcode : instruction.opcode = .raiseVarargs)
      (operand : instruction.operand = .int 0)
      (unhandled : ∀ kind value held, Innermost (a.frame :: machine.callers) kind value held → ¬ Saved kind value held)
      (waiting : machine.active.recovered = some raised) (same : raised.traceValue = trace) : TakesUp machine trace

/-- How an exception that is under way next comes to be: it is raised anew, without a traceback, or it is taken up
with the traceback that was saved. -/
inductive Phase.Originates (before : Phase) (raised : Raised) : Prop where
  | thrown {exception : ExceptionObject} {a : Active} {callers : List Frame}
      (throws : before.Throws exception a callers) (same : raised = (a.throw callers exception).1)
      (bare : raised.trace = none) : Originates before raised
  | takenUp {machine : Machine} (running : before = .resting (.running machine))
      (takesUp : machine.TakesUp raised.traceValue) : Originates before raised

/-- What an instruction can start that takes up an exception from before. -/
def Effect.Arises (opcode : Opcode) (operand : Operand Value) (before after : Active) : Effect → Prop
  | .interrupt (.raise _) => False
  | .propagate raised => opcode = .endFinally ∧
      ∃ kind value rest, before.frame.stack = kind :: value :: raised.traceValue :: rest ∧
        Saved kind value raised.traceValue
  | .rethrow => opcode = .raiseVarargs ∧ operand = .int 0 ∧ after = before
  | _ => True

/-- No exception from before is taken up. -/
def Effect.Anew : Effect → Prop
  | .interrupt (.raise _) | .propagate _ | .rethrow => False
  | _ => True

theorem Effect.Anew.arises {effect : Effect} (anew : effect.Anew) (opcode : Opcode) (operand : Operand Value)
    (before after : Active) : effect.Arises opcode operand before after := by
  cases effect with
  | interrupt signal => cases signal <;> trivial
  | propagate raised | rethrow => cases anew
  | next | throw exception | call callee => trivial

namespace Exec

theorem delivers_anew_next (operation : Exec Unit) : Delivers Effect.Anew (thenNext operation) :=
  .bind fun _ => .pure trivial

theorem delivers_anew_invoke (arguments : List Value) (callee : Value) :
    Delivers Effect.Anew (invoke arguments callee) := by
  cases callee with
  | function id name code defaults =>
      exact .bind fun _ => .bind fun _ => .bind fun _ => .bind fun _ => .bind fun _ => .bind fun _ => .pure trivial
  | builtin function => exact .bind fun _ => .bind fun _ => .pure trivial
  | exceptionKind kind => exact .bind fun _ => .bind fun _ => .bind fun _ => .pure trivial
  | _ => exact delivers_raise _

theorem pop_inv {a after : Active} {value : Value} (run : pop a = .ok value after) :
    a.frame.stack = value :: after.frame.stack ∧ after.world = a.world := by
  obtain ⟨world, ⟨code, globals, locals, stack, blocks, ip, last, level⟩, recovered⟩ := a
  cases stack <;> cases run
  exact ⟨rfl, rfl⟩

theorem endFinally_arises {operand : Operand Value} {before after : Active} {effect : Effect}
    (run : endFinally before = .ok effect after) : effect.Arises .endFinally operand before after := by
  obtain ⟨top, middle, popped, run⟩ := run_bind run
  obtain ⟨stack, -⟩ := pop_inv popped
  have anew {next : Exec Effect} (run : next middle = .ok effect after) (delivers : Delivers Effect.Anew next) :
      effect.Arises .endFinally operand before after :=
    (delivers _ _ _ run).arises ..
  cases top with
  | nothing => exact anew run (.pure trivial)
  | signal interruption =>
      cases interruption with
      | returning => exact anew run (.bind fun _ => .pure trivial)
      | breaking => exact anew run (.pure trivial)
      | raising => exact anew run (delivers_raise _)
      | continuing target =>
          refine anew run (.bind fun payload => ?_)
          split
          · split
            · exact delivers_raise _
            · exact .pure trivial
          · exact delivers_raise _
  | exceptionKind kind =>
      obtain ⟨value, second, poppedValue, run⟩ := run_bind run
      obtain ⟨trace, third, poppedTrace, run⟩ := run_bind run
      obtain ⟨a, same, got, run⟩ := run_bind run
      cases got
      obtain ⟨⟨raised, heap⟩, fourth, computed, run⟩ := run_bind run
      have built : Raised.ofValues (.exceptionKind kind) value trace third.world.heap = .ok (raised, heap) := by
        unfold act at computed
        cases outcome : Raised.ofValues (.exceptionKind kind) value trace third.world.heap with
        | ok result => rw [outcome] at computed; cases computed; rfl
        | error fault => rw [outcome] at computed; cases computed
      obtain ⟨_, fifth, _, run⟩ := run_bind run
      cases run
      obtain rfl := Raised.ofValues_trace built
      refine ⟨rfl, .exceptionKind kind, value, third.frame.stack, ?_, Raised.saved_of_ofValues built⟩
      rw [stack, (pop_inv poppedValue).1, (pop_inv poppedTrace).1]
  | _ => exact anew run (delivers_raise _)

theorem endFinally_resumed {a : Active} {kind : ExceptionKind} {value trace : Value} {rest : List Value}
    {raised : Raised} {heap : Heap} (stack : a.frame.stack = .exceptionKind kind :: value :: trace :: rest)
    (built : Raised.ofValues (.exceptionKind kind) value trace a.world.heap = .ok (raised, heap)) :
    endFinally a =
      .ok (.propagate raised) ({ a with frame := { a.frame with stack := rest } }.setHeap heap) := by
  obtain ⟨world, ⟨code, globals, locals, _, blocks, ip, last, level⟩, recovered⟩ := a
  cases stack
  change (act (Act.ofExcept (Raised.ofValues (.exceptionKind kind) value trace world.heap)) >>= _) _ = _
  rw [built]
  rfl

theorem raiseVarargs_arises {form : Nat} {before after : Active} {effect : Effect}
    (run : raiseVarargs form before = .ok effect after) :
    effect.Arises .raiseVarargs (.int form) before after := by
  have anew (delivers : Delivers Effect.Anew (raiseVarargs form)) :
      effect.Arises .raiseVarargs (.int form) before after :=
    (delivers _ _ _ run).arises ..
  unfold raiseVarargs at run anew
  split at run
  · cases run
    exact ⟨rfl, rfl, rfl⟩
  · refine anew (.bind fun _ => .bind fun found => ?_)
    cases found with
    | some exception => exact .pure trivial
    | none => exact delivers_raise _
  · refine anew (.bind fun (value, origin) => .bind fun found => ?_)
    cases found with
    | none => exact delivers_raise _
    | some exception =>
        cases origin with
        | nothing => exact .bind fun _ => .bind fun _ => .bind fun _ => .pure trivial
        | _ =>
            refine .bind fun cause => ?_
            cases cause <;> exact .bind fun _ => .bind fun _ => .bind fun _ => .pure trivial
  · cases run

end Exec

open Exec in
theorem execute_arises {opcode : Opcode} {operand : Operand Value} {before after : Active} {effect : Effect}
    (run : execute opcode operand before = .ok effect after) : effect.Arises opcode operand before after := by
  have anew (delivers : Delivers Effect.Anew (execute opcode operand)) :
      effect.Arises opcode operand before after :=
    (delivers _ _ _ run).arises ..
  cases opcode with
  | endFinally => exact endFinally_arises run
  | raiseVarargs =>
      cases operand with
      | int form => exact raiseVarargs_arises run
      | _ => cases run
  | nop | breakLoop => exact anew (.pure trivial)
  | returnValue => exact anew (.bind fun _ => .pure trivial)
  | continueLoop => exact anew (.bind fun _ => .pure trivial)
  | callFunction => exact anew (.bind fun _ => .bind fun _ => .bind fun _ => delivers_anew_invoke _ _)
  | yieldValue | loadAttr | loadClosure | loadDeref => exact anew (delivers_raise _)
  | _ => exact anew (delivers_anew_next _)

namespace Machine

theorem fetch_recovered {a after : Active} {result : Except Fault (Instruction Value)}
    (fetched : fetch a = (result, after)) : after.recovered = a.recovered := by
  have fetches := fetch_fetches a
  rw [fetched] at fetches
  cases fetches <;> rfl

theorem follow_originates {machine : Machine} {instruction : Instruction Value} {a after : Active}
    {effect : Effect} {passage : Passage} {raised : Raised}
    (fetched : fetch machine.active = (.ok instruction, a))
    (run : execute instruction.opcode instruction.operand a = .ok effect after)
    (followed : follow machine.callers effect after = .passing passage)
    (raises : passage.signal = .raise raised) : (Phase.resting (.running machine)).Originates raised := by
  have arises := execute_arises run
  cases effect with
  | next | call callee => cases followed
  | interrupt signal =>
      obtain rfl := Phase.passing.inj followed
      subst raises
      cases arises
  | propagate taken =>
      obtain rfl := Phase.passing.inj followed
      obtain rfl := Signal.raise.inj raises
      obtain ⟨opcode, kind, value, rest, stack, saved⟩ := arises
      exact .takenUp rfl (.resumed fetched opcode stack saved)
  | throw exception =>
      obtain rfl := Phase.passing.inj followed
      obtain rfl := Signal.raise.inj raises
      exact .thrown (.thrown fetched run) rfl (after.throw_trace machine.callers exception)
  | rethrow =>
      obtain ⟨opcode, operand, rfl⟩ := arises
      unfold follow at followed
      dsimp only at followed
      split at followed
      · rename_i handled
        obtain rfl := Phase.passing.inj followed
        obtain rfl := Signal.raise.inj raises
        obtain ⟨kind, value, innermost, saved⟩ := handled?_innermost handled
        exact .takenUp rfl (.handled fetched opcode operand innermost saved)
      · rename_i unhandled
        split at followed
        · rename_i recovered
          obtain rfl := Phase.passing.inj followed
          obtain rfl := Signal.raise.inj raises
          refine .takenUp rfl (.recovered fetched opcode operand (fun kind value held innermost saved => ?_)
            ((fetch_recovered fetched).symm.trans recovered) rfl)
          obtain ⟨held, heap, built⟩ := Raised.ofValues_exists saved after.world.heap
          rw [innermost.handled?, built] at unhandled
          cases unhandled
        · rename_i forgotten
          obtain rfl := Phase.passing.inj followed
          obtain rfl := Signal.raise.inj raises
          exact .thrown (.nothing fetched run unhandled forgotten) rfl (Active.raise_trace ..)

theorem dispatch_originates {machine : Machine} {passage : Passage} {raised : Raised}
    (dispatched : machine.dispatch = .passing passage) (raises : passage.signal = .raise raised) :
    (Phase.resting (.running machine)).Originates raised := by
  have executes := machine.dispatch_executes
  generalize machine.dispatch = reached at executes dispatched
  cases executes with
  | refused fetched =>
      obtain rfl := Phase.passing.inj dispatched
      obtain rfl := Signal.raise.inj raises
      exact .thrown (.refused fetched) rfl (Active.raise_trace ..)
  | failed fetched run =>
      obtain rfl := Phase.passing.inj dispatched
      obtain rfl := Signal.raise.inj raises
      exact .thrown (.failed fetched run) rfl (Active.raise_trace ..)
  | followed fetched run => exact follow_originates fetched run dispatched raises
  | unending fetched run => cases dispatched

theorem dispatch_rethrow {machine : Machine} {instruction : Instruction Value} {a : Active}
    (fetched : fetch machine.active = (.ok instruction, a)) (opcode : instruction.opcode = .raiseVarargs)
    (operand : instruction.operand = .int 0) : machine.dispatch = follow machine.callers .rethrow a :=
  dispatch_followed _ fetched (by rw [opcode, operand]; rfl)

/-- An exception that is taken up sets out with the traceback that was saved. -/
theorem TakesUp.dispatch {machine : Machine} {trace : Value} (takesUp : machine.TakesUp trace) :
    ∃ raised after, machine.dispatch = .passing ⟨.raise raised, after, machine.callers⟩ ∧
      raised.traceValue = trace := by
  cases takesUp with
  | @resumed instruction a kind value rest fetched opcode stack saved =>
      obtain ⟨raised, heap, built⟩ := Raised.ofValues_exists saved a.world.heap
      obtain ⟨⟨known, rfl⟩, -, -⟩ := saved
      have run : execute instruction.opcode instruction.operand a = .ok (.propagate raised)
          ({ a with frame := { a.frame with stack := rest } }.setHeap heap) := by
        rw [opcode]
        exact Exec.endFinally_resumed stack built
      exact ⟨raised, _, dispatch_followed _ fetched run, (Raised.ofValues_trace built).symm⟩
  | @handled instruction a kind value fetched opcode operand innermost saved =>
      obtain ⟨raised, heap, built⟩ := Raised.ofValues_exists saved a.world.heap
      have handled : handled? a.world.heap (a.frame :: machine.callers) = some (raised, heap) := by
        rw [innermost.handled?, built]
        rfl
      refine ⟨raised, (a.setHeap heap).announce raised, ?_, (Raised.ofValues_trace built).symm⟩
      rw [dispatch_rethrow fetched opcode operand]
      simp only [follow, handled]
  | @recovered instruction a raised fetched opcode operand unhandled waiting same =>
      have absent : handled? a.world.heap (a.frame :: machine.callers) = none := by
        cases found : handled? a.world.heap (a.frame :: machine.callers) with
        | none => rfl
        | some pair =>
            obtain ⟨kind, value, innermost, saved⟩ := handled?_innermost found
            exact absurd saved (unhandled kind value _ innermost)
      refine ⟨raised, a.announce raised, ?_, same⟩
      rw [dispatch_rethrow fetched opcode operand]
      simp only [follow, absent, (fetch_recovered fetched).trans waiting]

end Machine

end BlockVM
