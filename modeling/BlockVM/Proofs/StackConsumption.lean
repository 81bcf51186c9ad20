import BlockVM.Proofs.Instructions

namespace BlockVM

/-! What an instruction takes off the data stack. The values below stay where they are, whether the
instruction succeeds or not. -/

/-- However an operation ends, these values lie at the bottom of the data stack. -/
def LeavesBelow {α : Type} (base : List Value) : EStateM.Result Failure Active α → Prop
  | .ok _ after => base <:+ after.frame.stack
  | .error _ after => base <:+ after.frame.stack

theorem LeavesBelow.mono {α : Type} {base narrow : List Value} {outcome : EStateM.Result Failure Active α}
    (leaves : LeavesBelow base outcome) (suffix : narrow <:+ base) : LeavesBelow narrow outcome := by
  cases outcome <;> exact suffix.trans leaves

theorem suffix_drop {short long : List Value} (suffix : short <:+ long) (count : Nat) :
    short.drop count <:+ long.drop count := by
  obtain ⟨above, rfl⟩ := suffix
  rw [List.drop_append]
  exact (List.drop_suffix_drop_left short (Nat.sub_le count above.length)).trans (List.suffix_append _ _)

/-- A number that depends on the topmost value. -/
def Active.byTop (count : Value → Nat) (a : Active) : Nat :=
  match a.frame.stack with
  | value :: _ => count value
  | [] => 0

theorem leavesBelow_byTop {α : Type} {count : Value → Nat} {a : Active} {outcome : EStateM.Result Failure Active α}
    (leaves : ∀ value rest, a.frame.stack = value :: rest →
      LeavesBelow (a.frame.stack.drop (count value)) outcome) :
    LeavesBelow (a.frame.stack.drop (a.byTop count)) outcome := by
  cases stack : a.frame.stack with
  | nil =>
      rw [List.drop_nil]
      cases outcome <;> exact List.nil_suffix
  | cons value rest =>
      have counted : a.byTop count = count value := by rw [Active.byTop, stack]
      rw [counted, ← stack]
      exact leaves value rest stack

namespace Exec

variable {α β : Type}

/-- The operation takes at most the topmost `count` values off. -/
def Draws (count : Nat) (operation : Exec α) : Prop :=
  ∀ a, LeavesBelow (a.frame.stack.drop count) (operation a)

namespace Draws

variable {count more : Nat} {operation : Exec α} {next : α → Exec β}

theorem bind_add (first : Draws count operation) (second : ∀ value, Draws more (next value)) :
    Draws (count + more) (operation >>= next) := by
  intro a
  have taken := first a
  change LeavesBelow _ (EStateM.bind operation next a)
  unfold EStateM.bind
  rw [← List.drop_drop]
  cases run : operation a with
  | ok value middle =>
      rw [run] at taken
      exact (second value middle).mono (suffix_drop taken more)
  | error failure after =>
      rw [run] at taken
      exact (List.drop_suffix _ _).trans taken

/-- After the values are off, nothing else is taken. -/
theorem bind (first : Draws count operation) (second : ∀ value, Draws 0 (next value)) :
    Draws count (operation >>= next) :=
  first.bind_add second

/-- Before the values are taken, the stack is only looked at or grows. -/
theorem bind_later (first : Draws 0 operation) (second : ∀ value, Draws more (next value)) :
    Draws more (operation >>= next) := by
  have both := first.bind_add second
  rwa [Nat.zero_add] at both

theorem thenNext {operation : Exec Unit} (draws : Draws count operation) : Draws count (thenNext operation) :=
  draws.bind fun _ => fun a => List.suffix_refl a.frame.stack

end Draws

theorem Handles.draws {need pops pushes : Nat} {operation : Exec α}
    (handles : Handles (fun _ => True) need pops pushes operation) : Draws pops operation := by
  intro a
  have handled := handles.handled a
  cases run : operation a with
  | ok value after =>
      rw [run] at handled
      obtain ⟨-, -, fresh, -, frame⟩ := handled
      change _ <:+ after.frame.stack
      rw [frame]
      exact List.suffix_append _ _
  | error failure after =>
      rw [run] at handled
      exact handled.2

theorem draws_jump (target : Nat) : Draws 0 (jump target) :=
  fun a => List.suffix_refl a.frame.stack

theorem pop_bind {next : Value → Exec α} {a : Active} {value : Value} {rest : List Value}
    (stack : a.frame.stack = value :: rest) : (pop >>= next) a = next value (a.discard 1) := by
  obtain ⟨world, ⟨code, globals, locals, _, blocks, ip, last, level⟩, recovered⟩ := a
  cases stack
  rfl

theorem peek_bind {next : Value → Exec α} {a : Active} {value : Value} {rest : List Value}
    (stack : a.frame.stack = value :: rest) : (peek 0 >>= next) a = next value a := by
  obtain ⟨world, ⟨code, globals, locals, _, blocks, ip, last, level⟩, recovered⟩ := a
  cases stack
  rfl

theorem draws_callFunction (count : Nat) : Draws (count + 1) (callFunction count) := by
  refine .bind_add (handles_popMany count).draws fun arguments => .bind handles_pop.draws fun callee => ?_
  cases callee with
  | function id name code defaults => exact (handles_enter (fun _ _ => trivial) code arguments defaults).draws
  | _ => exact (handles_invoke (by simp) arguments).draws

theorem leavesBelow_thenNext {base : List Value} {operation : Exec Unit} {a : Active}
    (leaves : LeavesBelow base (operation a)) : LeavesBelow base (thenNext operation a) := by
  change LeavesBelow base (EStateM.bind operation _ a)
  unfold EStateM.bind
  cases run : operation a <;> rw [run] at leaves <;> exact leaves

theorem leavesBelow_discard {count : Nat} {operation : Exec α} (draws : Draws count operation) (a : Active) :
    LeavesBelow (a.frame.stack.drop (count + 1)) (operation (a.discard 1)) := by
  rw [Nat.add_comm, ← List.drop_drop]
  exact draws (a.discard 1)

theorem leavesBelow_truthy {whenTrue whenFalse : Exec Unit} {count other : Nat} (first : Draws count whenTrue)
    (second : Draws other whenFalse) (a : Active) :
    LeavesBelow (a.frame.stack.drop (a.byTop fun value => if value.truthy a.world.heap then count else other))
      ((do if ← truthy (← peek 0) then whenTrue else whenFalse) a) := by
  refine leavesBelow_byTop fun value rest stack => ?_
  rw [peek_bind stack]
  change LeavesBelow _ ((if value.truthy a.world.heap then whenTrue else whenFalse) a)
  cases value.truthy a.world.heap with
  | true => exact first a
  | false => exact second a

end Exec

/-- How many values the instruction takes off the data stack. A rotation takes what it puts back, and what is
only looked at is not taken. -/
def Opcode.draws (opcode : Opcode) (operand : Operand Value) (a : Active) : Nat :=
  match opcode with
  | .popTop | .unary _ | .getIter | .printExpr | .returnValue | .storeName | .storeGlobal | .storeFast
  | .unpackSequence | .popJumpIfFalse | .popJumpIfTrue | .listAppend => 1
  | .rotTwo | .binary _ | .inplace _ | .binarySubscr => 2
  | .rotThree | .storeSubscr => 3
  | .compareOp => if (Comparison.ofSelector? operand.count).isSome then 2 else 0
  | .buildTuple | .buildList => operand.count
  | .raiseVarargs => if operand.count ≤ 2 then operand.count else 0
  | .callFunction => operand.count + 1
  | .makeFunction => operand.count + 2
  | .jumpIfFalseOrPop => a.byTop fun value => if value.truthy a.world.heap then 1 else 0
  | .jumpIfTrueOrPop => a.byTop fun value => if value.truthy a.world.heap then 0 else 1
  | .forIter => a.byTop fun
      | .iterator ref => if ((a.world.heap.cursor ref).next? a.world.heap).isSome then 0 else 1
      | _ => 0
  | .endFinally => a.byTop fun
      | .signal .returning | .signal (.continuing _) => 2
      | .exceptionKind _ => 3
      | _ => 1
  | .popExcept =>
      match a.frame.blocks with
      | .exceptHandler depth :: _ => a.frame.stack.length - depth
      | _ => 0
  | _ => 0

theorem Active.release_suffix (block : Block) (a : Active) :
    a.frame.stack.rtake block.depth <:+ (a.release block).2.frame.stack := by
  cases block with
  | exceptHandler depth =>
      by_cases enough : depth + 3 ≤ a.frame.stack.length
      · obtain ⟨kind, value, trace, slots⟩ := rtake_handler enough
        rw [release_handler enough slots]
        split <;> exact List.suffix_refl _
      · simp only [release, Frame.trim?_of_lt (Nat.lt_of_not_le enough)]
        exact List.drop_suffix _ _
  | loop exit depth | setupExcept handler depth | «finally» handler depth =>
      rw [release_plain (by simp [Block.kind])]
      split
      · exact List.suffix_refl _
      · exact List.drop_suffix _ _

section

open Exec

variable (operand : Operand Value) (a : Active)

theorem endFinally_leavesBelow :
    LeavesBelow (a.frame.stack.drop (Opcode.endFinally.draws operand a)) (endFinally a) := by
  have raised (fault : Fault) : Draws 0 (raise fault : Exec Effect) := fun after => List.suffix_refl after.frame.stack
  refine leavesBelow_byTop fun value rest stack => ?_
  rw [endFinally, pop_bind stack]
  cases value with
  | nothing => exact leavesBelow_discard (Handles.pure _).draws a
  | signal interruption =>
      cases interruption with
      | returning => exact leavesBelow_discard (Handles.bind handles_pop fun _ => .pure _).draws a
      | breaking => exact leavesBelow_discard (Handles.pure _).draws a
      | raising => exact leavesBelow_discard (raised _) a
      | continuing target =>
          refine leavesBelow_discard (.bind handles_pop.draws fun payload => ?_) a
          split
          · split
            · exact raised _
            · exact (Handles.pure _).draws
          · exact raised _
  | exceptionKind kind =>
      exact leavesBelow_discard (.bind_add handles_pop.draws fun value => .bind handles_pop.draws fun trace =>
        (handles_reraise (.exceptionKind kind) value trace).draws) a
  | _ => exact leavesBelow_discard (raised _) a

theorem forIter_leavesBelow (exit : Nat) :
    LeavesBelow (a.frame.stack.drop (Opcode.forIter.draws operand a)) (forIter exit a) := by
  refine leavesBelow_byTop fun value rest stack => ?_
  cases value with
  | iterator ref =>
      dsimp only
      cases found : (a.world.heap.cursor ref).next? a.world.heap with
      | some item =>
          rw [forIter_item exit stack (Act.next_some found), stack]
          exact List.suffix_cons _ _
      | none =>
          rw [forIter_spent exit stack (Act.next_none found), stack]
          exact List.suffix_refl rest
  | _ =>
      rw [forIter, peek_bind stack]
      exact List.suffix_refl _

theorem popBlock_leavesBelow : LeavesBelow a.frame.stack (execute .popBlock operand a) := by
  cases standing : a.frame.blocks with
  | nil =>
      rw [execute_pops_nothing operand rfl standing]
      exact List.suffix_refl _
  | cons block rest =>
      rw [execute_popBlock operand standing]
      exact List.suffix_refl _

theorem compareOp_leavesBelow (selector : Nat) :
    LeavesBelow (a.frame.stack.drop (Opcode.compareOp.draws (.int selector) a)) (compareOp selector a) := by
  have below := (handles_compareOp selector).draws a
  change LeavesBelow (a.frame.stack.drop (if (Comparison.ofSelector? selector).isSome then 2 else 0)) _
  cases known : Comparison.ofSelector? selector with
  | none =>
      rw [compareOp, known]
      exact List.suffix_refl _
  | some comparison => exact below

theorem popExcept_leavesBelow :
    LeavesBelow (a.frame.stack.drop (Opcode.popExcept.draws operand a)) (execute .popExcept operand a) := by
  cases standing : a.frame.blocks with
  | nil =>
      rw [execute_pops_nothing operand rfl standing]
      exact List.drop_suffix _ _
  | cons block rest =>
      cases block with
      | exceptHandler depth =>
          have suffix := Active.release_suffix (.exceptHandler depth)
            { a with frame := { a.frame with blocks := rest } }
          simp only [Opcode.draws, standing]
          rcases run : Active.release (.exceptHandler depth) { a with frame := { a.frame with blocks := rest } } with
            ⟨fault | restored, off⟩
          · rw [execute_popExcept_damaged operand standing run]
            rw [run] at suffix
            exact suffix
          · rw [execute_popExcept_restored operand standing run]
            rw [run] at suffix
            exact suffix
      | loop exit depth | setupExcept handler depth | «finally» handler depth =>
          rw [execute_popExcept_plain operand standing (by simp [Block.kind])]
          exact List.drop_suffix _ _

end

theorem execute_straight {opcode : Opcode} (straight : opcode.isStraight = true) (operand : Operand Value) :
    execute opcode operand = Exec.thenNext (operate opcode operand) := by
  cases opcode <;> first | rfl | cases straight

theorem Opcode.draws_straight {opcode : Opcode} (straight : opcode.isStraight = true) (other : opcode ≠ .compareOp)
    (operand : Operand Value) (a : Active) : opcode.draws operand a = opcode.pops operand.count false := by
  cases opcode <;> first | rfl | exact absurd rfl other | cases straight

open Exec in
/-- Whatever becomes of an instruction, the values below those that it takes stay where they are. -/
theorem execute_leavesBelow {opcode : Opcode} {operand : Operand Value} (fits : operand.Fits opcode.operandClass)
    (a : Active) : LeavesBelow (a.frame.stack.drop (opcode.draws operand a)) (execute opcode operand a) := by
  have popped : Draws 1 (do let _ ← pop : Exec Unit) := (Handles.bind handles_pop fun _ => .pure ()).draws
  cases straight : opcode.isStraight with
  | true =>
      by_cases compares : opcode = .compareOp
      · subst compares
        cases fits with
        | int selector => exact leavesBelow_thenNext (compareOp_leavesBelow a selector)
      · rw [execute_straight straight, Opcode.draws_straight straight compares]
        exact (operate_handles fits straight fits.eq_int fun _ _ => trivial).draws.thenNext a
  | false =>
      cases opcode with
      | breakLoop => exact List.suffix_refl _
      | continueLoop => exact (Handles.look (handles_target (.inr fits)) fun _ => .pure _).draws a
      | returnValue => exact (Handles.bind handles_pop fun _ => .pure _).draws a
      | endFinally => exact endFinally_leavesBelow operand a
      | raiseVarargs =>
          cases fits with
          | int form => exact (handles_raiseVarargs form).draws a
      | callFunction =>
          cases fits with
          | int count => exact draws_callFunction count a
      | popBlock => exact popBlock_leavesBelow operand a
      | popExcept => exact popExcept_leavesBelow operand a
      | setupLoop | setupExcept | setupFinally =>
          cases fits with
          | relative target =>
              rw [execute_pushBlock rfl]
              exact List.suffix_refl _
      | forIter =>
          cases fits with
          | relative exit => exact leavesBelow_thenNext (forIter_leavesBelow _ a exit)
      | jumpForward =>
          cases fits with
          | relative target => exact (draws_jump target).thenNext a
      | jumpAbsolute =>
          cases fits with
          | absolute target => exact (draws_jump target).thenNext a
      | jumpIfFalseOrPop =>
          cases fits with
          | absolute target => exact leavesBelow_thenNext (leavesBelow_truthy popped (draws_jump target) a)
      | jumpIfTrueOrPop =>
          cases fits with
          | absolute target => exact leavesBelow_thenNext (leavesBelow_truthy (draws_jump target) popped a)
      | popJumpIfFalse | popJumpIfTrue =>
          refine Draws.thenNext (.bind_later (handles_target (.inr fits)).draws fun target =>
            .bind handles_pop.draws fun value => .bind (handles_truthy value).draws fun truth => ?_) a
          cases truth <;> exact fun before => List.suffix_refl before.frame.stack
      | _ => cases straight

end BlockVM
