import BlockVM.Proofs.FrameOperations

namespace BlockVM

namespace Opcode

def popsBlock : Opcode → Bool
  | .popBlock | .popExcept => true
  | _ => false

def pushesBlock : Opcode → Bool
  | .setupLoop | .setupExcept | .setupFinally => true
  | _ => false

def changesBlocks (opcode : Opcode) : Bool :=
  opcode.popsBlock || opcode.pushesBlock

/-- How many values an instruction needs on the data stack. -/
def need (opcode : Opcode) (count : Nat) : Nat :=
  match opcode with
  | .popTop | .dupTop | .unary _ | .getIter | .printExpr | .storeName | .storeGlobal | .storeFast
  | .unpackSequence | .forIter | .popJumpIfFalse | .popJumpIfTrue | .jumpIfFalseOrPop | .jumpIfTrueOrPop => 1
  | .rotTwo | .dupTopTwo | .binary _ | .inplace _ | .binarySubscr | .compareOp => 2
  | .rotThree | .storeSubscr => 3
  | .buildTuple | .buildList => count
  | .callFunction => count + 1
  | .makeFunction => count + 2
  | .listAppend => max count 1 + 1
  | _ => 0

/-- How many values a successful instruction takes off. A rotation takes what it puts back. -/
def pops (opcode : Opcode) (count : Nat) (taken : Bool) : Nat :=
  match opcode with
  | .popTop | .unary _ | .getIter | .printExpr | .storeName | .storeGlobal | .storeFast | .unpackSequence
  | .popJumpIfFalse | .popJumpIfTrue | .listAppend => 1
  | .rotTwo | .binary _ | .inplace _ | .binarySubscr | .compareOp => 2
  | .rotThree | .storeSubscr => 3
  | .buildTuple | .buildList => count
  | .callFunction => count + 1
  | .makeFunction => count + 2
  | .jumpIfFalseOrPop | .jumpIfTrueOrPop => if taken then 0 else 1
  | .forIter => if taken then 1 else 0
  | _ => 0

/-- How many values a successful instruction puts on. -/
def pushes (opcode : Opcode) (count : Nat) (taken : Bool) : Nat :=
  match opcode with
  | .dupTop | .unary _ | .binary _ | .inplace _ | .binarySubscr | .getIter | .compareOp | .loadConst | .loadName
  | .loadGlobal | .loadFast | .buildTuple | .buildList | .callFunction | .makeFunction => 1
  | .rotTwo | .dupTopTwo => 2
  | .rotThree => 3
  | .unpackSequence => count
  | .forIter => if taken then 0 else 1
  | _ => 0

/-- The instruction may go on where its operand says. -/
def branches : Opcode → Bool
  | .forIter | .jumpForward | .jumpAbsolute | .jumpIfFalseOrPop | .jumpIfTrueOrPop | .popJumpIfFalse
  | .popJumpIfTrue => true
  | _ => false

/-- The instruction goes on with the one after it and leaves the blocks alone, or it is not supported. -/
def isStraight : Opcode → Bool
  | .breakLoop | .continueLoop | .returnValue | .endFinally | .raiseVarargs | .callFunction => false
  | opcode => !opcode.branches && !opcode.changesBlocks

end Opcode

open Exec in
/-- Straight instructions are one operation on the data stack, the heap and the names of the frame. -/
theorem operate_handles {allowed : Event → Prop} {opcode : Opcode} {operand : Operand Value} {count : Nat}
    (fits : operand.Fits opcode.operandClass) (straight : opcode.isStraight = true)
    (counted : opcode.operandClass = .int → operand = .int count)
    (makes : opcode = .makeFunction → ∀ defaults, allowed (.makeFunction defaults)) :
    Handles allowed (opcode.need count) (opcode.pops count false) (opcode.pushes count false)
      (operate opcode operand) := by
  have stored {operand : Operand Value} {space : Frame → NamespaceRef}
      (fits : operand.Fits .name ∨ operand.Fits .slot) (own : ∀ frame : Frame, frame.Binds (space frame)) :
      Handles allowed 1 1 0 (do
        let name ← name operand
        let value ← pop
        Exec.bind (space (← frame)) name value) :=
    .look (handles_name fits) fun name => .bind handles_pop fun value => handles_bind own name value
  have deleted {operand : Operand Value} {space : Frame → NamespaceRef} {fault : String → Fault}
      (fits : operand.Fits .name ∨ operand.Fits .slot) (own : ∀ frame : Frame, frame.Binds (space frame))
      (off : ∀ name, (fault name).OffStack) :
      Handles allowed 0 0 0 (do
        let name ← name operand
        unbind (space (← frame)) name (fault name)) :=
    .look (handles_name fits) fun name => handles_unbind own name (off name)
  have locals (frame : Frame) : frame.Binds frame.locals := .inl rfl
  have globals (frame : Frame) : frame.Binds frame.globals := .inr rfl
  cases opcode with
  | popTop => exact .bind handles_pop fun _ => .pure _
  | rotTwo => exact .bind handles_popTwo fun _ => .put (handles_push _) fun _ => handles_push _
  | rotThree =>
      exact .bind handles_popThree fun _ => .put (handles_push _) fun _ =>
        .put (handles_push _) fun _ => handles_push _
  | dupTop => exact .bind (handles_peek 0) handles_push
  | dupTopTwo =>
      exact .take (handles_peek 1) (fun _ => .bind (handles_peek 0) fun _ => .put (handles_push _) fun _ =>
        handles_push _) rfl
  | nop => exact .pure _
  | unary operator => exact handles_unary operator
  | binary operator => exact handles_binary operator
  | inplace operator => exact handles_inplace operator
  | binarySubscr => exact handles_subscript
  | storeSubscr => exact handles_storeSubscript
  | getIter => exact .bind handles_pop fun _ => .look (.act (Act.behaves_iterate _)) handles_push
  | printExpr => exact handles_printExpr
  | storeName => exact stored (.inl fits) locals
  | storeFast => exact stored (.inr fits) locals
  | storeGlobal => exact stored (.inl fits) globals
  | deleteName => exact deleted (.inl fits) locals fun _ => rfl
  | deleteGlobal => exact deleted (.inl fits) globals fun _ => rfl
  | deleteFast => exact deleted (.inr fits) locals fun _ => rfl
  | unpackSequence =>
      cases counted rfl
      exact handles_unpackSequence count
  | loadConst => exact .look (handles_constant fits) handles_push
  | loadName => exact .look (handles_name (.inl fits)) fun _ => .look (handles_nameValue _) handles_push
  | loadGlobal => exact .look (handles_name (.inl fits)) fun _ => .look (handles_globalValue _) handles_push
  | loadFast => exact .look (handles_name (.inr fits)) fun _ => .look (handles_localValue _) handles_push
  | buildTuple =>
      cases counted rfl
      exact handles_build count .tuple
  | buildList =>
      cases counted rfl
      exact handles_build count fun items => .list items.toArray
  | compareOp =>
      cases counted rfl
      exact handles_compareOp count
  | makeFunction =>
      cases counted rfl
      exact handles_makeFunction (makes rfl) count
  | listAppend =>
      cases counted rfl
      exact handles_listAppend count
  | yieldValue | loadAttr | loadClosure | loadDeref => exact .raise rfl
  | _ => cases straight

open Exec in
/-- Instructions on data leave the frame alone but for its data stack and the place of the next instruction. They note
nothing but the making of functions. -/
theorem operate_conforms {allowed : Event → Prop} {opcode : Opcode} {operand : Operand Value}
    (fits : operand.Fits opcode.operandClass) (unguarded : opcode.changesBlocks = false)
    (makes : opcode = .makeFunction → ∀ defaults, allowed (.makeFunction defaults)) :
    Conforms (Active.Steady allowed) (operate opcode operand) := by
  have popped : Conforms (Active.Steady allowed) (do let _ ← pop : Exec Unit) :=
    .bind handles_pop.toConforms fun _ => .pure _
  cases straight : opcode.isStraight with
  | true => exact (operate_handles fits straight fits.eq_int makes).toConforms
  | false =>
      cases opcode with
      | forIter => exact .bind (handles_target (.inl fits)).toConforms conforms_forIter
      | jumpForward => exact .bind (handles_target (.inl fits)).toConforms conforms_jump
      | jumpAbsolute => exact .bind (handles_target (.inr fits)).toConforms conforms_jump
      | jumpIfFalseOrPop | jumpIfTrueOrPop =>
          refine .bind (handles_target (.inr fits)).toConforms fun target =>
            .bind (handles_peek 0).toConforms fun value => .bind (handles_truthy value).toConforms fun holds => ?_
          cases holds <;> first | exact conforms_jump target | exact popped
      | popJumpIfFalse | popJumpIfTrue =>
          refine .bind (handles_target (.inr fits)).toConforms fun target =>
            .bind handles_pop.toConforms fun value => .bind (handles_truthy value).toConforms fun holds => ?_
          cases holds <;> first | exact conforms_jump target | exact .pure _
      | popBlock | popExcept | setupLoop | setupExcept | setupFinally => cases unguarded
      | breakLoop | continueLoop | returnValue | endFinally | raiseVarargs | callFunction => exact .raise rfl
      | _ => cases straight

open Exec in
/-- All other instructions leave the frame alone but for its data stack and the place of the next
instruction. They note nothing but the making and the calling of functions. -/
theorem execute_conforms {allowed : Event → Prop} {opcode : Opcode} {operand : Operand Value}
    (fits : operand.Fits opcode.operandClass) (unguarded : opcode.changesBlocks = false)
    (makes : opcode = .makeFunction → ∀ defaults, allowed (.makeFunction defaults))
    (calls : opcode = .callFunction → ∀ name depth, allowed (.call name depth)) :
    Conforms (Active.Steady allowed) (execute opcode operand) := by
  cases opcode with
  | breakLoop => exact .pure _
  | continueLoop => exact .bind (handles_target (.inr fits)).toConforms fun _ => .pure _
  | returnValue => exact .bind handles_pop.toConforms fun _ => .pure _
  | endFinally => exact conforms_endFinally
  | raiseVarargs => exact .bind (handles_number fits).toConforms fun form => (handles_raiseVarargs form).toConforms
  | callFunction => exact .bind (handles_number fits).toConforms (conforms_callFunction (calls rfl))
  | _ => exact .thenNext (operate_conforms fits unguarded makes)

/-- What an instruction may do to the block stack. -/
inductive Opcode.Moves (opcode : Opcode) : List Block → List Block → Prop where
  | kept (blocks : List Block) : Moves opcode blocks blocks
  | pushed (pushes : opcode.pushesBlock = true) (block : Block) (blocks : List Block) :
      Moves opcode blocks (block :: blocks)
  | popped (pops : opcode.popsBlock = true) (block : Block) (rest : List Block) :
      Moves opcode (block :: rest) rest

structure Active.Works (opcode : Opcode) (before after : Active) : Prop where
  blocks : opcode.Moves before.frame.blocks after.frame.blocks
  world : before.world.Quiet after.world
  anchored : before.Anchored after

namespace Active

variable {allowed : Event → Prop} {opcode : Opcode} {first second third : Active}

theorem Steady.blocks (steady : Steady allowed first second) : second.frame.blocks = first.frame.blocks := by
  obtain ⟨stack, ip, same⟩ := steady.frame
  rw [same]

theorem Works.trans_steady (works : Works opcode first second)
    (steady : Steady (·.isInstruction = false) second third) :
    Works opcode first third :=
  ⟨steady.blocks ▸ works.blocks, works.world.trans steady.world, works.anchored.trans steady.anchored⟩

theorem Steady.works (steady : Steady (·.isInstruction = false) first second) (opcode : Opcode) :
    Works opcode first second :=
  ⟨steady.blocks ▸ .kept _, steady.world, steady.anchored⟩

theorem release_steady (block : Block) (a : Active) : Steady allowed a (a.release block).2 := by
  have spaces := (a.release_anchored block).spaces
  by_cases intact : block.Intact a.frame.stack
  · obtain ⟨restored, heap, released⟩ := release_intact intact
    rw [released] at spaces ⊢
    exact ⟨⟨_, _, rfl⟩, setHeap_extends heap a, spaces⟩
  · obtain ⟨fault, stack, released, -⟩ := release_damaged intact
    rw [released] at spaces ⊢
    exact ⟨⟨stack, _, rfl⟩, .refl a.world, spaces⟩

end Active

theorem Active.release_retracking (retracking : Retracking) (block : Block) (a : Active) :
    (retracking.active a).release block = ((a.release block).1, retracking.active (a.release block).2) := by
  have frame : (retracking.active a).frame = a.frame := rfl
  cases block with
  | exceptHandler depth =>
      unfold release
      rw [frame]
      dsimp only
      cases a.frame.trim? (depth + 3) with
      | none => rfl
      | some trimmed =>
          dsimp only
          split
          · rename_i kind value trace rest _
            have heap : (retracking.active a).world.heap = a.world.heap := rfl
            rw [heap]
            cases Raised.ofValues kind value trace a.world.heap with
            | ok restored => rfl
            | error fault => rfl
          · rfl
  | _ =>
      unfold release
      rw [frame]
      dsimp only
      split <;> rfl

namespace Exec

open Active Act

variable {α β : Type} {allowed : Event → Prop} {opcode : Opcode}

theorem Conforms.bind_steady {operation : Exec α} {next : α → Exec β} (first : Conforms (Works opcode) operation)
    (second : ∀ value, Conforms (Steady (·.isInstruction = false)) (next value)) :
    Conforms (Works opcode) (operation >>= next) :=
  first.compose second (fun _ _ => id) fun _ _ _ => Works.trans_steady

theorem conforms_takeBlock (pops : opcode.popsBlock = true) : Conforms (Works opcode) takeBlock := by
  refine ⟨?_, fun retracking => ?_⟩
  · rintro ⟨world, ⟨code, globals, locals, stack, blocks, ip, last, level⟩, recovered⟩
    cases blocks with
    | nil => exact ⟨rfl, .kept [], .refl world, .refl _⟩
    | cons block rest => exact ⟨.popped pops block rest, .refl world, .of_namespaces ⟨_, _, _, rfl⟩ rfl⟩
  · refine .bind (commutes_frame retracking) fun frame => ?_
    split
    · exact .bind (.modify fun _ => rfl) fun _ => .pure _
    · exact .throw _

theorem conforms_emit {event : Event} (admitted : allowed event) : Conforms (Steady allowed) (act (Act.emit event)) :=
  (Handles.act (behaves_emit admitted)).toConforms

theorem conforms_popBlock : Conforms (Works .popBlock) popBlock :=
  (conforms_takeBlock rfl).bind_steady fun _ => .bind handles_frame.toConforms fun _ => conforms_emit rfl

theorem conforms_recover (pops : ∀ depth, allowed (.blockPop .exceptHandler depth))
    (released : Except Fault (Option Raised)) (errs : Errs Fault.Ordinary released) :
    Conforms (Steady allowed) (recover released) := by
  cases released with
  | error fault => exact .raise errs
  | ok restored =>
      refine .bind handles_frame.toConforms fun _ => .bind (conforms_emit (pops _)) fun _ => ?_
      exact ⟨fun before => .of_frame ⟨before.frame.stack, before.frame.ip, rfl⟩ rfl, fun _ => .modify fun _ => rfl⟩

theorem conforms_popExcept : Conforms (Works .popExcept) popExcept := by
  refine (conforms_takeBlock rfl).bind_steady fun block => ?_
  cases block with
  | exceptHandler depth =>
      have pops : ∀ depth, Event.isInstruction (.blockPop .exceptHandler depth) = false := fun _ => rfl
      exact .transform (release_errs (.exceptHandler depth)) (release_steady (.exceptHandler depth))
        (fun retracking => release_retracking retracking (.exceptHandler depth)) (conforms_recover pops)
  | loop exit depth | setupExcept handler depth | «finally» handler depth => exact .raise rfl

theorem conforms_pushBlock {operand : Operand Value} (pushes : opcode.pushesBlock = true)
    (fits : operand.Fits .jumpRelative) (block : Nat → Nat → Block) :
    Conforms (Works opcode) (do pushBlock (block (← target operand))) := by
  cases fits with
  | relative target =>
      refine ⟨?_, fun retracking => ?_⟩
      · rintro ⟨world, ⟨code, globals, locals, stack, blocks, ip, last, level⟩, recovered⟩
        exact ⟨.pushed pushes _ blocks, .emit world rfl, .of_namespaces ⟨stack, _, ip, rfl⟩ rfl⟩
      · have noted (event : Event) : Conforms (Steady fun _ => True) (act (Act.emit event)) := conforms_emit trivial
        exact .bind (.pure target) fun _ => .bind (commutes_frame retracking) fun _ =>
          .bind (.modify fun _ => rfl) fun _ => .bind (commutes_frame retracking) fun _ =>
            (noted _).commutes retracking

end Exec

open Exec in
theorem execute_works {opcode : Opcode} {operand : Operand Value} (fits : operand.Fits opcode.operandClass) :
    Conforms (Active.Works opcode) (execute opcode operand) := by
  have goes {operation : Exec Unit} (conforms : Conforms (Active.Works opcode) operation) :
      Conforms (Active.Works opcode) (thenNext operation) :=
    conforms.bind_steady fun _ => .pure _
  cases guarded : opcode.changesBlocks with
  | false =>
      exact (execute_conforms fits guarded (fun _ _ => rfl) fun _ _ _ => rfl).mono fun _ _ steady =>
        steady.works opcode
  | true =>
      cases opcode with
      | popBlock => exact goes conforms_popBlock
      | popExcept => exact goes conforms_popExcept
      | setupLoop => exact goes (conforms_pushBlock rfl fits .loop)
      | setupExcept => exact goes (conforms_pushBlock rfl fits .setupExcept)
      | setupFinally => exact goes (conforms_pushBlock rfl fits .finally)
      | _ => cases guarded

theorem execute_popExcept_plain (operand : Operand Value) {a : Active} {block : Block} {rest : List Block}
    (standing : a.frame.blocks = block :: rest) (plain : block.kind ≠ .exceptHandler) :
    execute .popExcept operand a =
      .error (.raised (.poppedBlock block.kind.name)) { a with frame := { a.frame with blocks := rest } } := by
  obtain ⟨world, ⟨code, globals, locals, stack, blocks, ip, last, level⟩, recovered⟩ := a
  cases standing
  cases block with
  | exceptHandler depth => exact absurd rfl plain
  | loop exit depth | setupExcept handler depth | «finally» handler depth => rfl

theorem execute_popBlock (operand : Operand Value) {a : Active} {block : Block} {rest : List Block}
    (standing : a.frame.blocks = block :: rest) :
    execute .popBlock operand a =
      .ok .next ({ a with frame := { a.frame with blocks := rest } }.emit (.blockPop block.kind rest.length)) := by
  obtain ⟨world, ⟨code, globals, locals, stack, blocks, ip, last, level⟩, recovered⟩ := a
  cases standing
  rfl

section

variable (operand : Operand Value) {a off : Active} {depth : Nat} {rest : List Block}
  (standing : a.frame.blocks = .exceptHandler depth :: rest)

include standing

theorem execute_popExcept_handler :
    execute .popExcept operand a =
      Exec.thenNext (Exec.recover ({ a with frame := { a.frame with blocks := rest } }.release (.exceptHandler depth)).1)
        ({ a with frame := { a.frame with blocks := rest } }.release (.exceptHandler depth)).2 := by
  obtain ⟨world, ⟨code, globals, locals, stack, blocks, ip, last, level⟩, recovered⟩ := a
  cases standing
  rfl

theorem execute_popExcept_damaged {fault : Fault}
    (run : { a with frame := { a.frame with blocks := rest } }.release (.exceptHandler depth) = (.error fault, off)) :
    execute .popExcept operand a = .error (.raised fault) off := by
  rw [execute_popExcept_handler operand standing, run]
  rfl

theorem execute_popExcept_restored {restored : Option Raised}
    (run : { a with frame := { a.frame with blocks := rest } }.release (.exceptHandler depth) = (.ok restored, off)) :
    execute .popExcept operand a =
      .ok .next { off.emit (.blockPop .exceptHandler off.frame.blocks.length) with recovered := restored } := by
  rw [execute_popExcept_handler operand standing, run]
  rfl

end

/-- Without a block there is nothing to pop. -/
theorem execute_pops_nothing {opcode : Opcode} (operand : Operand Value) {a : Active}
    (pops : opcode.popsBlock = true) (empty : a.frame.blocks = []) :
    execute opcode operand a = .error (.raised .emptyBlockStack) a := by
  obtain ⟨world, ⟨code, globals, locals, stack, blocks, ip, last, level⟩, recovered⟩ := a
  cases empty
  cases opcode <;> first | rfl | cases pops

/-- The block that an instruction sets up, given where it leads and the depth of the data stack. -/
def Opcode.block? : Opcode → Option (Nat → Nat → Block)
  | .setupLoop => some .loop
  | .setupExcept => some .setupExcept
  | .setupFinally => some .finally
  | _ => none

theorem execute_pushBlock {opcode : Opcode} {block : Nat → Nat → Block} (sets : opcode.block? = some block)
    (target : Nat) (a : Active) :
    execute opcode (.jump target) a =
      .ok .next ({ a with frame := a.frame.pushBlock (block target a.frame.stack.length) }.emit
        (.blockPush (block target a.frame.stack.length).kind (a.frame.blocks.length + 1))) := by
  cases opcode <;> cases sets <;> rfl

/-- The frame goes on or is interrupted, by a signal that a `finally` block can note. -/
def Effect.Plain : Effect → Prop
  | .interrupt signal => signal.Encodable
  | .call _ => False
  | _ => True

namespace Exec

theorem delivers_next (operation : Exec Unit) : Delivers Effect.Plain (thenNext operation) :=
  .bind fun _ => .pure trivial

theorem delivers_raise {α : Type} {property : α → Prop} (fault : Fault) :
    Delivers property (Exec.raise fault : Exec α) :=
  .throw _

theorem delivers_endFinally : Delivers Effect.Plain endFinally := by
  refine .bind fun value => ?_
  cases value with
  | nothing => exact .pure trivial
  | signal interruption =>
      cases interruption with
      | returning => exact .bind fun _ => .pure trivial
      | breaking => exact .pure trivial
      | raising => exact delivers_raise _
      | continuing target =>
          refine .bind fun payload => ?_
          split
          · rename_i i _
            split
            · exact delivers_raise _
            · refine .pure ?_
              have fits := i.toInt_lt
              change i.toInt.toNat ≤ Word.greatest
              unfold Word.greatest
              omega
          · exact delivers_raise _
  | exceptionKind kind =>
      exact .bind fun _ => .bind fun _ => .bind fun _ => .bind fun _ => .bind fun _ => .pure trivial
  | _ => exact delivers_raise _

theorem delivers_raiseVarargs (form : Nat) : Delivers Effect.Plain (raiseVarargs form) := by
  unfold raiseVarargs
  split
  · exact .pure trivial
  · refine .bind fun _ => .bind fun found => ?_
    cases found with
    | some exception => exact .pure trivial
    | none => exact delivers_raise _
  · refine .bind fun (value, origin) => .bind fun found => ?_
    cases found with
    | none => exact delivers_raise _
    | some exception =>
        cases origin with
        | nothing => exact .bind fun _ => .bind fun _ => .bind fun _ => .pure trivial
        | _ =>
            refine .bind fun cause => ?_
            cases cause <;> exact .bind fun _ => .bind fun _ => .bind fun _ => .pure trivial
  · exact delivers_raise _

end Exec

theorem Tracker.lt_of_checkCall {tracker : Tracker} {depth : Nat} {admitted : Unit}
    (checked : tracker.checkCall depth = .ok admitted) : depth < tracker.limits.recursionDepth := by
  unfold checkCall at checked
  dsimp only at checked
  split at checked
  · cases checked
  · omega

/-- A call of a function. Its frame waits without the function and the arguments, and the callee starts
in a namespace of its own. -/
structure Active.Calls (before : Active) (count : Nat) (callee : Frame) (after : Active) : Prop where
  starts : callee =
    { code := callee.code, globals := before.frame.globals, locals := ⟨before.world.heap.namespaces.size⟩
      depth := before.frame.depth + 1 }
  function : ∃ id name defaults bindings,
    before.frame.stack[count]? = some (.function id name callee.code defaults) ∧
    callee.code.bindArguments (before.frame.stack.take count).reverse defaults = .ok bindings ∧
    after.world.heap.namespaces = before.world.heap.namespaces.push (.ofList bindings)
  waits : after.frame = { before.frame with stack := before.frame.stack.drop (count + 1) }
  admitted : before.frame.depth < before.world.tracker.limits.recursionDepth
  noted : after.world.events = before.world.events.push (.call callee.code.name callee.depth)

namespace Exec

variable {count : Nat} {a : Active}

theorem callFunction_found {callee : Value} (found : a.frame.stack[count]? = some callee) :
    callFunction count a = invoke (a.frame.stack.take count).reverse callee (a.discard (count + 1)) := by
  obtain ⟨inside, rfl⟩ := List.getElem?_eq_some_iff.mp found
  change EStateM.bind (popMany count) _ a = _
  rw [EStateM.bind, popMany_of_le (Nat.le_of_lt inside)]
  obtain ⟨world, ⟨code, globals, locals, stack, blocks, ip, last, level⟩, recovered⟩ := a
  dsimp only [Active.discard]
  rw [List.drop_eq_getElem_cons inside]
  rfl

theorem callFunction_missing (short : a.frame.stack.length ≤ count) :
    ∃ failure taken, callFunction count a = .error failure (a.discard taken) := by
  change ∃ failure taken, EStateM.bind (popMany count) _ a = _
  rw [EStateM.bind]
  rcases Nat.lt_or_eq_of_le short with short | rfl
  · rw [popMany_of_lt short]
    exact ⟨_, 0, rfl⟩
  · rw [popMany_of_le (Nat.le_refl _)]
    obtain ⟨world, ⟨code, globals, locals, stack, blocks, ip, last, level⟩, recovered⟩ := a
    refine ⟨.raised .stackUnderflow, stack.length, ?_⟩
    dsimp only [Active.discard]
    rw [List.drop_length]
    rfl

theorem enter_eq (code : Code Value) (arguments defaults : List Value) (a : Active) :
    enter code arguments defaults a = match code.bindArguments arguments defaults with
      | .error fault => .error (.raised fault) a
      | .ok bindings =>
          match a.world.tracker.checkCall a.frame.depth with
          | .error error => .error (.raised (.limit error)) a
          | .ok _ =>
              .ok
                (.call
                  { code, globals := a.frame.globals, locals := ⟨a.world.heap.namespaces.size⟩
                    depth := a.frame.depth + 1 })
                ((a.setHeap (a.world.heap.newNamespace (.ofList bindings)).2).emit
                  (.call code.name (a.frame.depth + 1))) := by
  change EStateM.bind (act (Act.ofExcept (code.bindArguments arguments defaults))) _ a = _
  cases code.bindArguments arguments defaults with
  | error fault => rfl
  | ok bindings =>
      change EStateM.bind (act (Act.ofLimit (a.world.tracker.checkCall a.frame.depth))) _ a = _
      cases a.world.tracker.checkCall a.frame.depth with
      | error error => rfl
      | ok admitted => rfl

theorem delivers_invoke {callee : Value} (foreign : ∀ id name code defaults, callee ≠ .function id name code defaults)
    (arguments : List Value) : Delivers (· = .next) (invoke arguments callee) := by
  cases callee with
  | function id name code defaults => exact absurd rfl (foreign id name code defaults)
  | builtin function => exact .bind fun _ => .bind fun _ => .pure rfl
  | exceptionKind kind => exact .bind fun _ => .bind fun _ => .bind fun _ => .pure rfl
  | _ => exact delivers_raise _

theorem callFunction_effect {effect : Effect} {after : Active} (run : callFunction count a = .ok effect after) :
    effect.Plain ∨ ∃ callee, effect = .call callee ∧ a.Calls count callee after := by
  rcases Nat.lt_or_ge count a.frame.stack.length with inside | short
  · have found := List.getElem?_eq_getElem inside
    rw [callFunction_found found] at run
    cases callee : a.frame.stack[count] with
    | function id name code defaults =>
        rw [callee] at run found
        change enter code _ defaults _ = _ at run
        rw [enter_eq] at run
        split at run
        · cases run
        · rename_i bindings bound
          split at run
          · cases run
          · rename_i admitted
            cases run
            exact .inr ⟨_, rfl, rfl, ⟨id, name, defaults, bindings, found, bound, rfl⟩, rfl,
              Tracker.lt_of_checkCall admitted, rfl⟩
    | _ =>
        obtain rfl := delivers_invoke (by simp [callee]) _ _ _ _ run
        exact .inl trivial
  · obtain ⟨failure, taken, missing⟩ := callFunction_missing short
    rw [missing] at run
    cases run

theorem discard_steady (allowed : Event → Prop) (count : Nat) (a : Active) : a.Steady allowed (a.discard count) :=
  .of_frame ⟨a.frame.stack.drop count, a.frame.ip, rfl⟩ rfl

/-- An outcome leaves a state of the given sort, unless it enters a function. -/
def LeavesUncalled (holds : Active → Prop) : EStateM.Result Failure Active Effect → Prop
  | .ok (.call _) _ => True
  | .ok _ after => holds after
  | .error _ after => holds after

theorem LeavesUncalled.of_leaves {holds : Active → Prop} {outcome : EStateM.Result Failure Active Effect}
    (leaves : Leaves holds outcome) : LeavesUncalled holds outcome := by
  cases outcome with
  | ok effect after => cases effect <;> first | exact leaves | trivial
  | error failure after => exact leaves.2

theorem LeavesUncalled.mono {narrow wide : Active → Prop} {outcome : EStateM.Result Failure Active Effect}
    (leaves : LeavesUncalled narrow outcome) (admits : ∀ after, narrow after → wide after) :
    LeavesUncalled wide outcome := by
  cases outcome with
  | ok effect after => cases effect <;> first | exact admits after leaves | trivial
  | error failure after => exact admits after leaves

theorem LeavesUncalled.of_plain {holds : Active → Prop} {effect : Effect} {after : Active} (plain : effect.Plain)
    (leaves : LeavesUncalled holds (.ok effect after)) : holds after := by
  cases effect <;> first | exact leaves | cases plain

theorem invoke_uncalled (allowed : Event → Prop) (arguments : List Value) (callee : Value) (a : Active) :
    LeavesUncalled (a.Steady allowed) (invoke arguments callee a) := by
  cases callee with
  | function id name code defaults =>
      change LeavesUncalled _ (enter code arguments defaults a)
      rw [enter_eq]
      split
      · exact refl_of (Active.Steady allowed) a
      · split
        · exact refl_of (Active.Steady allowed) a
        · trivial
  | _ => exact .of_leaves ((handles_invoke (by simp) arguments).keeps a)

/-- Only a call that enters a function is noted. -/
theorem callFunction_uncalled (allowed : Event → Prop) (count : Nat) (a : Active) :
    LeavesUncalled (a.Steady allowed) (callFunction count a) := by
  rcases Nat.lt_or_ge count a.frame.stack.length with inside | short
  · rw [callFunction_found (List.getElem?_eq_getElem inside)]
    exact (invoke_uncalled allowed _ _ _).mono fun _ => trans_of (Active.Steady allowed)
      (discard_steady allowed (count + 1) a)
  · obtain ⟨failure, count, missing⟩ := callFunction_missing short
    rw [missing]
    exact discard_steady allowed count a

end Exec

open Exec in
theorem execute_effect {opcode : Opcode} {operand : Operand Value} {before after : Active} {effect : Effect}
    (near : ∀ target, opcode = .continueLoop → operand = .jump target → target ≤ Word.greatest)
    (run : execute opcode operand before = .ok effect after) :
    effect.Plain ∨ ∃ count callee, opcode = .callFunction ∧ operand = .int count ∧ effect = .call callee ∧
      before.Calls count callee after := by
  have plain (delivers : Delivers Effect.Plain (execute opcode operand)) := delivers _ _ _ run
  cases opcode with
  | callFunction =>
      cases operand with
      | int count =>
          rcases callFunction_effect run with plain | ⟨callee, called, calls⟩
          · exact .inl plain
          · exact .inr ⟨count, callee, rfl, rfl, called, calls⟩
      | _ => cases run
  | nop | breakLoop => exact .inl (plain (.pure trivial))
  | returnValue => exact .inl (plain (.bind fun _ => .pure trivial))
  | endFinally => exact .inl (plain delivers_endFinally)
  | continueLoop =>
      cases operand with
      | jump target => exact .inl (plain (.pure (near target rfl rfl)))
      | _ => cases run
  | raiseVarargs => exact .inl (plain (.bind delivers_raiseVarargs))
  | yieldValue | loadAttr | loadClosure | loadDeref => exact .inl (plain (delivers_raise _))
  | _ => exact .inl (plain (delivers_next _))

end BlockVM
