import BlockVM.Proofs.RegisteredValues
import BlockVM.Proofs.RunSteps

namespace BlockVM

/-! What the frames of a run hold. Instructions move values about and make new ones, but all that they leave on a
stack or in the heap is accounted for by the register. -/

open Value (AllRegistered allRegistered_cons allRegistered_nil)

/-- The values on the data stack and the constants of the code are registered. -/
structure Frame.Registered (register : Register) (frame : Frame) : Prop where
  stack : AllRegistered register frame.stack
  constants : AllRegistered register frame.code.constants

theorem Frame.Registered.mono {register more : Register} {frame : Frame} (registered : frame.Registered register)
    (grown : register.Grows more) : frame.Registered more :=
  ⟨registered.stack.mono grown, registered.constants.mono grown⟩

structure Active.Registered (register : Register) (a : Active) : Prop where
  heap : a.world.heap.Registered register
  frame : a.frame.Registered register

/-- What follows an instruction is accounted for. -/
def Signal.Registered (register : Register) : Signal → Prop
  | .return value => value.Registered register
  | _ => True

theorem Signal.Registered.mono {register more : Register} {signal : Signal} (registered : signal.Registered register)
    (grown : register.Grows more) : signal.Registered more := by
  cases signal with
  | «return» value => exact Value.Registered.mono registered grown
  | _ => trivial

def Effect.Registered (register : Register) : Effect → Prop
  | .interrupt signal => signal.Registered register
  | .call callee => callee.Registered register
  | _ => True

def Operand.Registered (register : Register) : Operand Value → Prop
  | .const value => value.Registered register
  | _ => True

namespace Exec

open Act

variable {α : Type} {register : Register} {result : Register → α → Prop}

theorem registers_act {operation : Act α} (registers : Registers World.Registered register result operation) :
    Registers Active.Registered register result (act operation) := by
  rintro ⟨world, frame, recovered⟩ state
  have ended := registers world state.heap
  simp only [act]
  split at ended
  · rename_i ran
    obtain ⟨more, grown, heap, known⟩ := ended
    simp only [ran]
    exact ⟨more, grown, ⟨heap, state.frame.mono grown⟩, known⟩
  · rename_i ran
    obtain ⟨more, grown, heap, known⟩ := ended
    simp only [ran]
    exact ⟨more, grown, ⟨heap, state.frame.mono grown⟩, known⟩

theorem registers_frame : Registers Active.Registered register (fun more frame => frame.Registered more) frame :=
  .get fun _ state => .pure state.frame

theorem registers_changeFrame {change : Frame → Frame} (keeps : ∀ frame : Frame, frame.Registered register →
    (change frame).Registered register) : Registers Active.Registered register Valueless (changeFrame change) :=
  .modify fun _ state => .now ⟨state.heap, keeps _ state.frame⟩

theorem registers_push {value : Value} (known : value.Registered register) :
    Registers Active.Registered register Valueless (push value) :=
  registers_changeFrame fun _ state => ⟨allRegistered_cons.mpr ⟨known, state.stack⟩, state.constants⟩

theorem registers_jump (target : Nat) : Registers Active.Registered register Valueless (jump target) :=
  registers_changeFrame fun _ state => ⟨state.stack, state.constants⟩

theorem registers_setStack {stack : List Value} (known : AllRegistered register stack) :
    Registers Active.Registered register Valueless (setStack stack) :=
  registers_changeFrame fun _ state => ⟨known, state.constants⟩

theorem registers_pushDraft {draft : Draft} (known : draft.Registered register) :
    Registers Active.Registered register Valueless (pushDraft draft) :=
  .bind (registers_act (registers_place known)) fun _ _ _ placed => registers_push placed

theorem registers_pop : Registers Active.Registered register Value.Registered pop := by
  refine .bind registers_frame fun frame more _ held => ?_
  split
  · rename_i value rest stack
    have known := held.stack
    rw [stack, allRegistered_cons] at known
    exact .bind (registers_setStack known.2) fun _ _ grown _ => .pure (known.1.mono grown)
  · exact .throw

theorem registers_popMany (count : Nat) : Registers Active.Registered register AllRegistered (popMany count) := by
  refine .bind registers_frame fun frame more _ held => ?_
  have below : AllRegistered more (frame.stack.drop count) := fun v member => held.stack v (List.mem_of_mem_drop member)
  have above : AllRegistered more (frame.stack.take count).reverse := fun v member =>
    held.stack v (List.mem_of_mem_take (List.mem_reverse.mp member))
  dsimp only
  split
  · exact .throw_bind
  · exact .bind (registers_setStack below) fun _ _ grown _ => .pure (above.mono grown)

theorem registers_popTwo : Registers Active.Registered register
    (fun more pair => pair.1.Registered more ∧ pair.2.Registered more) popTwo := by
  refine .bind registers_frame fun frame more _ held => ?_
  split
  · rename_i second first rest stack
    have known := held.stack
    rw [stack, allRegistered_cons, allRegistered_cons] at known
    exact .bind (registers_setStack known.2.2) fun _ _ grown _ => .pure ⟨known.2.1.mono grown, known.1.mono grown⟩
  · exact .throw

theorem registers_popThree : Registers Active.Registered register
    (fun more values => values.1.Registered more ∧ values.2.1.Registered more ∧ values.2.2.Registered more)
    popThree := by
  refine .bind registers_frame fun frame more _ held => ?_
  split
  · rename_i third second first rest stack
    have known := held.stack
    rw [stack, allRegistered_cons, allRegistered_cons, allRegistered_cons] at known
    exact .bind (registers_setStack known.2.2.2) fun _ _ grown _ =>
      .pure ⟨known.2.2.1.mono grown, known.2.1.mono grown, known.1.mono grown⟩
  · exact .throw

theorem registers_peek (above : Nat) : Registers Active.Registered register Value.Registered (peek above) := by
  refine .bind registers_frame fun frame more _ held => ?_
  split
  · rename_i value found
    exact .pure (held.stack value (List.mem_of_getElem? found))
  · exact .throw

theorem registers_truthy (value : Value) : Registers Active.Registered register Valueless (truthy value) :=
  .get fun _ _ => .pure trivial

theorem registers_constant {operand : Operand Value} (known : operand.Registered register) :
    Registers Active.Registered register Value.Registered (constant operand) := by
  cases operand with
  | const value => exact .pure known
  | _ => exact .throw

theorem registers_name (operand : Operand Value) : Registers Active.Registered register Valueless (name operand) := by
  cases operand with
  | name name | slot name => exact .pure trivial
  | _ => exact .throw

theorem registers_target (operand : Operand Value) :
    Registers Active.Registered register Valueless (target operand) := by
  cases operand with
  | jump target => exact .pure trivial
  | _ => exact .throw

theorem registers_number (operand : Operand Value) :
    Registers Active.Registered register Valueless (number operand) := by
  cases operand with
  | int number => exact .pure trivial
  | _ => exact .throw

theorem registers_lookup? (space : NamespaceRef) (name : String) : Registers Active.Registered register
    (fun more found => ∀ v, found = some v → v.Registered more) (lookup? space name) :=
  .get fun _ state => .pure fun _ found => (state.heap.space space).get? found

theorem registers_bind {value : Value} (space : NamespaceRef) (name : String) (known : value.Registered register) :
    Registers Active.Registered register Valueless (Exec.bind space name value) :=
  registers_act (registers_changeHeap fun _ state => state.updateSpace fun _ held => held.set known)

theorem registers_unbind (space : NamespaceRef) (name : String) (fault : Fault) :
    Registers Active.Registered register Valueless (unbind space name fault) := by
  refine .bind (registers_lookup? space name) fun found more _ _ => ?_
  split
  · exact registers_act (registers_changeHeap fun _ state => state.updateSpace fun _ held => held.remove)
  · exact .throw

theorem builtinNamed?_registered {name : String} {value : Value} (found : builtinNamed? name = some value) :
    value.Registered register := by
  unfold builtinNamed? at found
  split at found
  · cases found
    exact .atom rfl
  · obtain ⟨kind, _, rfl⟩ := Option.map_eq_some_iff.mp found
    exact .atom rfl

theorem registers_globalValue (name : String) :
    Registers Active.Registered register Value.Registered (globalValue name) := by
  refine .bind registers_frame fun frame _ _ _ => .bind (registers_lookup? _ name) fun found more _ held => ?_
  split
  · exact .pure (held _ rfl)
  · split
    · rename_i found
      exact .pure (builtinNamed?_registered found)
    · exact .throw

theorem registers_nameValue (name : String) :
    Registers Active.Registered register Value.Registered (nameValue name) := by
  refine .bind registers_frame fun frame _ _ _ => .bind (registers_lookup? _ name) fun found more _ held => ?_
  split
  · exact .pure (held _ rfl)
  · exact registers_globalValue name

theorem registers_localValue (name : String) :
    Registers Active.Registered register Value.Registered (localValue name) := by
  refine .bind registers_frame fun frame _ _ _ => .bind (registers_lookup? _ name) fun found more _ held => ?_
  split
  · exact .pure (held _ rfl)
  · exact .throw

theorem registers_unary (operator : UnaryOperator) :
    Registers Active.Registered register Valueless (unary operator) := by
  refine .bind registers_pop fun operand more _ known => ?_
  have put {operation : Exec (Option Value)} {next : Option Value → Exec Unit} {last : Register}
      (gives : Registers Active.Registered last (fun _ => Value.Bare) operation)
      (found : ∀ value, next (some value) = push value)
      (absent : next none = raise (.badOperand operator.symbol operand.typeName)) :
      Registers Active.Registered last Valueless (operation >>= next) := by
    refine .bind gives fun result _ _ bare => ?_
    cases result with
    | some value =>
        rw [found]
        exact registers_push (.atom bare)
    | none =>
        rw [absent]
        exact .throw
  cases operator with
  | positive => exact put (.pure (Value.positive_bare operand)) (fun _ => rfl) rfl
  | invert => exact put (.pure (Value.invert_bare operand)) (fun _ => rfl) rfl
  | negative => exact put (registers_act (registers_ofExcept _ (Value.negate_bare operand))) (fun _ => rfl) rfl
  | not => exact .bind (registers_truthy operand) fun _ _ _ _ => put (.pure rfl) (fun _ => rfl) rfl

theorem registers_applied {outcome : Except Fault (Option Draft)} {fault : Fault}
    (gives : Gives (Value.FoundRegistered register) outcome) :
    Registers Active.Registered register Valueless (do
      match ← act (Act.ofExcept outcome) with
      | some draft => pushDraft draft
      | none => raise fault) := by
  refine .bind (registers_act (registers_ofExcept Value.FoundRegistered gives)) fun found more _ known => ?_
  split
  · exact registers_pushDraft known
  · exact .throw

theorem registers_apply {left right : Value} (operator : BinaryOperator) (first : left.Registered register)
    (second : right.Registered register) : Registers Active.Registered register Valueless (apply operator left right) := by
  refine .get fun a state => ?_
  have gives := Value.apply_registered operator state.heap first second
  dsimp only
  split
  · split
    · exact .bind (registers_act (registers_checkResult _)) fun _ more grown _ =>
        registers_applied (gives.weaken fun _ known => known.mono grown)
    · exact registers_applied gives
  · exact registers_applied gives

theorem registers_binary (operator : BinaryOperator) :
    Registers Active.Registered register Valueless (binary operator) :=
  .bind registers_popTwo fun _ _ _ known => registers_apply operator known.1 known.2

theorem registers_inplace (operator : BinaryOperator) :
    Registers Active.Registered register Valueless (inplace operator) := by
  refine .bind registers_popTwo fun (left, right) more _ known => ?_
  dsimp only
  split
  · refine .bind (registers_act (registers_drain known.2)) fun extra last _ held => ?_
    refine .bind (registers_act (registers_changeHeap fun heap state => state.updateItems fun items own => ?_))
      fun _ _ _ _ => registers_push (.atom rfl)
    rw [Array.toList_appendList]
    exact own.append held
  · exact registers_apply operator known.1 known.2

theorem registers_compareOp (selector : Nat) : Registers Active.Registered register Valueless (compareOp selector) := by
  unfold compareOp
  split
  · exact .throw
  · exact .bind registers_popTwo fun _ _ _ _ => .get fun _ _ =>
      .bind (registers_act (registers_ofFailing Valueless Gives.any)) fun _ _ _ _ => registers_push (.atom rfl)

theorem registers_listAppend (depth : Nat) : Registers Active.Registered register Valueless (listAppend depth) := by
  refine .bind registers_pop fun value more _ known => .bind (registers_peek _) fun container last grown _ => ?_
  split
  · refine registers_act (registers_changeHeap fun heap state => state.updateItems fun items own => ?_)
    rw [Array.toList_push]
    exact own.append (allRegistered_cons.mpr ⟨known.mono grown, allRegistered_nil⟩)
  · exact .throw

theorem registers_unpackSequence (expected : Nat) :
    Registers Active.Registered register Valueless (unpackSequence expected) := by
  refine .bind registers_pop fun value more _ known =>
    .bind (registers_act (registers_drain known)) fun items last _ held => ?_
  have placed : Registers Active.Registered last Valueless
      (changeFrame fun frame => { frame with stack := items ++ frame.stack }) :=
    registers_changeFrame fun _ state => ⟨held.append state.stack, state.constants⟩
  dsimp only
  split
  · exact .throw_bind
  · split
    · exact .throw_bind
    · exact placed

theorem registers_subscript : Registers Active.Registered register Valueless subscript :=
  .bind registers_popTwo fun _ _ _ known => .get fun _ state =>
    .bind (registers_act (registers_ofExcept Draft.Registered (Value.item_registered state.heap known.1)))
      fun _ _ _ found => registers_pushDraft found

theorem registers_storeSubscript : Registers Active.Registered register Valueless storeSubscript :=
  .bind registers_popThree fun _ _ _ known => .get fun _ state =>
    .bind (registers_act (registers_ofExcept Heap.Registered (Value.setItem_registered state.heap known.1)))
      fun _ _ _ changed => registers_act (registers_changeHeap fun _ _ => changed)

theorem registers_forIter (exit : Nat) : Registers Active.Registered register Valueless (forIter exit) := by
  refine .bind (registers_peek 0) fun value _ _ _ => .bind (registers_act (registers_next value)) fun found _ _ known => ?_
  cases found with
  | some item => exact registers_push (known item rfl)
  | none => exact .bind registers_pop fun _ _ _ _ => registers_jump exit

theorem registers_printExpr : Registers Active.Registered register Valueless printExpr := by
  refine .bind registers_pop fun value more _ _ => ?_
  split
  · exact .pure trivial
  · exact .get fun _ _ => .bind (registers_act (registers_print _)) fun _ _ _ _ => registers_act (registers_print _)

theorem registers_makeFunction (count : Nat) : Registers Active.Registered register Valueless (makeFunction count) := by
  refine .bind registers_popTwo fun (code, label) more _ known =>
    .bind (registers_popMany count) fun defaults last grown held => ?_
  dsimp only
  split
  · have constants := (known.1.mono grown).constants
    refine .bind (registers_act (registers_emit _)) fun _ _ first _ =>
      .bind (registers_act (registers_allocate fun _ state => state.fresh)) fun id _ second _ => registers_push ?_
    exact .function (constants.mono (first.trans second)) (held.mono (first.trans second))
  · exact .throw

theorem bindArguments_registered (code : Code Value) {arguments defaults : List Value}
    (given : AllRegistered register arguments) (held : AllRegistered register defaults) :
    Gives (fun bindings => AllRegistered register (bindings.map (·.2))) (code.bindArguments arguments defaults) := by
  refine Gives.any.bind fun params _ => ?_
  dsimp only
  split
  · trivial
  · intro v member
    obtain ⟨entry, zipped, rfl⟩ := List.mem_map.mp member
    have either := (List.of_mem_zip zipped).2
    exact (given.append fun v member => held v (List.mem_of_mem_drop member)) _ either

theorem registers_enter {code : Code Value} {arguments defaults : List Value}
    (constants : AllRegistered register code.constants) (given : AllRegistered register arguments)
    (held : AllRegistered register defaults) :
    Registers Active.Registered register Effect.Registered (enter code arguments defaults) := by
  refine .bind registers_frame fun caller more grown _ => ?_
  have bound := bindArguments_registered code (given.mono grown) (held.mono grown)
  refine .bind (registers_act (registers_ofExcept
    (fun register bindings => AllRegistered register (bindings.map (·.2))) bound)) fun bindings _ first known => ?_
  refine .get fun a _ => .bind (registers_act (registers_ofLimit _)) fun _ _ second _ => ?_
  refine .bind (registers_act (registers_allocate fun _ state =>
    state.newNamespace (.ofList (known.mono second)))) fun locals _ third _ => ?_
  refine .bind (registers_act (registers_emit _)) fun _ _ fourth _ => .pure ?_
  have all := grown.trans (first.trans (second.trans (third.trans fourth)))
  exact ⟨allRegistered_nil, constants.mono all⟩

theorem registers_invoke {arguments : List Value} {callee : Value} (given : AllRegistered register arguments)
    (known : callee.Registered register) :
    Registers Active.Registered register Effect.Registered (invoke arguments callee) := by
  unfold invoke
  split
  · exact registers_enter known.parts.1 given known.parts.2
  · exact .bind (registers_act (Builtin.registers_call given _)) fun _ _ _ result =>
      .bind (registers_push result) fun _ _ _ _ => .pure trivial
  · exact .get fun _ _ => .bind (registers_act (registers_newException _ _)) fun _ _ _ _ =>
      .bind (registers_push (.atom rfl)) fun _ _ _ _ => .pure trivial
  · exact .throw

theorem registers_callFunction (count : Nat) :
    Registers Active.Registered register Effect.Registered (callFunction count) :=
  .bind (registers_popMany count) fun _ _ _ given => .bind registers_pop fun _ _ grown callee =>
    registers_invoke (given.mono grown) callee

end Exec

def Encounter.Registered (register : Register) : Encounter → Prop
  | .absorbed a => a.Registered register
  | .passed signal a => signal.Registered register ∧ a.Registered register

section

variable {register : Register}

theorem Raised.ofValues_registered {kind value trace : Value} {heap after : Heap} {raised : Raised}
    (state : heap.Registered register) (built : ofValues kind value trace heap = .ok (raised, after)) :
    Later register fun more => after.Registered more := by
  obtain ⟨⟨known, rfl⟩, value, trace⟩ := saved_of_ofValues built
  have made : Later register fun more => heap.fresh.2.Registered more :=
    ⟨_, register.grows_enter .nothing, state.enter _⟩
  rcases value with rfl | ⟨object, rfl⟩
  · rcases trace with rfl | ⟨frames, rfl⟩
    · cases built
      exact made
    · cases built
      exact made
  · rcases trace with rfl | ⟨frames, rfl⟩
    · cases built
      exact .now state
    · cases built
      exact .now state

theorem Raised.ofValues_gives (kind value trace : Value) {heap : Heap} (state : heap.Registered register) :
    Gives (fun pair => Later register fun more => pair.2.Registered more) (ofValues kind value trace heap) := by
  cases built : ofValues kind value trace heap with
  | error fault => trivial
  | ok pair => exact ofValues_registered state built

theorem Raised.toValues_registered (raised : Raised) : AllRegistered register raised.toValues := by
  obtain ⟨exception, trace⟩ := raised
  refine allRegistered_cons.mpr ⟨.atom rfl, allRegistered_cons.mpr ⟨.atom rfl, ?_⟩⟩
  cases trace with
  | none => exact allRegistered_cons.mpr ⟨.atom rfl, allRegistered_nil⟩
  | some trace => exact allRegistered_cons.mpr ⟨.atom rfl, allRegistered_nil⟩

theorem Raised.leave_registered (frame : Frame) (raised : Raised) {heap : Heap} (state : heap.Registered register) :
    Later register fun more => (raised.leave frame heap).2.Registered more :=
  ⟨_, register.grows_enter .nothing, state.enter _⟩

theorem handled?_registered {heap after : Heap} {frames : List Frame} {raised : Raised}
    (state : heap.Registered register) (handled : handled? heap frames = some (raised, after)) :
    Later register fun more => after.Registered more := by
  induction frames with
  | nil => cases handled
  | cons frame callers ih =>
      unfold handled? at handled
      split at handled
      · exact ih handled
      · split at handled
        · cases handled
        · split at handled
          · rename_i kind value trace _ _
            cases built : Raised.ofValues kind value trace heap with
            | error fault =>
                rw [built] at handled
                cases handled
            | ok pair =>
                rw [built] at handled
                cases handled
                exact Raised.ofValues_registered state built
          · cases handled

theorem Frame.Registered.trim? {frame trimmed : Frame} {keep : Nat} (known : frame.Registered register)
    (trims : frame.trim? keep = some trimmed) : trimmed.Registered register := by
  unfold Frame.trim? at trims
  split at trims
  · cases trims
    exact ⟨fun v member => known.stack v (List.mem_of_mem_drop member), known.constants⟩
  · cases trims

namespace Active

variable {a : Active} {callers : List Frame}

theorem Registered.setHeap {more : Register} {heap : Heap} (known : a.Registered register)
    (grown : register.Grows more) (state : heap.Registered more) : (a.setHeap heap).Registered more :=
  ⟨state, known.frame.mono grown⟩

theorem Registered.announce (known : a.Registered register) (raised : Raised) : (a.announce raised).Registered register :=
  ⟨known.heap, known.frame⟩

theorem Registered.emit (known : a.Registered register) (event : Event) : (a.emit event).Registered register :=
  ⟨known.heap, known.frame⟩

theorem withContext_registered (context exception : ExceptionObject) (known : a.Registered register) :
    Later register fun more => (withContext context exception a).2.Registered more :=
  ⟨_, register.grows_enter .nothing, known.setHeap (register.grows_enter _) (known.heap.enter _)⟩

theorem throw_registered (callers : List Frame) (exception : ExceptionObject) (known : a.Registered register) :
    Later register fun more => (a.throw callers exception).2.Registered more := by
  unfold throw
  split
  rename_i chosen after chose
  split at chose
  · cases chose
    exact .now (known.announce _)
  · rename_i handled heap found
    obtain ⟨more, grown, state⟩ := handled?_registered known.heap found
    have moved := known.setHeap grown state
    split at chose
    · cases chose
      exact ⟨more, grown, moved.announce _⟩
    · obtain ⟨last, grows, held⟩ := withContext_registered handled.exception exception moved
      rw [chose] at held
      exact ⟨last, grown.trans grows, held.announce _⟩

theorem raise_registered (callers : List Frame) (fault : Fault) (known : a.Registered register) :
    Later register fun more => (a.raise callers fault).2.Registered more := by
  have grown := register.grows_enter .nothing
  have moved := known.setHeap grown (known.heap.enter _)
  exact (throw_registered callers _ moved).after grown

theorem release_registered (block : Block) (known : a.Registered register) :
    Later register fun more => (a.release block).2.Registered more := by
  cases block with
  | exceptHandler depth =>
      unfold release
      dsimp only
      split
      · exact .now known
      · rename_i trimmed trims
        have cut := known.frame.trim? trims
        split
        · rename_i kind value trace rest stack
          have held := cut.stack
          rw [stack, allRegistered_cons, allRegistered_cons, allRegistered_cons] at held
          have lowered : Registered register { a with frame := { trimmed with stack := rest } } :=
            ⟨known.heap, held.2.2.2, cut.constants⟩
          cases built : Raised.ofValues kind value trace a.world.heap with
          | error fault => exact .now lowered
          | ok pair =>
              obtain ⟨more, grown, state⟩ := Raised.ofValues_registered known.heap built
              exact ⟨more, grown, lowered.setHeap grown state⟩
        · exact .now known
  | loop exit depth | setupExcept handler depth | «finally» handler depth =>
      unfold release
      dsimp only
      split
      · exact .now known
      · rename_i trimmed trims
        exact .now ⟨known.heap, known.frame.trim? trims⟩

theorem restore_registered {signal : Signal} (saved : Raised) (under : signal.Registered register)
    (known : a.Registered register) :
    Later register fun more => (a.restore saved signal).1.Registered more ∧ (a.restore saved signal).2.Registered more := by
  cases signal with
  | «raise» raised =>
      unfold restore
      dsimp only
      split
      · obtain ⟨more, grown, held⟩ := withContext_registered saved.exception raised.exception known
        exact ⟨more, grown, trivial, held⟩
      · exact .now ⟨trivial, known⟩
  | «return» value | «break» | «continue» target => exact .now ⟨under, known.heap, known.frame⟩

theorem enterHandler_registered (handler : Nat) (raised : Raised) (known : a.Registered register) :
    (a.enterHandler handler raised).Registered register := by
  have values : AllRegistered register raised.toValues := raised.toValues_registered
  exact ⟨known.heap, values.append (values.append known.frame.stack), known.frame.constants⟩

theorem enterFinally_registered {values : List Value} (handler : Nat) (held : AllRegistered register values)
    (known : a.Registered register) : (a.enterFinally handler values).Registered register :=
  ⟨known.heap, held.append known.frame.stack, known.frame.constants⟩

theorem absorb_registered {block : Block} {signal : Signal} {after : Active} (under : signal.Registered register)
    (known : a.Registered register) (absorbs : a.absorb block signal = some (.ok after)) : after.Registered register := by
  unfold absorb at absorbs
  split at absorbs
  · cases absorbs
    exact ⟨known.heap, known.frame.stack, known.frame.constants⟩
  · split at absorbs <;> cases absorbs
    exact enterHandler_registered _ _ known
  · split at absorbs <;> cases absorbs
    exact enterHandler_registered _ _ known
  · cases absorbs
    exact enterFinally_registered _
      (allRegistered_cons.mpr ⟨.atom rfl, allRegistered_cons.mpr ⟨under, allRegistered_nil⟩⟩) known
  · cases absorbs
    exact enterFinally_registered _ (allRegistered_cons.mpr ⟨.atom rfl, allRegistered_nil⟩) known
  · unfold enterContinue at absorbs
    split at absorbs <;> cases absorbs
    exact enterFinally_registered _
      (allRegistered_cons.mpr ⟨.atom rfl, allRegistered_cons.mpr ⟨.atom rfl, allRegistered_nil⟩⟩) known
  · cases absorbs

theorem supplant_registered (callers : List Frame) (fault : Fault) (known : a.Registered register) :
    Later register fun more => (a.supplant callers fault).Registered more := by
  obtain ⟨more, grown, held⟩ := raise_registered callers fault known
  exact ⟨more, grown, trivial, held⟩

theorem offer_registered {signal : Signal} (callers : List Frame) (block : Block) (under : signal.Registered register)
    (known : a.Registered register) : Later register fun more => Encounter.Registered more (match a.absorb block signal with
      | some (.ok a) => .absorbed a
      | some (.error fault) => a.supplant callers fault
      | none => .passed signal a) := by
  split
  · rename_i absorbs
    exact .now (absorb_registered under known absorbs)
  · exact supplant_registered callers _ known
  · exact .now ⟨under, known⟩

theorem meet_registered {signal : Signal} (callers : List Frame) (block : Block) (rest : List Block)
    (under : signal.Registered register) (known : a.Registered register) :
    Later register fun more => (a.meet callers block rest signal).Registered more := by
  unfold meet
  split
  · exact .now ⟨known.heap, known.frame.stack, known.frame.constants⟩
  · dsimp only
    have lowered : Registered register { a with frame := { a.frame with blocks := rest } } :=
      ⟨known.heap, known.frame.stack, known.frame.constants⟩
    obtain ⟨more, grown, held⟩ := release_registered block lowered
    have under := under.mono grown
    dsimp only at held
    generalize release block _ = released at held ⊢
    obtain ⟨outcome, left⟩ := released
    have noted := held.emit (.blockPop block.kind rest.length)
    dsimp only
    cases outcome with
    | error fault => exact (supplant_registered callers fault noted).after grown
    | ok restored =>
        cases restored with
        | none => exact (offer_registered callers block under noted).after grown
        | some saved =>
            obtain ⟨last, grows, under, restored⟩ := restore_registered saved under noted
            exact (offer_registered callers block under restored).after (grown.trans grows)

end Active

end

namespace Exec

open Act

variable {register : Register}

theorem registers_pushBlock (block : Nat → Block) : Registers Active.Registered register Valueless (pushBlock block) :=
  .bind registers_frame fun _ _ _ _ => .bind (registers_changeFrame fun _ held => ⟨held.stack, held.constants⟩)
    fun _ _ _ _ => .bind registers_frame fun _ _ _ _ => registers_act (registers_emit _)

theorem registers_takeBlock : Registers Active.Registered register Valueless takeBlock := by
  refine .bind registers_frame fun frame _ _ _ => ?_
  split
  · exact .bind (registers_changeFrame fun _ held => ⟨held.stack, held.constants⟩) fun _ _ _ _ => .pure trivial
  · exact .throw

theorem registers_popBlock : Registers Active.Registered register Valueless popBlock :=
  .bind registers_takeBlock fun _ _ _ _ => .bind registers_frame fun _ _ _ _ => registers_act (registers_emit _)

theorem registers_recover (released : Except Fault (Option Raised)) :
    Registers Active.Registered register Valueless (recover released) := by
  cases released with
  | error fault => exact .throw
  | ok restored =>
      exact .bind registers_frame fun _ _ _ _ => .bind (registers_act (registers_emit _)) fun _ _ _ _ =>
        .modify fun _ held => .now ⟨held.heap, held.frame⟩

theorem registers_popExcept : Registers Active.Registered register Valueless popExcept := by
  refine .bind registers_takeBlock fun block more _ _ => ?_
  cases block with
  | exceptHandler depth =>
      exact .get fun a known => .bind (.set (Active.release_registered (.exceptHandler depth) known))
        fun _ _ _ _ => registers_recover _
  | _ => exact .throw

theorem registers_instance? (value : Value) : Registers Active.Registered register Valueless (instance? value) := by
  unfold instance?
  split
  · exact .bind (registers_act (registers_newException _ none)) fun _ _ _ _ => .pure trivial
  · exact .pure trivial
  · exact .pure trivial

theorem registers_throwFresh (exception : ExceptionObject) (cause : Option ExceptionObject) :
    Registers Active.Registered register Effect.Registered (do
      let (id, heap) := (← get).world.heap.fresh
      modify (Active.setHeap heap)
      return .throw { exception with id, cause } : Exec Effect) := by
  refine .get fun a known => .bind (.modify fun before held => ?_) fun _ _ _ _ => .pure trivial
  exact ⟨_, register.grows_enter .nothing, held.setHeap (register.grows_enter _) (known.heap.enter _)⟩

theorem registers_raiseVarargs (form : Nat) :
    Registers Active.Registered register Effect.Registered (raiseVarargs form) := by
  unfold raiseVarargs
  split
  · exact .pure trivial
  · refine .bind registers_pop fun value _ _ _ => .bind (registers_instance? value) fun found _ _ _ => ?_
    cases found with
    | some exception => exact .pure trivial
    | none => exact .throw
  · refine .bind registers_popTwo fun (value, origin) _ _ _ =>
      .bind (registers_instance? value) fun found _ _ _ => ?_
    cases found with
    | none => exact .throw
    | some exception =>
        cases origin with
        | nothing => exact .bind (.plain _) fun _ _ _ _ => registers_throwFresh exception _
        | _ =>
            refine .bind (registers_instance? _) fun cause _ _ _ => ?_
            cases cause with
            | some cause => exact .bind (.plain _) fun _ _ _ _ => registers_throwFresh exception _
            | none => exact .throw_bind
  · exact .throw

theorem registers_endFinally : Registers Active.Registered register Effect.Registered endFinally := by
  refine .bind registers_pop fun value _ _ _ => ?_
  split
  · exact .pure trivial
  · exact .bind registers_pop fun _ _ _ payload => .pure payload
  · exact .pure trivial
  · refine .bind registers_pop fun payload _ _ _ => ?_
    split
    · split
      · exact .throw
      · exact .pure trivial
    · exact .throw
  · refine .bind registers_pop fun value _ _ _ => .bind registers_pop fun trace more _ _ => .get fun a known => ?_
    refine .bind (registers_act (registers_ofExcept (fun now pair => Later now fun last => pair.2.Registered last)
      (Raised.ofValues_gives _ value trace known.heap)))
      fun pair now _ later => .bind (.modify fun before held => ?_) fun _ _ _ _ => .pure trivial
    obtain ⟨last, grown, state⟩ := later
    exact ⟨last, grown, held.setHeap grown state⟩
  · exact .throw

theorem registers_thenNext {operation : Exec Unit} (registers : Registers Active.Registered register Valueless operation) :
    Registers Active.Registered register Effect.Registered (thenNext operation) :=
  .bind registers fun _ _ _ _ => .pure trivial

end Exec

open Exec in
/-- Whatever an instruction leaves is accounted for. -/
theorem execute_registers (opcode : Opcode) {operand : Operand Value} {register : Register}
    (known : operand.Registered register) :
    Registers Active.Registered register Effect.Registered (execute opcode operand) := by
  have go {operation : Exec Unit} (registers : Registers Active.Registered register Valueless operation) :
      Registers Active.Registered register Effect.Registered (thenNext operation) :=
    registers_thenNext registers
  have named {next : String → Exec Unit} (rest : ∀ name more, register.Grows more →
      Registers Active.Registered more Valueless (next name)) :
      Registers Active.Registered register Effect.Registered (thenNext (name operand >>= next)) :=
    go (.bind (registers_name operand) fun name more grown _ => rest name more grown)
  have stored (space : Frame → NamespaceRef) (name : String) (more : Register) :
      Registers Active.Registered more Valueless (do
        let value ← pop
        Exec.bind (space (← frame)) name value) :=
    .bind registers_pop fun _ _ _ value => .bind registers_frame fun frame _ grown _ =>
      registers_bind (space frame) name (value.mono grown)
  have deleted (space : Frame → NamespaceRef) (fault : String → Fault) (name : String) (more : Register) :
      Registers Active.Registered more Valueless (do unbind (space (← frame)) name (fault name)) :=
    .bind registers_frame fun frame _ _ _ => registers_unbind (space frame) name (fault name)
  have aimed {α : Type} {result : Register → α → Prop} {next : Nat → Exec α} (rest : ∀ target more,
      Registers Active.Registered more result (next target)) :
      Registers Active.Registered register result (target operand >>= next) :=
    .bind (registers_target operand) fun target more _ _ => rest target more
  have counted {α : Type} {result : Register → α → Prop} {next : Nat → Exec α} (rest : ∀ count more,
      Registers Active.Registered more result (next count)) :
      Registers Active.Registered register result (number operand >>= next) :=
    .bind (registers_number operand) fun count more _ _ => rest count more
  cases opcode with
  | popTop => exact go (.bind registers_pop fun _ _ _ _ => .plain _)
  | rotTwo =>
      exact go (.bind registers_popTwo fun _ _ _ pair => .bind (registers_push pair.2) fun _ _ grown _ =>
        registers_push (pair.1.mono grown))
  | rotThree =>
      exact go (.bind registers_popThree fun _ _ _ three => .bind (registers_push three.2.2) fun _ _ first _ =>
        .bind (registers_push (three.1.mono first)) fun _ _ second _ =>
          registers_push (three.2.1.mono (first.trans second)))
  | dupTop => exact go (.bind (registers_peek 0) fun _ _ _ value => registers_push value)
  | dupTopTwo =>
      exact go (.bind (registers_peek 1) fun _ _ _ second => .bind (registers_peek 0) fun _ _ grown top =>
        .bind (registers_push (second.mono grown)) fun _ _ grows _ => registers_push (top.mono grows))
  | nop => exact .pure trivial
  | unary operator => exact go (registers_unary operator)
  | binary operator => exact go (registers_binary operator)
  | inplace operator => exact go (registers_inplace operator)
  | binarySubscr => exact go registers_subscript
  | storeSubscr => exact go registers_storeSubscript
  | getIter =>
      exact go (.bind registers_pop fun _ _ _ value => .bind (registers_act (Act.registers_iterate value))
        fun _ _ _ iterator => registers_push iterator)
  | printExpr => exact go registers_printExpr
  | breakLoop => exact .pure trivial
  | returnValue => exact .bind registers_pop fun _ _ _ value => .pure value
  | popBlock => exact go registers_popBlock
  | endFinally => exact registers_endFinally
  | popExcept => exact go registers_popExcept
  | storeName | storeFast => exact named fun name more _ => stored Frame.locals name more
  | storeGlobal => exact named fun name more _ => stored Frame.globals name more
  | deleteName => exact named fun name more _ => deleted Frame.locals .undefinedName name more
  | deleteGlobal => exact named fun name more _ => deleted Frame.globals .undefinedName name more
  | deleteFast => exact named fun name more _ => deleted Frame.locals .unboundLocal name more
  | unpackSequence => exact go (counted fun count _ => registers_unpackSequence count)
  | forIter => exact go (aimed fun target _ => registers_forIter target)
  | loadConst => exact go (.bind (registers_constant known) fun _ _ _ value => registers_push value)
  | loadName => exact named fun name _ _ => .bind (registers_nameValue name) fun _ _ _ value => registers_push value
  | loadGlobal => exact named fun name _ _ => .bind (registers_globalValue name) fun _ _ _ value => registers_push value
  | loadFast => exact named fun name _ _ => .bind (registers_localValue name) fun _ _ _ value => registers_push value
  | buildTuple | buildList =>
      exact go (counted fun count _ => .bind (registers_popMany count) fun _ _ _ items => registers_pushDraft items)
  | compareOp => exact go (counted fun count _ => registers_compareOp count)
  | jumpForward | jumpAbsolute => exact go (aimed fun target _ => registers_jump target)
  | jumpIfFalseOrPop =>
      exact go (aimed fun place _ => .bind (registers_peek 0) fun value _ _ _ => .bind (registers_truthy value)
        fun _ _ _ _ => .ite (.bind registers_pop fun _ _ _ _ => .plain _) (registers_jump place))
  | jumpIfTrueOrPop =>
      exact go (aimed fun place _ => .bind (registers_peek 0) fun value _ _ _ => .bind (registers_truthy value)
        fun _ _ _ _ => .ite (registers_jump place) (.bind registers_pop fun _ _ _ _ => .plain _))
  | popJumpIfFalse | popJumpIfTrue =>
      exact go (aimed fun place _ => .bind registers_pop fun value _ _ _ => .bind (registers_truthy value)
        fun _ _ _ _ => .ite (registers_jump place) (.plain _))
  | continueLoop => exact aimed fun _ _ => .pure trivial
  | setupLoop | setupExcept | setupFinally => exact go (aimed fun target _ => registers_pushBlock _)
  | raiseVarargs => exact counted fun count _ => registers_raiseVarargs count
  | callFunction => exact counted fun count _ => registers_callFunction count
  | makeFunction => exact go (counted fun count _ => registers_makeFunction count)
  | listAppend => exact go (counted fun count _ => registers_listAppend count)
  | yieldValue | loadAttr | loadClosure | loadDeref => exact .throw

def AllFramesRegistered (register : Register) (frames : List Frame) : Prop :=
  ∀ frame ∈ frames, frame.Registered register

theorem AllFramesRegistered.mono {register more : Register} {frames : List Frame}
    (registered : AllFramesRegistered register frames) (grown : register.Grows more) : AllFramesRegistered more frames :=
  fun frame member => (registered frame member).mono grown

structure Machine.Registered (register : Register) (machine : Machine) : Prop where
  active : machine.active.Registered register
  callers : AllFramesRegistered register machine.callers

def Status.Registered (register : Register) : Status → Prop
  | .running machine => machine.Registered register
  | .finished outcome world => Gives (Value.Registered register) outcome ∧ world.Registered register
  | .unending world => world.Registered register

def Phase.Registered (register : Register) : Phase → Prop
  | .resting status => status.Registered register
  | .passing passage => passage.signal.Registered register ∧ passage.active.Registered register ∧
      AllFramesRegistered register passage.callers

section

variable {register : Register} {a : Active} {callers : List Frame}

namespace Machine

theorem raise_registered (fault : Fault) (known : a.Registered register) (waiting : AllFramesRegistered register callers) :
    Later register fun more => (raise callers fault a).Registered more := by
  obtain ⟨more, grown, held⟩ := Active.raise_registered callers fault known
  exact ⟨more, grown, trivial, held, waiting.mono grown⟩

theorem follow_registered {effect : Effect} (known : a.Registered register) (follows : effect.Registered register)
    (waiting : AllFramesRegistered register callers) :
    Later register fun more => (follow callers effect a).Registered more := by
  cases effect with
  | next => exact .now ⟨known, waiting⟩
  | interrupt signal => exact .now ⟨follows, known, waiting⟩
  | propagate raised => exact .now ⟨trivial, known.announce raised, waiting⟩
  | throw exception =>
      obtain ⟨more, grown, held⟩ := Active.throw_registered callers exception known
      exact ⟨more, grown, trivial, held, waiting.mono grown⟩
  | rethrow =>
      unfold follow
      dsimp only
      split
      · rename_i raised heap found
        obtain ⟨more, grown, state⟩ := handled?_registered known.heap found
        exact ⟨more, grown, trivial, (known.setHeap grown state).announce raised, waiting.mono grown⟩
      · split
        · exact .now ⟨trivial, known.announce _, waiting⟩
        · exact raise_registered _ known waiting
  | call callee => exact .now ⟨⟨known.heap, follows⟩, List.forall_mem_cons.mpr ⟨known.frame, waiting⟩⟩

end Machine

namespace Passage

/-- A signal under way. -/
theorem leave_registered {passage : Passage} (known : (Phase.passing passage).Registered register) :
    Later register fun more => passage.leave.Registered more := by
  obtain ⟨signal, a, callers⟩ := passage
  obtain ⟨under, held, waiting⟩ := known
  have noted := held.emit (.return (a.frame.depth - 1))
  cases signal with
  | «break» | «continue» target => exact Machine.raise_registered _ held waiting
  | «return» value =>
      cases callers with
      | nil => exact .now ⟨under, noted.heap⟩
      | cons caller rest =>
          obtain ⟨top, below⟩ := List.forall_mem_cons.mp waiting
          have pushed : (caller.push value).Registered register :=
            ⟨allRegistered_cons.mpr ⟨under, top.stack⟩, top.constants⟩
          exact .now ⟨⟨noted.heap, pushed⟩, below⟩
  | «raise» raised =>
      obtain ⟨more, grown, state⟩ := Raised.leave_registered a.frame raised noted.heap
      cases callers with
      | nil => exact ⟨more, grown, trivial, state⟩
      | cons caller rest =>
          obtain ⟨top, below⟩ := List.forall_mem_cons.mp (waiting.mono grown)
          exact ⟨more, grown, trivial, ⟨state, top⟩, below⟩

theorem step_registered {passage : Passage} (known : (Phase.passing passage).Registered register) :
    Later register fun more => passage.step.Registered more := by
  have advances := passage.step_advances
  generalize passage.step = next at advances
  cases advances with
  | @absorbed block rest after standing met =>
      obtain ⟨more, grown, held⟩ := Active.meet_registered passage.callers block rest known.1 known.2.1
      rw [met] at held
      exact ⟨more, grown, held, known.2.2.mono grown⟩
  | @passed block rest onward after standing met =>
      obtain ⟨more, grown, held⟩ := Active.meet_registered passage.callers block rest known.1 known.2.1
      rw [met] at held
      exact ⟨more, grown, held.1, held.2, known.2.2.mono grown⟩
  | left empty left => exact left ▸ leave_registered known

end Passage

namespace Phase

theorem proceed_registered {phase : Phase} (known : phase.Registered register) :
    Later register fun more => phase.proceed.Registered more := by
  cases phase with
  | resting status => exact .now known
  | passing passage => exact Passage.step_registered known

theorem settle_registered {phase : Phase} (known : phase.Registered register) :
    Later register fun more => phase.settle.Registered more := by
  have iterated (steps : Nat) : Later register fun more => (proceed^[steps] phase).Registered more := by
    induction steps with
    | zero => exact .now known
    | succ steps ih =>
        obtain ⟨more, grown, held⟩ := ih
        rw [Function.iterate_succ_apply']
        exact (proceed_registered held).after grown
  cases phase with
  | resting status => exact .now known
  | passing passage =>
      obtain ⟨steps, -, rested⟩ := passage.exists_resting
      have held := iterated steps
      rwa [rested] at held

end Phase

/-- A constant operand comes from the table of constants. -/
theorem Code.resolve_registered {code : Code Value} {operandClass : OperandClass} {next index : Nat}
    {operand : Operand Value} (constants : AllRegistered register code.constants)
    (resolved : code.resolve operandClass next index = .ok operand) : operand.Registered register := by
  cases resolve_fits resolved with
  | const value =>
      simp only [resolve, lookup] at resolved
      cases found : code.constants[index]? with
      | none =>
          rw [found] at resolved
          cases resolved
      | some entry =>
          rw [found] at resolved
          cases resolved
          exact constants _ (List.mem_of_getElem? found)
  | _ => trivial

theorem Code.decodeAt_registered {code : Code Value} {offset : Nat} {instruction : Instruction Value}
    (constants : AllRegistered register code.constants) (decoded : code.decodeAt offset = .ok instruction) :
    instruction.operand.Registered register := by
  have decodes := code.decodeAt_decodes offset
  rw [decoded] at decodes
  cases decodes with
  | bare => trivial
  | resolved resolved => exact resolve_registered constants resolved

namespace Machine

theorem dispatch_registered {machine : Machine} (known : machine.Registered register) :
    Later register fun more => machine.dispatch.Registered more := by
  obtain ⟨active, callers⟩ := machine
  obtain ⟨held, waiting⟩ := known
  have fetches := fetch_fetches active
  simp only [dispatch]
  generalize fetch active = fetched at fetches
  cases fetches with
  | refused => exact raise_registered _ ⟨held.heap, held.frame⟩ waiting
  | @decoded instruction world decoded counted same =>
      have operand := Code.decodeAt_registered held.frame.constants decoded
      have ready : Active.Registered register
          { active with
            world
            frame := { active.frame with lastOffset := instruction.offset, ip := instruction.next } } :=
        ⟨same ▸ held.heap, held.frame.stack, held.frame.constants⟩
      have executed := execute_registers instruction.opcode operand _ ready
      dsimp only
      split at executed
      · rename_i effect after ran
        obtain ⟨more, grown, held, follows⟩ := executed
        rw [ran]
        exact (follow_registered held follows (waiting.mono grown)).after grown
      · rename_i failure after ran
        obtain ⟨more, grown, held, _⟩ := executed
        rw [ran]
        cases failure with
        | raised fault => exact (raise_registered fault held (waiting.mono grown)).after grown
        | unending => exact ⟨more, grown, held.heap⟩

theorem step_registered {machine : Machine} (known : machine.Registered register) :
    Later register fun more => machine.step.Registered more := by
  obtain ⟨more, grown, reached⟩ := dispatch_registered known
  exact (Phase.settle_registered reached).after grown

end Machine

end

end BlockVM
