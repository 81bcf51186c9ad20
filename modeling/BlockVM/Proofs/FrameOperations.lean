import BlockVM.Proofs.WorldOperations

namespace BlockVM

/-! What each operation on the running frame does: the data stack before and after it, the events that it notes, what
it leaves alone and how it fails. One statement about an operation says all of this. -/

/-- Only the data stack and the place of the next instruction change in the frame, only its own namespaces
in the heap, and only events of an allowed sort are added. -/
structure Active.Steady (allowed : Event → Prop) (before after : Active) : Prop where
  frame : ∃ stack ip, after.frame = { before.frame with stack, ip }
  world : before.world.Extends allowed after.world
  spaces : before.world.heap.Spares before.frame.Binds after.world.heap

namespace Active.Steady

variable {allowed : Event → Prop} {first second third : Active}

theorem anchored (steady : Steady allowed first second) : Anchored first second := by
  obtain ⟨stack, ip, same⟩ := steady.frame
  exact ⟨⟨stack, first.frame.blocks, ip, first.frame.lastOffset, same⟩, steady.spaces⟩

theorem of_world (frame : second.frame = first.frame) (discreet : first.world.Discreet allowed second.world) :
    Steady allowed first second :=
  ⟨⟨first.frame.stack, first.frame.ip, frame⟩, discreet.world, .of_namespaces discreet.namespaces⟩

theorem of_frame (frame : ∃ stack ip, second.frame = { first.frame with stack, ip })
    (world : second.world = first.world) : Steady allowed first second :=
  ⟨frame, by rw [world]; exact .refl first.world, .of_namespaces (by rw [world])⟩

instance (allowed : Event → Prop) : IsPreorder Active (Steady allowed) where
  refl a := of_frame ⟨a.frame.stack, a.frame.ip, rfl⟩ rfl
  trans first second third earlier later := by
    obtain ⟨stack, ip, same⟩ := earlier.frame
    obtain ⟨stackLater, ipLater, sameLater⟩ := later.frame
    exact ⟨⟨stackLater, ipLater, by rw [sameLater, same]⟩, earlier.world.trans later.world,
      (earlier.anchored.trans later.anchored).spaces⟩

end Active.Steady

namespace Exec

open Active Act

variable {α β : Type}

/-- Whatever its outcome, the operation relates the state before to the state after, and it does the same under
another tracker. -/
structure Conforms (relation : Active → Active → Prop) (operation : Exec α) : Prop where
  keeps : Keeps relation operation
  commutes : ∀ retracking : Retracking, Commutes retracking.active operation

namespace Conforms

variable {relation : Active → Active → Prop} {operation : Exec α} {next : α → Exec β}

theorem mono {wide : Active → Active → Prop} (conforms : Conforms relation operation)
    (admits : ∀ before after, relation before after → wide before after) : Conforms wide operation :=
  ⟨conforms.keeps.mono admits, conforms.commutes⟩

theorem compose {second whole : Active → Active → Prop} (conforms : Conforms relation operation)
    (continued : ∀ value, Conforms second (next value))
    (stops : ∀ before after, relation before after → whole before after)
    (joins : ∀ before middle after, relation before middle → second middle after → whole before after) :
    Conforms whole (operation >>= next) :=
  ⟨conforms.keeps.compose (fun value => (continued value).keeps) stops joins,
    fun retracking => (conforms.commutes retracking).bind fun value => (continued value).commutes retracking⟩

variable [IsPreorder Active relation]

theorem pure (value : α) : Conforms relation (Pure.pure value : Exec α) :=
  ⟨.pure value, fun _ => .pure value⟩

theorem raise {fault : Fault} (ordinary : fault.Ordinary) : Conforms relation (Exec.raise fault : Exec α) :=
  ⟨.throw ordinary, fun _ => .throw _⟩

theorem bind (first : Conforms relation operation) (second : ∀ value, Conforms relation (next value)) :
    Conforms relation (operation >>= next) :=
  first.compose second (fun _ _ => id) fun _ _ _ => trans_of relation

theorem read {next : Active → Exec α}
    (blind : ∀ (retracking : Retracking) (a : Active), next (retracking.active a) = next a)
    (second : ∀ a, Conforms relation (next a)) : Conforms relation (MonadState.get >>= next) :=
  ⟨.bind .get fun a => (second a).keeps,
    fun retracking => .get (blind retracking) fun a => (second a).commutes retracking⟩

theorem transform {property : α → Prop} {view : Active → α × Active} (sort : ∀ a, property (view a).1)
    (related : ∀ a, relation a (view a).2)
    (same : ∀ (retracking : Retracking) (a : Active),
      view (retracking.active a) = ((view a).1, retracking.active (view a).2))
    (second : ∀ value, property value → Conforms relation (next value)) :
    Conforms relation (do
      let (value, after) := view (← get)
      set after
      next value) :=
  ⟨.transform sort related fun value held => (second value held).keeps,
    fun retracking => .transform sort (same retracking) fun value held => (second value held).commutes retracking⟩

theorem thenNext {operation : Exec Unit} (conforms : Conforms relation operation) :
    Conforms relation (thenNext operation) :=
  .bind conforms fun _ => .pure _

end Conforms

/-- How an operation ends that needs `need` values on the data stack, takes `pops` of them off and puts
`pushes` others on. One that fails has not touched the values below. -/
def Handled (need pops pushes : Nat) (before : Frame) : EStateM.Result Failure Active α → Prop
  | .ok _ after => need ≤ before.stack.length ∧ pops ≤ before.stack.length ∧ ∃ fresh : List Value,
      fresh.length = pushes ∧ after.frame = { before with stack := fresh ++ before.stack.drop pops }
  | .error failure after =>
      (Act.Fails after.world failure ∨ before.stack.length < need) ∧ before.stack.drop pops <:+ after.frame.stack

/-- All there is to know of an operation that goes on with the next instruction and leaves the blocks alone. -/
structure Handles (allowed : Event → Prop) (need pops pushes : Nat) (operation : Exec α) : Prop
    extends Conforms (Steady allowed) operation where
  handled (a : Active) : Handled need pops pushes a.frame (operation a)

variable {allowed : Event → Prop}

theorem Handled.same {before : Frame} {value : α} {after : Active} (frame : after.frame = before) :
    Handled 0 0 0 before (.ok value after) :=
  ⟨Nat.zero_le _, Nat.zero_le _, [], rfl, frame⟩

theorem raise_bind (fault : Fault) (next : α → Exec β) : (raise fault >>= next) = raise fault := rfl

theorem frame_bind {next : Frame → Exec α} {a : Active} : (frame >>= next) a = next a.frame a := rfl

namespace Handles

variable {need pops pushes more others fresh total : Nat} {operation : Exec α} {next : α → Exec β}

/-- What the first operation has put on is there for the second one to take. -/
theorem bind_general (first : Handles allowed need pops pushes operation)
    (second : ∀ value, Handles allowed more others fresh (next value)) (least : need ≤ total)
    (needs : ∀ height, pops ≤ height → need ≤ height → (more ≤ pushes + (height - pops) ↔ total ≤ height)) :
    Handles allowed total (pops + (others - pushes)) (fresh + (pushes - others)) (operation >>= next) := by
  refine ⟨first.toConforms.bind fun value => (second value).toConforms, fun a => ?_⟩
  have early := first.handled a
  change Handled _ _ _ _ (EStateM.bind operation next a)
  unfold EStateM.bind
  cases run : operation a with
  | error failure after =>
      rw [run] at early
      refine ⟨early.1.imp_right fun short => Nat.lt_of_lt_of_le short least, ?_⟩
      exact (List.drop_suffix_drop_left _ (Nat.le_add_right _ _)).trans early.2
  | ok value middle =>
      rw [run] at early
      obtain ⟨needed, enough, put, count, frame⟩ := early
      have height : middle.frame.stack.length = pushes + (a.frame.stack.length - pops) := by
        rw [frame, List.length_append, List.length_drop, count]
      -- The second operation takes from what the first has put on, and beyond that from the stack below.
      have left : middle.frame.stack.drop others =
          put.drop others ++ a.frame.stack.drop (pops + (others - pushes)) := by
        rw [frame, List.drop_append, count, List.drop_drop]
      have late := (second value).handled middle
      have fits := needs a.frame.stack.length enough needed
      change Handled _ _ _ _ (next value middle)
      cases rerun : next value middle with
      | error failure after =>
          rw [rerun] at late
          refine ⟨late.1.imp_right fun short => by omega, ?_⟩
          exact (left ▸ List.suffix_append _ _).trans late.2
      | ok result after =>
          rw [rerun] at late
          obtain ⟨neededLater, enoughLater, putLater, countLater, frameLater⟩ := late
          refine ⟨by omega, by omega, putLater ++ put.drop others, ?_, ?_⟩
          · rw [List.length_append, List.length_drop, countLater, count]
          · rw [frameLater, left, frame, List.append_assoc]

/-- The values are taken first and put on last. -/
theorem bind (first : Handles allowed need pops 0 operation)
    (second : ∀ value, Handles allowed 0 0 fresh (next value)) :
    Handles allowed need pops fresh (operation >>= next) :=
  first.bind_general second (Nat.le_refl need) (by omega)

/-- The first operation only looks. -/
theorem look (first : Handles allowed 0 0 0 operation)
    (second : ∀ value, Handles allowed need pops pushes (next value)) :
    Handles allowed need pops pushes (operation >>= next) := by
  have both := first.bind_general second (Nat.zero_le need) (by omega)
  simpa using both

theorem take (first : Handles allowed need pops 0 operation)
    (second : ∀ value, Handles allowed more others fresh (next value)) (needs : total = max need (pops + more)) :
    Handles allowed total (pops + others) fresh (operation >>= next) := by
  have least : need ≤ total := by omega
  have both := first.bind_general second least (by omega)
  simpa using both

theorem put (first : Handles allowed 0 0 pushes operation)
    (second : ∀ value, Handles allowed 0 0 fresh (next value)) :
    Handles allowed 0 0 (fresh + pushes) (operation >>= next) := by
  have both := first.bind_general second (Nat.zero_le 0) (by omega)
  simpa using both

theorem pure (value : α) : Handles allowed 0 0 0 (Pure.pure value : Exec α) :=
  ⟨.pure value, fun _ => .same rfl⟩

/-- A fault that does not come from the data stack may be raised whatever lies there. -/
theorem raise {fault : Fault} (off : fault.OffStack) :
    Handles allowed need pops pushes (Exec.raise fault : Exec α) :=
  ⟨.raise off.ordinary, fun a => ⟨.inl (.offStack off), List.drop_suffix pops a.frame.stack⟩⟩

theorem read {next : Active → Exec α}
    (blind : ∀ (retracking : Retracking) (a : Active), next (retracking.active a) = next a)
    (second : ∀ a, Handles allowed need pops pushes (next a)) :
    Handles allowed need pops pushes (MonadState.get >>= next) :=
  ⟨.read blind fun a => (second a).toConforms, fun a => (second a).handled a⟩

theorem option {next : Option β → Exec α} (absent : Handles allowed need pops pushes (next none))
    (present : ∀ value, Handles allowed need pops pushes (next (some value))) (result : Option β) :
    Handles allowed need pops pushes (next result) := by
  cases result with
  | none => exact absent
  | some value => exact present value

theorem act {operation : Act α} (behaves : Behaves allowed operation) : Handles allowed 0 0 0 (act operation) := by
  refine ⟨⟨fun before => ?_, fun retracking before => ?_⟩, fun before => ?_⟩
  · have kept := behaves.keeps before.world
    simp only [Exec.act]
    cases run : operation before.world with
    | ok result after =>
        rw [run] at kept
        exact Steady.of_world rfl kept
    | error failure after =>
        rw [run] at kept
        exact ⟨kept.1, Steady.of_world rfl kept.2⟩
  · simp only [Exec.act, Retracking.active]
    rw [behaves.commutes retracking before.world]
    cases operation before.world <;> rfl
  · have fails := behaves.fails before.world
    simp only [Exec.act]
    cases run : operation before.world with
    | ok result after => exact .same rfl
    | error failure after => exact ⟨.inl (fails failure after run), List.suffix_refl _⟩

end Handles

theorem conforms_changeFrame {change : Frame → Frame}
    (same : ∀ frame, ∃ stack ip, change frame = { frame with stack, ip }) :
    Conforms (Steady allowed) (changeFrame change) :=
  ⟨fun before => Steady.of_frame (same before.frame) rfl, fun _ => .modify fun _ => rfl⟩

theorem conforms_jump (target : Nat) : Conforms (Steady allowed) (jump target) :=
  conforms_changeFrame fun frame => ⟨frame.stack, target, rfl⟩

theorem conforms_setStack (stack : List Value) : Conforms (Steady allowed) (setStack stack) :=
  conforms_changeFrame fun frame => ⟨stack, frame.ip, rfl⟩

theorem commutes_frame (retracking : Retracking) : Commutes retracking.active frame :=
  .get (fun _ => rfl) fun a => .pure a.frame

theorem handles_frame : Handles allowed 0 0 0 frame :=
  .read (fun _ _ => rfl) fun a => .pure a.frame

theorem handles_pushAll (values : List Value) :
    Handles allowed 0 0 values.length (changeFrame fun frame => { frame with stack := values ++ frame.stack }) :=
  ⟨conforms_changeFrame fun frame => ⟨values ++ frame.stack, frame.ip, rfl⟩,
    fun _ => ⟨Nat.zero_le _, Nat.zero_le _, values, rfl, rfl⟩⟩

theorem handles_push (value : Value) : Handles allowed 0 0 1 (push value) :=
  handles_pushAll [value]

theorem handles_pushDraft (draft : Draft) : Handles allowed 0 0 1 (pushDraft draft) :=
  .look (.act (behaves_place draft)) handles_push

theorem handles_pop : Handles allowed 1 1 0 pop := by
  constructor
  · refine .bind handles_frame.toConforms fun frame => ?_
    split
    · exact .bind (conforms_setStack _) fun _ => .pure _
    · exact .raise rfl
  · rintro ⟨world, ⟨code, globals, locals, stack, blocks, ip, last, level⟩, recovered⟩
    cases stack with
    | nil => exact ⟨.inr Nat.zero_lt_one, List.nil_suffix⟩
    | cons value rest => exact ⟨by simp, by simp, [], rfl, rfl⟩

theorem handles_popTwo : Handles allowed 2 2 0 popTwo := by
  constructor
  · refine .bind handles_frame.toConforms fun frame => ?_
    split
    · exact .bind (conforms_setStack _) fun _ => .pure _
    · exact .raise rfl
  · rintro ⟨world, ⟨code, globals, locals, stack, blocks, ip, last, level⟩, recovered⟩
    match stack with
    | [] | [_] => exact ⟨.inr (by simp), List.nil_suffix⟩
    | _ :: _ :: rest => exact ⟨by simp, by simp, [], rfl, rfl⟩

theorem handles_popThree : Handles allowed 3 3 0 popThree := by
  constructor
  · refine .bind handles_frame.toConforms fun frame => ?_
    split
    · exact .bind (conforms_setStack _) fun _ => .pure _
    · exact .raise rfl
  · rintro ⟨world, ⟨code, globals, locals, stack, blocks, ip, last, level⟩, recovered⟩
    match stack with
    | [] | [_] | [_, _] => exact ⟨.inr (by simp), List.nil_suffix⟩
    | _ :: _ :: _ :: rest => exact ⟨by simp, by simp, [], rfl, rfl⟩

end Exec

/-- The running frame without the topmost values. -/
def Active.discard (count : Nat) (a : Active) : Active :=
  { a with frame := { a.frame with stack := a.frame.stack.drop count } }

namespace Exec

open Active Act

section

variable {count : Nat} {a : Active}

theorem popMany_of_le (enough : count ≤ a.frame.stack.length) :
    popMany count a = .ok (a.frame.stack.take count).reverse (a.discard count) := by
  change (if a.frame.stack.length < count then _ else _ : Exec (List Value)) a = _
  rw [if_neg (Nat.not_lt.mpr enough)]
  rfl

theorem popMany_of_lt (short : a.frame.stack.length < count) :
    popMany count a = .error (.raised .stackUnderflow) a := by
  change (if a.frame.stack.length < count then _ else _ : Exec (List Value)) a = _
  rw [if_pos short]
  rfl

end

variable {α : Type} {allowed : Event → Prop}

theorem handles_popMany (count : Nat) : Handles allowed count count 0 (popMany count) := by
  constructor
  · refine .bind handles_frame.toConforms fun frame => ?_
    dsimp only
    split
    · exact .raise rfl
    · exact .bind (conforms_setStack _) fun _ => .pure _
  · intro a
    rcases Nat.lt_or_ge a.frame.stack.length count with short | enough
    · rw [popMany_of_lt short]
      exact ⟨.inr short, List.drop_suffix _ _⟩
    · rw [popMany_of_le enough]
      exact ⟨enough, enough, [], rfl, rfl⟩

theorem handles_peek (above : Nat) : Handles allowed (above + 1) 0 0 (peek above) := by
  constructor
  · refine .bind handles_frame.toConforms fun frame => ?_
    split
    · exact .pure _
    · exact .raise rfl
  · intro a
    rw [peek, frame_bind]
    cases found : a.frame.stack[above]? with
    | none => exact ⟨.inr (Nat.lt_succ_of_le (List.getElem?_eq_none_iff.mp found)), List.suffix_refl _⟩
    | some value => exact ⟨(List.getElem?_eq_some_iff.mp found).1, Nat.zero_le _, [], rfl, rfl⟩

theorem handles_truthy (value : Value) : Handles allowed 0 0 0 (truthy value) :=
  .read (fun _ _ => rfl) fun _ => .pure _

end Exec

/-- An operand is of the sort that its class calls for. -/
inductive Operand.Fits {α : Type} : OperandClass → Operand α → Prop where
  | none : Fits .none .none
  | const (value : α) : Fits .const (.const value)
  | name (name : String) : Fits .name (.name name)
  | slot (name : String) : Fits .slot (.slot name)
  | relative (target : Nat) : Fits .jumpRelative (.jump target)
  | absolute (target : Nat) : Fits .jumpAbsolute (.jump target)
  | int (number : Nat) : Fits .int (.int number)

def Operand.count : Operand Value → Nat
  | .int count => count
  | _ => 0

theorem Operand.Fits.eq_int {sort : OperandClass} {operand : Operand Value} (fits : operand.Fits sort)
    (numbered : sort = .int) : operand = .int operand.count := by
  cases fits with
  | int number => rfl
  | _ => cases numbered

namespace Exec

open Active Act

variable {allowed : Event → Prop} {operand : Operand Value}

theorem handles_constant (fits : operand.Fits .const) : Handles allowed 0 0 0 (constant operand) := by
  cases fits
  exact .pure _

theorem handles_name (fits : operand.Fits .name ∨ operand.Fits .slot) : Handles allowed 0 0 0 (name operand) := by
  rcases fits with fits | fits <;> cases fits <;> exact .pure _

theorem handles_target (fits : operand.Fits .jumpRelative ∨ operand.Fits .jumpAbsolute) :
    Handles allowed 0 0 0 (target operand) := by
  rcases fits with fits | fits <;> cases fits <;> exact .pure _

theorem handles_number (fits : operand.Fits .int) : Handles allowed 0 0 0 (number operand) := by
  cases fits
  exact .pure _

theorem handles_lookup? (space : NamespaceRef) (name : String) : Handles allowed 0 0 0 (lookup? space name) :=
  .read (fun _ _ => rfl) fun _ => .pure _

/-- Changing a namespace of its own, the frame touches no other. -/
theorem handles_updateSpace {space : Frame → NamespaceRef} (own : ∀ frame : Frame, frame.Binds (space frame))
    (change : Namespace → Namespace) :
    Handles allowed 0 0 0 (do act (Act.changeHeap (Heap.updateSpace (space (← frame)) change))) where
  keeps before :=
    ⟨⟨before.frame.stack, before.frame.ip, rfl⟩, setHeap_extends _ before, .updateSpace _ change (own before.frame)⟩
  commutes _ _ := rfl
  handled _ := .same rfl

theorem handles_bind {space : Frame → NamespaceRef} (own : ∀ frame : Frame, frame.Binds (space frame))
    (name : String) (value : Value) : Handles allowed 0 0 0 (do Exec.bind (space (← frame)) name value) :=
  handles_updateSpace own _

theorem unbind_eq (space : NamespaceRef) (name : String) (fault : Fault) (a : Active) :
    unbind space name fault a = (match (a.world.heap.space space).get? name with
      | some _ => act (Act.changeHeap (Heap.updateSpace space (·.remove name)))
      | none => raise fault : Exec Unit) a := rfl

theorem handles_unbind {space : Frame → NamespaceRef} (own : ∀ frame : Frame, frame.Binds (space frame))
    (name : String) {fault : Fault} (off : fault.OffStack) :
    Handles allowed 0 0 0 (do unbind (space (← frame)) name fault) := by
  have removed : Handles allowed 0 0 0
      (do act (Act.changeHeap (Heap.updateSpace (space (← frame)) (·.remove name)))) :=
    handles_updateSpace own _
  have refused : Handles allowed 0 0 0 (Exec.raise fault : Exec Unit) := .raise off
  refine ⟨⟨fun a => ?_, fun retracking a => ?_⟩, fun a => ?_⟩
  · rw [frame_bind, unbind_eq]
    cases (a.world.heap.space (space a.frame)).get? name with
    | some value => exact removed.keeps a
    | none => exact refused.keeps a
  · rw [frame_bind, frame_bind, unbind_eq, unbind_eq]
    change (match (a.world.heap.space (space a.frame)).get? name with
      | some _ => _
      | none => _ : Exec Unit) _ = _
    cases (a.world.heap.space (space a.frame)).get? name with
    | some value => rfl
    | none => rfl
  · rw [frame_bind, unbind_eq]
    cases (a.world.heap.space (space a.frame)).get? name with
    | some value => exact removed.handled a
    | none => exact refused.handled a

theorem handles_globalValue (name : String) : Handles allowed 0 0 0 (globalValue name) := by
  refine .look handles_frame fun frame => .look (handles_lookup? frame.globals name) fun found => ?_
  split
  · exact .pure _
  · split
    · exact .pure _
    · exact .raise rfl

theorem handles_nameValue (name : String) : Handles allowed 0 0 0 (nameValue name) := by
  refine .look handles_frame fun frame => .look (handles_lookup? frame.locals name) fun found => ?_
  split
  · exact .pure _
  · exact handles_globalValue name

theorem handles_localValue (name : String) : Handles allowed 0 0 0 (localValue name) := by
  refine .look handles_frame fun frame => .look (handles_lookup? frame.locals name) fun found => ?_
  split
  · exact .pure _
  · exact .raise rfl

theorem handles_unary (operator : UnaryOperator) : Handles allowed 1 1 1 (unary operator) := by
  refine .bind handles_pop fun operand => ?_
  cases operator with
  | positive | invert => exact .look (.pure _) (.option (.raise rfl) handles_push)
  | negative => exact .look (.act (behaves_ofExcept operand.negate_errs)) (.option (.raise rfl) handles_push)
  | not =>
      exact .look (handles_truthy operand) fun _ => .look (.pure _) (.option (.raise rfl) handles_push)

theorem handles_apply (operator : BinaryOperator) (left right : Value) :
    Handles allowed 0 0 1 (apply operator left right) := by
  refine .read (fun _ _ => rfl) fun a => ?_
  have applied := Value.apply_errs a.world.heap operator left right
  dsimp only
  split
  · split
    · exact .look (.act (behaves_checkResult _)) fun _ =>
        .look (.act (behaves_ofExcept applied)) (.option (.raise rfl) handles_pushDraft)
    · exact .look (.act (behaves_ofExcept applied)) (.option (.raise rfl) handles_pushDraft)
  · exact .look (.act (behaves_ofExcept applied)) (.option (.raise rfl) handles_pushDraft)

theorem handles_binary (operator : BinaryOperator) : Handles allowed 2 2 1 (binary operator) :=
  .bind handles_popTwo fun (left, right) => handles_apply operator left right

theorem handles_inplace (operator : BinaryOperator) : Handles allowed 2 2 1 (inplace operator) := by
  refine .bind handles_popTwo fun (left, right) => ?_
  dsimp only
  split
  · exact .look (.act (behaves_drain _)) fun _ => .look (.act (behaves_changeHeap fun _ => rfl)) fun _ =>
      handles_push _
  · exact handles_apply _ _ _

theorem handles_compareOp (selector : Nat) : Handles allowed 2 2 1 (compareOp selector) := by
  unfold compareOp
  split
  · exact .raise rfl
  · exact .bind handles_popTwo fun _ => .read (fun _ _ => rfl) fun _ =>
      .look (.act (behaves_ofFailing (compare_errs _ _ _ _))) fun _ => handles_push _

theorem handles_build (count : Nat) (draft : List Value → Draft) :
    Handles allowed count count 1 (do pushDraft (draft (← popMany count))) :=
  .bind (handles_popMany count) fun _ => handles_pushDraft _

theorem handles_listAppend (depth : Nat) : Handles allowed (max depth 1 + 1) 1 0 (listAppend depth) := by
  refine .take handles_pop (fun value => .bind (handles_peek (depth - 1)) fun target => ?_) (by omega)
  cases target with
  | list ref => exact .act (behaves_changeHeap fun _ => rfl)
  | _ => exact .raise rfl

theorem handles_unpackSequence (expected : Nat) : Handles allowed 1 1 expected (unpackSequence expected) := by
  refine .bind handles_pop fun value => .look (.act (behaves_drain value)) fun items => ?_
  dsimp only
  split
  · rw [raise_bind]
    exact .raise rfl
  · split
    · rw [raise_bind]
      exact .raise rfl
    · obtain rfl : expected = items.length := by omega
      exact handles_pushAll items

theorem handles_subscript : Handles allowed 2 2 1 subscript :=
  .bind handles_popTwo fun _ => .read (fun _ _ => rfl) fun _ =>
    .look (.act (behaves_ofExcept (Value.item_errs _ _ _))) handles_pushDraft

/-- Going on with what is computed from the heap. -/
theorem handles_attempt {α β : Type} {compute : Heap → Except Fault α} {next : α → Exec β}
    (errs : ∀ heap, Errs Fault.OffStack (compute heap))
    (kept : ∀ a value, compute a.world.heap = .ok value → Leaves (Steady allowed a) (next value a))
    (commutes : ∀ value (retracking : Retracking), Commutes retracking.active (next value))
    (handled : ∀ value a, Handled 0 0 0 a.frame (next value a)) :
    Handles allowed 0 0 0 (do next (← act (Act.ofExcept (compute (← get).world.heap)))) := by
  have attempted (a : Active) :
      (do next (← act (Act.ofExcept (compute (← get).world.heap)))) a =
        (act (Act.ofExcept (compute a.world.heap)) >>= next) a := rfl
  refine ⟨⟨fun a => ?_, fun retracking => .get (fun _ => rfl) fun a => ?_⟩, fun a => ?_⟩
  · have erring := errs a.world.heap
    rw [attempted]
    cases computed : compute a.world.heap with
    | ok value => exact kept a value computed
    | error fault =>
        rw [computed] at erring
        exact ⟨Fault.OffStack.ordinary erring, refl_of (Steady allowed) a⟩
  · cases compute a.world.heap with
    | ok value => exact .bind (.pure value) fun value => commutes value retracking
    | error fault => exact .throw _
  · have erring := errs a.world.heap
    rw [attempted]
    cases computed : compute a.world.heap with
    | ok value => exact handled value a
    | error fault =>
        rw [computed] at erring
        exact ⟨.inl (.offStack erring), List.suffix_refl _⟩

theorem setItem_namespaces {heap changed : Heap} {container index value : Value}
    (stored : Value.setItem heap container index value = .ok changed) : changed.namespaces = heap.namespaces := by
  cases container with
  | list ref =>
      simp only [Value.setItem, Bind.bind, Except.bind] at stored
      split at stored <;> cases stored
      rfl
  | _ => cases stored

theorem handles_storeSubscript : Handles allowed 3 3 0 storeSubscript :=
  .bind handles_popThree fun (value, container, index) =>
    handles_attempt (fun heap => Value.setItem_errs heap container index value)
      (fun a _ stored => .of_world rfl ⟨setHeap_extends _ a, setItem_namespaces stored⟩) (fun _ _ _ => rfl)
      fun _ _ => .same rfl

theorem handles_printExpr : Handles allowed 1 1 0 printExpr := by
  refine .bind handles_pop fun value => ?_
  cases value with
  | nothing => exact .pure _
  | _ =>
      exact .read (fun _ _ => rfl) fun _ => .look (.act (behaves_print _)) fun _ => .act (behaves_print _)

theorem handles_makeFunction (makes : ∀ defaults, allowed (.makeFunction defaults)) (count : Nat) :
    Handles allowed (count + 2) (count + 2) 1 (makeFunction count) := by
  rw [Nat.add_comm]
  have needs : 2 + count = max 2 (2 + count) := by omega
  refine .take handles_popTwo ?_ needs
  rintro ⟨code, label⟩
  refine .bind (handles_popMany count) fun defaults => ?_
  cases code with
  | code id unit =>
      exact .look (.act (behaves_emit (makes _))) fun _ =>
        .look (.act (behaves_allocate fun _ => rfl)) fun _ => handles_push _
  | _ => exact .raise rfl

theorem conforms_forIter (exit : Nat) : Conforms (Steady allowed) (forIter exit) := by
  refine .bind (handles_peek 0).toConforms fun value =>
    .bind (Handles.act (behaves_next value)).toConforms fun found => ?_
  cases found with
  | some item => exact (handles_push item).toConforms
  | none => exact .bind handles_pop.toConforms fun _ => conforms_jump exit

section

variable {a : Active} {iterator : Value} {rest : List Value} {world : World} (exit : Nat)

theorem forIter_item {item : Value} (stack : a.frame.stack = iterator :: rest)
    (asked : Act.next iterator a.world = .ok (some item) world) :
    forIter exit a = .ok () { a with world, frame := { a.frame with stack := item :: iterator :: rest } } := by
  obtain ⟨before, frame, recovered⟩ := a
  obtain ⟨⟩ := frame
  cases stack
  change EStateM.bind (act (Act.next iterator)) _ _ = _
  simp only [EStateM.bind, act, asked]
  rfl

theorem forIter_spent (stack : a.frame.stack = iterator :: rest)
    (asked : Act.next iterator a.world = .ok none world) :
    forIter exit a = .ok () { a with world, frame := { a.frame with stack := rest, ip := exit } } := by
  obtain ⟨before, frame, recovered⟩ := a
  obtain ⟨⟩ := frame
  cases stack
  change EStateM.bind (act (Act.next iterator)) _ _ = _
  simp only [EStateM.bind, act, asked]
  rfl

end

theorem handles_newNamespace (space : Namespace) :
    Handles allowed 0 0 0 (act (Act.allocate (Heap.newNamespace space))) where
  keeps a := ⟨⟨a.frame.stack, a.frame.ip, rfl⟩, setHeap_extends _ a, .newNamespace _ space⟩
  commutes _ _ := rfl
  handled _ := .same rfl

theorem handles_enter (calls : ∀ name depth, allowed (.call name depth)) (code : Code Value)
    (arguments defaults : List Value) : Handles allowed 0 0 0 (enter code arguments defaults) := by
  refine .look handles_frame fun caller => .look (.act (behaves_ofExcept (code.bindArguments_errs _ _))) fun _ =>
    .read (fun retracking a => ?_) fun _ => .look (.act (behaves_ofLimit _)) fun _ =>
      .look (handles_newNamespace _) fun _ => .look (.act (behaves_emit (calls _ _))) fun _ => .pure _
  -- The depth of calls is the one thing that is asked of the tracker.
  rw [show (retracking.active a).world.tracker = retracking.tracker a.world.tracker from rfl, retracking.checkCall]

/-- A value that is not a function takes no frame of its own. -/
theorem handles_invoke {callee : Value} (foreign : ∀ id name code defaults, callee ≠ .function id name code defaults)
    (arguments : List Value) : Handles allowed 0 0 1 (invoke arguments callee) := by
  have pushed (value : Value) : Handles allowed 0 0 1 (do push value; return Effect.next : Exec Effect) :=
    .put (handles_push value) fun _ => .pure _
  cases callee with
  | function id name code defaults => exact absurd rfl (foreign id name code defaults)
  | builtin function => exact .look (.act (function.behaves_call arguments)) pushed
  | exceptionKind kind =>
      exact .read (fun _ _ => rfl) fun _ => .look (.act (behaves_newException _ _)) fun _ => pushed _
  | _ => exact .raise rfl

theorem conforms_callFunction (calls : ∀ name depth, allowed (.call name depth)) (count : Nat) :
    Conforms (Steady allowed) (callFunction count) := by
  refine .bind (handles_popMany count).toConforms fun arguments => .bind handles_pop.toConforms fun callee => ?_
  cases callee with
  | function id name code defaults => exact (handles_enter calls code arguments defaults).toConforms
  | _ => exact (handles_invoke (by simp) arguments).toConforms

theorem handles_instance? (value : Value) : Handles allowed 0 0 0 (instance? value) := by
  cases value with
  | exceptionKind kind => exact .look (.act (behaves_newException kind none)) fun _ => .pure _
  | _ => exact .pure _

theorem handles_throwFresh (exception : ExceptionObject) (cause : Option ExceptionObject) :
    Handles allowed 0 0 0 (do
      let (id, heap) := (← get).world.heap.fresh
      modify (Active.setHeap heap)
      return .throw { exception with id, cause } : Exec Effect) where
  keeps a := .of_world rfl ⟨setHeap_extends _ a, rfl⟩
  commutes _ _ := rfl
  handled _ := .same rfl

/-- The forms of a raise: anew, an exception, an exception and its cause. -/
theorem handles_raiseVarargs (form : Nat) :
    Handles allowed (if form ≤ 2 then form else 0) (if form ≤ 2 then form else 0) 0 (raiseVarargs form) := by
  match form with
  | 0 => exact .pure _
  | 1 =>
      refine .bind handles_pop fun value => .look (handles_instance? value) fun found => ?_
      cases found with
      | some exception => exact .pure _
      | none => exact .raise rfl
  | 2 =>
      refine .bind handles_popTwo fun (value, origin) => .look (handles_instance? value) fun found => ?_
      cases found with
      | none => exact .raise rfl
      | some exception =>
          cases origin with
          | nothing => exact .look (.pure _) fun _ => handles_throwFresh exception _
          | _ =>
              refine .look (handles_instance? _) fun cause => ?_
              cases cause with
              | some cause => exact .look (.pure _) fun _ => handles_throwFresh exception _
              | none => exact .raise rfl
  | form + 3 => exact .raise rfl

theorem handles_reraise (kind value trace : Value) :
    Handles allowed 0 0 0 (do
      let (raised, heap) ← act (Act.ofExcept (Raised.ofValues kind value trace (← get).world.heap))
      modify (Active.setHeap heap)
      return Effect.propagate raised) :=
  handles_attempt (Raised.ofValues_errs kind value trace)
    (fun a _ built => .of_world rfl ⟨setHeap_extends _ a, Raised.ofValues_namespaces built⟩) (fun _ _ _ => rfl)
    fun _ _ => .same rfl

theorem conforms_endFinally : Conforms (Steady allowed) endFinally := by
  have popped : Conforms (Steady allowed) pop := handles_pop.toConforms
  refine .bind popped fun value => ?_
  cases value with
  | nothing => exact .pure _
  | signal interruption =>
      cases interruption with
      | returning => exact .bind popped fun _ => .pure _
      | breaking => exact .pure _
      | raising => exact .raise rfl
      | continuing target =>
          refine .bind popped fun payload => ?_
          split
          · split
            · exact .raise rfl
            · exact .pure _
          · exact .raise rfl
  | exceptionKind kind =>
      exact .bind popped fun value => .bind popped fun trace =>
        (handles_reraise (.exceptionKind kind) value trace).toConforms
  | _ => exact .raise rfl

end Exec

end BlockVM
