import BlockVM.Proofs.FatalExceptions

namespace BlockVM

/-! The events of a run tell its story: whoever replays them knows the call stack and the block stack of
every frame. The one exception is a `POP_EXCEPT` that fails, which takes a block off and does not say so. -/

/-- What the events tell about a frame. -/
structure Outline where
  code : String
  blocks : List BlockKind
deriving Repr, DecidableEq

def Frame.outline (frame : Frame) : Outline :=
  { code := frame.code.name, blocks := frame.blocks.map Block.kind }

/-- The call stack after an event, the running frame first. There is none if the event cannot have happened:
it carries another depth, takes off a block of another kind, or leaves a frame that still has blocks. -/
def Event.replay (frames : List Outline) (event : Event) : Option (List Outline) :=
  match event, frames with
  | .call code depth, frames => if depth = frames.length + 1 then some (⟨code, []⟩ :: frames) else none
  | .return depth, ⟨_, []⟩ :: callers => if depth = callers.length then some callers else none
  | .return _, _ => none
  | .blockPush kind depth, ⟨code, blocks⟩ :: callers =>
      if depth = blocks.length + 1 then some (⟨code, kind :: blocks⟩ :: callers) else none
  | .blockPush .., [] => none
  | .blockPop kind depth, ⟨code, top :: rest⟩ :: callers =>
      if kind = top ∧ depth = rest.length then some (⟨code, rest⟩ :: callers) else none
  | .blockPop .., _ => none
  | .instruction .., frames | .exception .., frames | .makeFunction _, frames => some frames

def replay (frames : List Outline) (events : List Event) : Option (List Outline) :=
  events.foldlM Event.replay frames

@[simp] theorem replay_nil (frames : List Outline) : replay frames [] = some frames := rfl

theorem replay_cons (frames : List Outline) (event : Event) (events : List Event) :
    replay frames (event :: events) = (event.replay frames).bind (replay · events) := rfl

theorem replay_append (frames : List Outline) (earlier later : List Event) :
    replay frames (earlier ++ later) = (replay frames earlier).bind (replay · later) :=
  List.foldlM_append

theorem replay_recorded (frames : List Outline) (events : List Event) :
    replay frames (events.map Event.recorded) = replay frames events := by
  induction events generalizing frames with
  | nil => rfl
  | cons event events ih =>
      have same : event.recorded.replay frames = event.replay frames := by cases event <;> rfl
      rw [List.map_cons, replay_cons, replay_cons, same]
      simp only [ih]

/-- The events that say nothing about frames and blocks. -/
def Event.Silent : Event → Prop
  | .instruction .. | .exception .. | .makeFunction _ => True
  | .call .. | .return _ | .blockPush .. | .blockPop .. => False

theorem Event.Silent.replay {event : Event} (silent : event.Silent) (frames : List Outline) :
    event.replay frames = some frames := by
  cases event <;> first | rfl | exact silent.elim

theorem replay_silent {events : List Event} (silent : ∀ event ∈ events, event.Silent) (frames : List Outline) :
    BlockVM.replay frames events = some frames := by
  induction events with
  | nil => rfl
  | cons event events ih =>
      obtain ⟨first, rest⟩ := List.forall_mem_cons.mp silent
      rw [replay_cons, first.replay, Option.bind_some, ih rest]

namespace Event

def isCall : Event → Bool
  | .call .. => true
  | _ => false

theorem length_replay {event : Event} {before after : List Outline} (replayed : event.replay before = some after) :
    before.length + event.isCall.toNat = after.length + event.isReturn.toNat := by
  unfold Event.replay at replayed
  split at replayed <;> first
    | (cases replayed; rfl)
    | (split at replayed <;> cases replayed; rfl)
    | cases replayed

end Event

/-- A replay makes as many frames as it has calls and takes away as many as it has returns. -/
theorem length_replay {events : List Event} {before after : List Outline}
    (replayed : replay before events = some after) :
    before.length + events.countP Event.isCall = after.length + events.countP Event.isReturn := by
  induction events generalizing before with
  | nil =>
      cases replayed
      rfl
  | cons event events ih =>
      rw [replay_cons] at replayed
      obtain ⟨middle, first, rest⟩ := Option.bind_eq_some_iff.mp replayed
      have one := Event.length_replay first
      have all := ih rest
      simp only [List.countP_cons]
      cases calls : event.isCall <;> cases returns : event.isReturn <;>
        simp only [calls, returns, Bool.toNat_true, Bool.toNat_false, if_true, if_false,
          Bool.false_eq_true] at one ⊢ <;>
        omega

section

variable {upper callers : List Outline} {code : String} {kind : BlockKind} {blocks : List BlockKind}

/-- An event of the frames above a frame does not look at its blocks, and one of its own carries their number. -/
theorem Event.replay_excess {event : Event} {after : List Outline}
    (replayed : event.replay (upper ++ ⟨code, blocks⟩ :: callers) = some after) :
    event.replay (upper ++ ⟨code, kind :: blocks⟩ :: callers) = none ∨
      ∃ left, after = left ++ ⟨code, blocks⟩ :: callers ∧
        event.replay (upper ++ ⟨code, kind :: blocks⟩ :: callers) =
          some (left ++ ⟨code, kind :: blocks⟩ :: callers) := by
  -- Where there are frames above, the event is theirs. Otherwise the number of blocks gives the excess away.
  cases event with
  | instruction | exception | makeFunction =>
      cases replayed
      exact .inr ⟨upper, rfl, rfl⟩
  | call name depth =>
      simp only [Event.replay, List.length_append, List.length_cons] at replayed ⊢
      split at replayed
      · cases replayed
        rename_i counted
        exact .inr ⟨⟨name, []⟩ :: upper, rfl, if_pos counted⟩
      · cases replayed
  | «return» depth =>
      cases upper with
      | nil => exact .inl rfl
      | cons top upper =>
          obtain ⟨name, standing⟩ := top
          cases standing with
          | nil =>
              simp only [Event.replay, List.cons_append, List.length_append, List.length_cons] at replayed ⊢
              split at replayed
              · cases replayed
                rename_i counted
                exact .inr ⟨upper, rfl, if_pos counted⟩
              · cases replayed
          | cons block rest => cases replayed
  | blockPush pushed depth =>
      cases upper with
      | nil =>
          simp only [Event.replay, List.nil_append] at replayed ⊢
          split at replayed
          · refine .inl (if_neg ?_)
            rw [List.length_cons]
            omega
          · cases replayed
      | cons top upper =>
          simp only [Event.replay, List.cons_append] at replayed ⊢
          split at replayed
          · cases replayed
            rename_i counted
            exact .inr ⟨⟨top.code, pushed :: top.blocks⟩ :: upper, rfl, if_pos counted⟩
          · cases replayed
  | blockPop popped depth =>
      cases upper with
      | nil =>
          cases blocks with
          | nil => cases replayed
          | cons block rest =>
              simp only [Event.replay, List.nil_append] at replayed ⊢
              split at replayed
              · refine .inl (if_neg ?_)
                rw [List.length_cons]
                omega
              · cases replayed
      | cons top upper =>
          obtain ⟨name, standing⟩ := top
          cases standing with
          | nil => cases replayed
          | cons block rest =>
              simp only [Event.replay, List.cons_append] at replayed ⊢
              split at replayed
              · cases replayed
                rename_i counted
                exact .inr ⟨⟨name, rest⟩ :: upper, rfl, if_pos counted⟩
              · cases replayed

/-- A replay to the end is sure of the number of blocks: with one more in some frame, the same events cannot
have happened. -/
theorem replay_excess {events : List Event}
    (replayed : replay (upper ++ ⟨code, blocks⟩ :: callers) events = some []) :
    replay (upper ++ ⟨code, kind :: blocks⟩ :: callers) events = none := by
  induction events generalizing upper with
  | nil => simp at replayed
  | cons event events ih =>
      rw [replay_cons] at replayed ⊢
      obtain ⟨middle, first, rest⟩ := Option.bind_eq_some_iff.mp replayed
      rcases Event.replay_excess first with refused | ⟨left, rfl, same⟩
      · rw [refused, Option.bind_none]
      · rw [same, Option.bind_some, ih rest]

end

namespace Active

/-- Nothing changes between the two but the running frame, and the events between them tell what becomes of
its blocks. -/
structure Reports (before after : Active) : Prop where
  depth : after.frame.depth = before.frame.depth
  events : ∃ added, after.world.events.toList = before.world.events.toList ++ added ∧
    ∀ callers, replay (before.frame.outline :: callers) added = some (after.frame.outline :: callers)

namespace Reports

variable {first second third : Active}

/-- The frame keeps its code and its blocks, and no event says otherwise. -/
theorem of_silent (frame : ∃ stack ip lastOffset, second.frame = { first.frame with stack, ip, lastOffset })
    (noted : ∃ added, second.world.events.toList = first.world.events.toList ++ added ∧
      ∀ event ∈ added, event.Silent) : Reports first second := by
  obtain ⟨stack, ip, lastOffset, same⟩ := frame
  obtain ⟨added, noted, silent⟩ := noted
  refine ⟨by rw [same], added, noted, fun callers => ?_⟩
  rw [same]
  exact replay_silent silent _

theorem of_world (frame : ∃ stack ip, second.frame = { first.frame with stack, ip })
    (same : second.world.events = first.world.events) : Reports first second := by
  obtain ⟨stack, ip, frame⟩ := frame
  exact .of_silent ⟨stack, ip, first.frame.lastOffset, frame⟩ ⟨[], by simp [same], by simp⟩

theorem of_steady (steady : first.Steady Event.Silent second) : Reports first second := by
  obtain ⟨stack, ip, frame⟩ := steady.frame
  exact .of_silent ⟨stack, ip, first.frame.lastOffset, frame⟩ steady.world.events

instance : IsPreorder Active Reports where
  refl _ := .of_world ⟨_, _, rfl⟩ rfl
  trans first second third earlier later := by
    obtain ⟨depth, added, noted, replayed⟩ := earlier
    obtain ⟨depthLater, addedLater, notedLater, replayedLater⟩ := later
    refine ⟨depthLater.trans depth, added ++ addedLater, ?_, fun callers => ?_⟩
    · rw [notedLater, noted, List.append_assoc]
    · rw [replay_append, replayed, Option.bind_some, replayedLater]

theorem refl (a : Active) : Reports a a :=
  refl_of Reports a

theorem trans (earlier : Reports first second) (later : Reports second third) : Reports first third :=
  trans_of Reports earlier later

/-- A block comes off the frame, and an event says so. -/
theorem popped {block : Block} {rest : List Block} {a off : Active} (standing : a.frame.blocks = block :: rest)
    (frame : ∃ stack, off.frame = { a.frame with stack, blocks := rest }) (same : off.world.events = a.world.events) :
    Reports a (off.emit (.blockPop block.kind rest.length)) := by
  obtain ⟨stack, frame⟩ := frame
  refine ⟨by rw [emit_frame, frame], [.blockPop block.kind rest.length], by simp [emit, World.emit, same],
    fun callers => ?_⟩
  simp [replay_cons, Event.replay, Frame.outline, standing, frame]

/-- A block is put on the frame, and an event says so. -/
theorem pushed (block : Block) {a : Active} (on : Active)
    (frame : ∃ stack ip, on.frame = { a.frame with stack, ip, blocks := block :: a.frame.blocks })
    (same : on.world.events = a.world.events) :
    Reports a (on.emit (.blockPush block.kind (a.frame.blocks.length + 1))) := by
  obtain ⟨stack, ip, frame⟩ := frame
  refine ⟨by rw [emit_frame, frame], [.blockPush block.kind (a.frame.blocks.length + 1)],
    by simp [emit, World.emit, same], fun callers => ?_⟩
  simp [replay_cons, Event.replay, Frame.outline, frame]

end Reports

theorem announce_reports (raised : Raised) (a : Active) : a.Reports (a.announce raised) :=
  .of_silent ⟨_, _, _, rfl⟩
    ⟨[.exception raised.kind a.frame.depth], by simp [announce, emit, World.emit], by simp [Event.Silent]⟩

theorem throw_reports (callers : List Frame) (exception : ExceptionObject) (a : Active) :
    a.Reports (a.throw callers exception).2 := by
  unfold throw
  split
  rename_i chosen after chose
  have chosen : a.Reports after := by
    split at chose
    · cases chose
      exact .refl a
    · split at chose <;> cases chose <;> exact .of_world ⟨_, _, rfl⟩ rfl
  exact chosen.trans (announce_reports _ after)

theorem raise_reports (callers : List Frame) (fault : Fault) (a : Active) :
    a.Reports (a.raise callers fault).2 := by
  have named : a.Reports (a.setHeap a.world.heap.fresh.2) := .of_world ⟨_, _, rfl⟩ rfl
  exact named.trans (throw_reports callers _ _)

theorem restore_reports (saved : Raised) (signal : Signal) (a : Active) : a.Reports (a.restore saved signal).2 := by
  unfold restore
  split
  · split <;> exact .of_world ⟨_, _, rfl⟩ rfl
  · exact .of_world ⟨_, _, rfl⟩ rfl

theorem enterHandler_reports (handler : Nat) (raised : Raised) (a : Active) :
    a.Reports (a.enterHandler handler raised) :=
  .pushed (.exceptHandler a.frame.stack.length)
    { a with
      frame :=
        { a.frame with
          blocks := .exceptHandler a.frame.stack.length :: a.frame.blocks
          stack := raised.toValues ++ (raised.toValues ++ a.frame.stack)
          ip := handler } }
    ⟨_, _, rfl⟩ rfl

theorem absorb_reports {block : Block} {signal : Signal} {a after : Active}
    (absorbed : a.absorb block signal = some (.ok after)) : a.Reports after := by
  unfold absorb at absorbed
  split at absorbed
  · cases absorbed
    exact .of_world ⟨_, _, rfl⟩ rfl
  · split at absorbed <;> cases absorbed
    exact enterHandler_reports _ _ a
  · split at absorbed <;> cases absorbed
    exact enterHandler_reports _ _ a
  · cases absorbed
    exact .of_world ⟨_, _, rfl⟩ rfl
  · cases absorbed
    exact .of_world ⟨_, _, rfl⟩ rfl
  · unfold enterContinue at absorbed
    split at absorbed <;> cases absorbed
    exact .of_world ⟨_, _, rfl⟩ rfl
  · cases absorbed

theorem release_noted (block : Block) (a : Active) :
    (∃ stack, (a.release block).2.frame = { a.frame with stack }) ∧
      (a.release block).2.world.events = a.world.events := by
  by_cases intact : block.Intact a.frame.stack
  · obtain ⟨restored, heap, released⟩ := release_intact intact
    rw [released]
    exact ⟨⟨_, rfl⟩, rfl⟩
  · obtain ⟨fault, stack, released, _⟩ := release_damaged intact
    rw [released]
    exact ⟨⟨stack, rfl⟩, rfl⟩

theorem meet_reports {block : Block} {rest : List Block} {a : Active} (standing : a.frame.blocks = block :: rest)
    (callers : List Frame) (signal : Signal) : a.Reports (a.meet callers block rest signal).active := by
  cases stays : block.stays signal with
  | true =>
      have meets := a.meet_meets callers block rest signal
      generalize a.meet callers block rest signal = met at meets
      cases meets with
      | @stayed target => exact .of_world ⟨a.frame.stack, target, by rw [← standing]; rfl⟩ rfl
      | damaged leaves | tooFar leaves | absorbed leaves => rw [stays] at leaves; cases leaves
      | passed _ _ passes => rw [Block.absorbs_of_stays stays] at passes; cases passes
  | false =>
      let taken : Active := { a with frame := { a.frame with blocks := rest } }
      rcases run : taken.release block with ⟨outcome, off⟩
      obtain ⟨frame, same⟩ := release_noted block taken
      rw [run] at frame same
      have popped : a.Reports (off.emit (.blockPop block.kind rest.length)) := .popped standing frame same
      exact popped.trans (meet_relates absorb_reports (raise_reports callers) stays run
        fun saved left => restore_reports saved signal left)

end Active

/-- With a block to take off, `POP_EXCEPT` says that it does so or fails fatally. -/
theorem execute_popExcept_reports (operand : Operand Value) {a : Active} {block : Block} {rest : List Block}
    (standing : a.frame.blocks = block :: rest) :
    (∃ after, execute .popExcept operand a = .ok .next after ∧ a.Reports after) ∨
      ∃ fault off, execute .popExcept operand a = .error (.raised fault) off ∧ fault.kind.isFatal = true ∧
        (∃ stack, off.frame = { a.frame with stack, blocks := rest }) ∧ off.world.events = a.world.events := by
  cases block with
  | exceptHandler depth =>
      let taken : Active := { a with frame := { a.frame with blocks := rest } }
      by_cases intact : (Block.exceptHandler depth).Intact taken.frame.stack
      · obtain ⟨restored, heap, released⟩ := Active.release_intact intact
        have popped : a.Reports (((taken.cut depth).setHeap heap).emit (.blockPop .exceptHandler rest.length)) :=
          .popped standing ⟨_, rfl⟩ rfl
        exact .inl ⟨_, execute_popExcept_restored operand standing released,
          popped.trans (.of_world ⟨_, _, rfl⟩ rfl)⟩
      · obtain ⟨fault, stack, released, kind⟩ := Active.release_damaged intact
        refine .inr ⟨fault, _, execute_popExcept_damaged operand standing released, ?_, ⟨stack, rfl⟩, rfl⟩
        rcases kind with kind | ⟨_, kind⟩ <;> rw [kind] <;> rfl
  | loop exit depth | setupExcept handler depth | «finally» handler depth =>
      exact .inr ⟨_, _, execute_popExcept_plain operand standing (by simp [Block.kind]), rfl, ⟨_, rfl⟩, rfl⟩

/-- The instruction takes a block off and fails before it can say so. -/
def Active.PopExceptFails (opcode : Opcode) (operand : Operand Value) (a : Active) : Prop :=
  opcode = .popExcept ∧ a.frame.blocks ≠ [] ∧ ∃ failure after, execute opcode operand a = .error failure after

open Exec in
theorem execute_reports {opcode : Opcode} {operand : Operand Value} {a : Active}
    (fits : operand.Fits opcode.operandClass) (tidy : ¬ a.PopExceptFails opcode operand) :
    LeavesUncalled a.Reports (execute opcode operand a) := by
  cases guarded : opcode.changesBlocks with
  | false =>
      by_cases calls : opcode = .callFunction
      · subst calls
        cases fits with
        | int count => exact (callFunction_uncalled Event.Silent count a).mono fun _ => .of_steady
      · have kept : Keeps (Active.Steady Event.Silent) (execute opcode operand) :=
          (execute_conforms fits guarded (fun _ _ => trivial) fun called => absurd called calls).keeps
        exact .of_leaves ((kept a).mono fun _ => .of_steady)
  | true =>
      cases opcode with
      | popBlock =>
          cases standing : a.frame.blocks with
          | nil =>
              rw [execute_pops_nothing operand rfl standing]
              exact .refl a
          | cons block rest =>
              rw [execute_popBlock operand standing]
              exact .popped standing ⟨_, rfl⟩ rfl
      | popExcept =>
          cases standing : a.frame.blocks with
          | nil =>
              rw [execute_pops_nothing operand rfl standing]
              exact .refl a
          | cons block rest =>
              rcases execute_popExcept_reports operand standing with ⟨after, run, popped⟩ | ⟨fault, off, run, _⟩
              · rw [run]
                exact popped
              · exact absurd ⟨rfl, by simp [standing], _, off, run⟩ tidy
      | setupLoop | setupExcept | setupFinally =>
          cases fits with
          | relative target =>
              rw [execute_pushBlock rfl]
              exact .pushed _ _ ⟨_, _, rfl⟩ rfl
      | _ => cases guarded

end BlockVM
