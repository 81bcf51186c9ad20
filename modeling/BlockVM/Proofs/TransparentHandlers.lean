import BlockVM.Proofs.Tracebacks

namespace BlockVM

/-! A handler that does nothing but take the signal up again might as well not be there: the signal goes on
as it came, through the blocks below and in a frame that no block can tell from the one it would have met. -/

/-- The two differ at most in the place of the next instruction, in what was counted and in what was noted. -/
structure Active.Alike (a b : Active) : Prop where
  frame : ∃ ip lastOffset, b.frame = { a.frame with ip, lastOffset }
  heap : b.world.heap = a.world.heap
  sink : b.world.sink = a.world.sink
  recovered : b.recovered = a.recovered

/-- The same has become of a signal. A frame that goes on does so at the same place. -/
inductive Encounter.Alike : Encounter → Encounter → Prop where
  | absorbed {a b : Active} (alike : a.Alike b) (place : b.frame.ip = a.frame.ip) :
      Alike (.absorbed a) (.absorbed b)
  | passed (signal : Signal) {a b : Active} (alike : a.Alike b) : Alike (.passed signal a) (.passed signal b)

theorem handled?_congr {heap : Heap} {frame other : Frame} (callers : List Frame)
    (blocks : other.blocks = frame.blocks) (stack : other.stack = frame.stack) :
    handled? heap (other :: callers) = handled? heap (frame :: callers) := by
  simp only [handled?, Frame.handlerDepth?, blocks]
  split
  · rfl
  · rename_i depth _
    rcases Nat.lt_or_ge frame.stack.length (depth + 3) with short | enough
    · rw [Frame.trim?_of_lt short, Frame.trim?_of_lt (stack ▸ short)]
    · simp only [Frame.trim?_of_le enough, Frame.trim?_of_le (stack ▸ enough : depth + 3 ≤ other.stack.length), stack]

namespace Active.Alike

variable {a b : Active}

theorem blocks (alike : a.Alike b) : b.frame.blocks = a.frame.blocks := by
  obtain ⟨_, _, same⟩ := alike.frame
  rw [same]

theorem stack (alike : a.Alike b) : b.frame.stack = a.frame.stack := by
  obtain ⟨_, _, same⟩ := alike.frame
  rw [same]

theorem reframe (alike : a.Alike b) {first second : Frame}
    (frame : ∀ ip lastOffset, b.frame = { a.frame with ip, lastOffset } →
      ∃ place last, second = { first with ip := place, lastOffset := last }) :
    { a with frame := first }.Alike { b with frame := second } := by
  obtain ⟨ip, lastOffset, same⟩ := alike.frame
  exact ⟨frame ip lastOffset same, alike.heap, alike.sink, alike.recovered⟩

theorem emit (alike : a.Alike b) (first second : Event) : (a.emit first).Alike (b.emit second) :=
  ⟨alike.frame, alike.heap, alike.sink, alike.recovered⟩

theorem setHeap (alike : a.Alike b) (heap : Heap) : (a.setHeap heap).Alike (b.setHeap heap) :=
  ⟨alike.frame, rfl, alike.sink, alike.recovered⟩

theorem announce (alike : a.Alike b) (raised : Raised) : (a.announce raised).Alike (b.announce raised) :=
  ⟨alike.frame, alike.heap, alike.sink, rfl⟩

theorem cut (alike : a.Alike b) (depth : Nat) : (a.cut depth).Alike (b.cut depth) :=
  alike.reframe fun ip lastOffset same => ⟨ip, lastOffset, by rw [same]⟩

theorem withContext (alike : a.Alike b) (context exception : ExceptionObject) :
    (Active.withContext context exception b).1 = (Active.withContext context exception a).1 ∧
      (Active.withContext context exception a).2.Alike (Active.withContext context exception b).2 := by
  unfold Active.withContext
  rw [alike.heap]
  exact ⟨rfl, alike.setHeap _⟩

theorem throw (alike : a.Alike b) (callers : List Frame) (exception : ExceptionObject) :
    (b.throw callers exception).1 = (a.throw callers exception).1 ∧
      (a.throw callers exception).2.Alike (b.throw callers exception).2 := by
  unfold Active.throw
  rw [alike.heap, handled?_congr callers alike.blocks alike.stack]
  cases handled? a.world.heap (a.frame :: callers) with
  | none => exact ⟨rfl, alike.announce _⟩
  | some found =>
      obtain ⟨handled, heap⟩ := found
      by_cases own : handled.exception.id = exception.id
      · simp only [if_pos own]
        exact ⟨trivial, (alike.setHeap heap).announce _⟩
      · obtain ⟨chained, further⟩ := (alike.setHeap heap).withContext handled.exception exception
        simp only [if_neg own, chained]
        exact ⟨trivial, further.announce _⟩

theorem raise (alike : a.Alike b) (callers : List Frame) (fault : Fault) :
    (b.raise callers fault).1 = (a.raise callers fault).1 ∧
      (a.raise callers fault).2.Alike (b.raise callers fault).2 := by
  unfold Active.raise
  rw [alike.heap]
  exact (alike.setHeap _).throw callers _

theorem supplant (alike : a.Alike b) (callers : List Frame) (fault : Fault) :
    (a.supplant callers fault).Alike (b.supplant callers fault) := by
  obtain ⟨same, further⟩ := alike.raise callers fault
  rw [supplant_eq, supplant_eq, same]
  exact .passed _ further

theorem release (alike : a.Alike b) (block : Block) :
    (b.release block).1 = (a.release block).1 ∧ (a.release block).2.Alike (b.release block).2 := by
  cases block with
  | exceptHandler depth =>
      rcases Nat.lt_or_ge a.frame.stack.length (depth + 3) with short | enough
      · simp only [Active.release, Frame.trim?_of_lt short,
          Frame.trim?_of_lt (alike.stack ▸ short : b.frame.stack.length < depth + 3)]
        exact ⟨trivial, alike⟩
      · obtain ⟨kind, value, trace, slots⟩ := rtake_handler enough
        rw [release_handler enough slots,
          release_handler (alike.stack ▸ enough) (by rw [alike.stack]; exact slots), alike.heap]
        split
        · exact ⟨rfl, (alike.cut depth).setHeap _⟩
        · exact ⟨rfl, alike.cut depth⟩
  | loop exit depth | setupExcept handler depth | «finally» handler depth =>
      rw [release_plain (by simp [Block.kind]), release_plain (by simp [Block.kind]), alike.stack]
      split
      · exact ⟨rfl, alike.cut _⟩
      · exact ⟨rfl, alike⟩

theorem restore (alike : a.Alike b) (saved : Raised) (signal : Signal) :
    (b.restore saved signal).1 = (a.restore saved signal).1 ∧
      (a.restore saved signal).2.Alike (b.restore saved signal).2 := by
  cases signal with
  | «return» value | «break» | «continue» target => exact ⟨rfl, alike.frame, alike.heap, alike.sink, rfl⟩
  | «raise» raised =>
      unfold Active.restore
      dsimp only
      split
      · obtain ⟨chained, further⟩ := alike.withContext saved.exception raised.exception
        simp only [chained]
        exact ⟨trivial, further⟩
      · exact ⟨rfl, alike⟩

/-- A block that is off deals with a signal in the same way. -/
theorem offer (alike : a.Alike b) (callers : List Frame) (block : Block) (signal : Signal) :
    Encounter.Alike
      (match a.absorb block signal with
        | some (.ok after) => .absorbed after
        | some (.error fault) => a.supplant callers fault
        | none => .passed signal a)
      (match b.absorb block signal with
        | some (.ok after) => .absorbed after
        | some (.error fault) => b.supplant callers fault
        | none => .passed signal b) := by
  have passed : (Encounter.passed signal a).Alike (.passed signal b) := .passed signal alike
  have handled (handler : Nat) (raised : Raised) :
      (Encounter.absorbed (a.enterHandler handler raised)).Alike (.absorbed (b.enterHandler handler raised)) := by
    refine .absorbed (.emit (alike.reframe fun ip lastOffset same => ⟨handler, lastOffset, ?_⟩) _ _) rfl
    rw [same]
  have entered (handler : Nat) (values : List Value) :
      (Encounter.absorbed (a.enterFinally handler values)).Alike (.absorbed (b.enterFinally handler values)) :=
    .absorbed (alike.reframe fun ip lastOffset same => ⟨handler, lastOffset, by rw [same]⟩) rfl
  cases block with
  | exceptHandler depth => cases signal <;> exact passed
  | loop exit depth =>
      cases signal with
      | «break» =>
          exact .absorbed (alike.reframe fun ip lastOffset same => ⟨exit, lastOffset, by rw [same]; rfl⟩) rfl
      | «return» value | «continue» target | «raise» raised => exact passed
  | setupExcept handler depth =>
      cases signal with
      | «return» value | «break» | «continue» target => exact passed
      | «raise» raised =>
          simp only [absorb]
          cases raised.kind.isFatal
          · exact handled handler raised
          · exact passed
  | «finally» handler depth =>
      cases signal with
      | «return» value | «break» => exact entered handler _
      | «continue» target =>
          simp only [absorb, enterContinue]
          by_cases fits : target ≤ Word.greatest
          · simp only [if_pos fits]
            exact entered handler _
          · simp only [if_neg fits]
            exact alike.supplant callers _
      | «raise» raised =>
          simp only [absorb]
          cases raised.kind.isFatal
          · exact handled handler raised
          · exact passed

theorem meet (alike : a.Alike b) (callers : List Frame) (block : Block) (rest : List Block) (signal : Signal) :
    (a.meet callers block rest signal).Alike (b.meet callers block rest signal) := by
  cases stays : block.stays signal with
  | true =>
      cases block with
      | loop exit depth =>
          cases signal with
          | «continue» target =>
              exact .absorbed (alike.reframe fun ip lastOffset same => ⟨target, lastOffset, by rw [same]⟩) rfl
          | «return» value | «break» | «raise» raised => cases stays
      | setupExcept handler depth | «finally» handler depth | exceptHandler depth => cases stays
  | false =>
      rw [meet_of_leaves callers rest a stays, meet_of_leaves callers rest b stays]
      have taken : { a with frame := { a.frame with blocks := rest } }.Alike
          { b with frame := { b.frame with blocks := rest } } :=
        alike.reframe fun ip lastOffset same => ⟨ip, lastOffset, by rw [same]⟩
      obtain ⟨same, off⟩ := taken.release block
      generalize Active.release block { a with frame := { a.frame with blocks := rest } } = first at same off
      generalize Active.release block { b with frame := { b.frame with blocks := rest } } = second at same off
      obtain ⟨_, a⟩ := first
      obtain ⟨released, b⟩ := second
      subst same
      have noted := off.emit (.blockPop block.kind rest.length) (.blockPop block.kind rest.length)
      cases released with
      | error fault => exact noted.supplant callers fault
      | ok restored =>
          cases restored with
          | none => exact noted.offer callers block signal
          | some saved =>
              obtain ⟨same, further⟩ := noted.restore saved signal
              dsimp only
              rw [same]
              exact further.offer callers block _

theorem drain (alike : a.Alike b) (callers : List Frame) (blocks : List Block) (signal : Signal) :
    (a.drain callers blocks signal).Alike (b.drain callers blocks signal) := by
  induction blocks generalizing a b signal with
  | nil => exact .passed signal alike
  | cons block rest ih =>
      have met := alike.meet callers block rest signal
      unfold Active.drain
      generalize a.meet callers block rest signal = first at met
      generalize b.meet callers block rest signal = second at met
      cases met with
      | absorbed alike place => exact .absorbed alike place
      | passed onward alike => exact ih alike onward

end Active.Alike

/-- A `finally` block can note the signal, and beside an exception none waits for a bare `raise`. -/
structure Passage.Regular (passage : Passage) : Prop where
  encodable : passage.signal.Encodable
  waiting : ∀ raised, passage.signal = .raise raised → passage.active.recovered = none

namespace Active

theorem throw_recovered (callers : List Frame) (exception : ExceptionObject) (a : Active) :
    (a.throw callers exception).2.recovered = none := by
  unfold throw
  split
  rfl

theorem raise_recovered (callers : List Frame) (fault : Fault) (a : Active) :
    (a.raise callers fault).2.recovered = none :=
  throw_recovered callers _ _

theorem release_recovered (block : Block) (a : Active) : (a.release block).2.recovered = a.recovered := by
  by_cases intact : block.Intact a.frame.stack
  · obtain ⟨restored, heap, released⟩ := release_intact intact
    rw [released]
    rfl
  · obtain ⟨fault, stack, released, -⟩ := release_damaged intact
    rw [released]

theorem restore_recovered (saved : Raised) {raised : Raised} {signal : Signal} {a : Active}
    (waiting : ∀ former, signal = .raise former → a.recovered = none)
    (raises : (a.restore saved signal).1 = .raise raised) : (a.restore saved signal).2.recovered = none := by
  cases signal with
  | «return» value | «break» | «continue» target => cases raises
  | «raise» former =>
      have none := waiting former rfl
      unfold restore
      dsimp only
      split <;> exact none

theorem meet_recovered {callers : List Frame} {block : Block} {rest : List Block} {signal : Signal} {raised : Raised}
    {a after : Active} (met : a.meet callers block rest signal = .passed (.raise raised) after)
    (waiting : ∀ former, signal = .raise former → a.recovered = none) : after.recovered = none := by
  have supplanted {left : Active} {fault : Fault} (put : left.supplant callers fault = .passed (.raise raised) after) :
      after.recovered = none := by
    obtain ⟨-, rfl⟩ := Encounter.passed.inj (supplant_eq.symm.trans put)
    exact raise_recovered callers fault left
  have offered {left : Active} {onward : Signal} (kept : onward = .raise raised → left.recovered = none)
      (met : (match left.absorb block onward with
        | some (.ok after) => Encounter.absorbed after
        | some (.error fault) => left.supplant callers fault
        | none => .passed onward left) = .passed (.raise raised) after) : after.recovered = none := by
    split at met
    · cases met
    · exact supplanted met
    · cases met
      exact kept rfl
  cases stays : block.stays signal with
  | true =>
      have meets := a.meet_meets callers block rest signal
      rw [met] at meets
      cases meets with
      | damaged leaves | tooFar leaves => rw [stays] at leaves; cases leaves
      | passed _ _ passes => rw [Block.absorbs_of_stays stays] at passes; cases passes
  | false =>
      rw [meet_of_leaves callers rest a stays] at met
      have kept := release_recovered block { a with frame := { a.frame with blocks := rest } }
      rcases run : { a with frame := { a.frame with blocks := rest } }.release block with ⟨fault | restored, off⟩
      all_goals rw [run] at met kept
      · exact supplanted met
      · have noted (former : Raised) (same : signal = .raise former) :
            (off.emit (.blockPop block.kind rest.length)).recovered = none := kept.trans (waiting former same)
        cases restored with
        | none => exact offered (noted raised) met
        | some saved => exact offered (restore_recovered saved noted) met

end Active

namespace Phase

def Regular : Phase → Prop
  | .passing passage => passage.Regular
  | .resting _ => True

theorem Raises.regular {before after : Phase} {fault : Fault} (raises : Raises before fault after) :
    after.Regular := by
  cases raises <;> exact ⟨trivial, fun _ _ => Active.raise_recovered _ _ _⟩

theorem follow_waiting {opcode : Opcode} {operand : Operand Value} {a after : Active} {effect : Effect}
    {callers : List Frame} {passage : Passage} {raised : Raised} (arises : effect.Arises opcode operand a after)
    (followed : Machine.follow callers effect after = .passing passage) (raises : passage.signal = .raise raised) :
    passage.active.recovered = none := by
  cases effect with
  | next | call callee => cases followed
  | interrupt signal =>
      obtain rfl := Phase.passing.inj followed
      subst raises
      cases arises
  | propagate taken =>
      obtain rfl := Phase.passing.inj followed
      rfl
  | throw exception =>
      obtain rfl := Phase.passing.inj followed
      exact after.throw_recovered callers exception
  | rethrow =>
      unfold Machine.follow at followed
      dsimp only at followed
      split at followed
      · obtain rfl := Phase.passing.inj followed
        rfl
      · split at followed
        · obtain rfl := Phase.passing.inj followed
          rfl
        · obtain rfl := Phase.passing.inj followed
          exact after.raise_recovered callers _

theorem dispatch_regular (machine : Machine) : machine.dispatch.Regular := by
  cases dispatched : machine.dispatch with
  | resting status => trivial
  | passing passage =>
      have ends (world : World) : machine.dispatch ≠ .resting (.unending world) := by rw [dispatched]; nofun
      have encodable := (Step.dispatch machine ends).encodable trivial
      have proceeds := dispatch_proceeds ends
      rw [dispatched] at encodable proceeds
      rcases proceeds with proceeds | ⟨fault, faulted⟩
      · refine ⟨encodable, fun raised raises => ?_⟩
        generalize reached : Phase.passing passage = after at proceeds
        cases proceeds with
        | followed fetched run => exact follow_waiting (execute_arises run) reached.symm raises
        | observed => cases reached
      · exact faulted.regular

end Phase

namespace Passage

theorem leave_regular (passage : Passage) : passage.leave.Regular := by
  obtain ⟨signal, a, callers⟩ := passage
  cases signal with
  | «break» | «continue» target => exact ⟨trivial, fun _ _ => Active.raise_recovered _ _ _⟩
  | «return» value => cases callers <;> trivial
  | «raise» raised =>
      cases callers with
      | nil => trivial
      | cons caller rest => exact ⟨trivial, fun _ _ => rfl⟩

theorem step_regular {passage : Passage} (regular : passage.Regular) : passage.step.Regular := by
  have encodable := step_encodable regular.encodable
  have advances := passage.step_advances
  generalize passage.step = next at advances encodable
  cases advances with
  | absorbed top met => trivial
  | passed top met =>
      refine ⟨encodable, ?_⟩
      rintro raised rfl
      exact Active.meet_recovered met regular.waiting
  | left empty left => exact left ▸ passage.leave_regular

end Passage

namespace Phase

theorem Step.regular {before after : Phase} (stepped : Step before after) (regular : before.Regular) :
    after.Regular := by
  cases stepped with
  | dispatch machine _ => exact dispatch_regular machine
  | signal passage => exact Passage.step_regular regular
  | host change machine => trivial

theorem Reaches.regular {status : Status} {phase : Phase} (reached : Reaches (.resting status) phase) :
    phase.Regular :=
  reached.preserves (fun _ _ => Step.regular) trivial

end Phase

theorem rtake_append (above kept : List Value) : (above ++ kept).rtake kept.length = kept := by
  simp [List.rtake]

theorem Raised.ofValues_toValues (raised : Raised) (heap : Heap) :
    ofValues (.exceptionKind raised.kind) (.exception raised.exception) raised.traceValue heap =
      .ok (raised, heap) := by
  obtain ⟨exception, trace⟩ := raised
  cases trace <;> rfl

@[simp] theorem Raised.length_toValues (raised : Raised) : raised.toValues.length = 3 := rfl

/-- The block of a handler gives back the exception that was saved under whatever the handler left. -/
theorem Active.release_saved {a : Active} {raised : Raised} {above base : List Value}
    (stack : a.frame.stack = above ++ (raised.toValues ++ base)) :
    a.release (.exceptHandler base.length) =
      (.ok (some raised), { a with frame := { a.frame with stack := base } }) := by
  have enough : base.length + 3 ≤ a.frame.stack.length := by
    simp only [stack, List.length_append, Raised.length_toValues]
    omega
  have kept : a.frame.stack.rtake base.length = base := by
    rw [stack, ← List.append_assoc, rtake_append]
  have saved : a.frame.stack.rtake (base.length + 3) = .exceptionKind raised.kind :: .exception raised.exception ::
      raised.traceValue :: a.frame.stack.rtake base.length := by
    rw [kept, stack]
    exact rtake_append above (raised.toValues ++ base)
  rw [release_handler enough saved, Raised.ofValues_toValues, cut, kept]
  rfl

namespace Signal

/-- What the end of a `finally` body takes off the data stack to take the signal up again. -/
def noted : Signal → List Value
  | .return value => [.signal .returning, value]
  | .break => [.signal .breaking]
  | .continue target => [.signal (.continuing target), .int (Int64.ofNat target)]
  | .raise raised => raised.toValues

/-- What a handler is entered with below that: an exception is saved once more. -/
def saved : Signal → List Value
  | .raise raised => raised.toValues
  | _ => []

/-- How it is taken up. -/
def resumption : Signal → Effect
  | .raise raised => .propagate raised
  | other => .interrupt other

/-- The block that guards the saved exception. -/
def opened (depth : Nat) : Signal → List Block
  | .raise _ => [.exceptHandler depth]
  | _ => []

end Signal

theorem Exec.endFinally_noted {a : Active} {signal : Signal} {base : List Value} (encodable : signal.Encodable)
    (stack : a.frame.stack = signal.noted ++ base) :
    endFinally a = .ok signal.resumption { a with frame := { a.frame with stack := base } } := by
  obtain ⟨world, ⟨code, globals, locals, _, blocks, ip, last, level⟩, recovered⟩ := a
  cases signal with
  | «return» value | «break» => cases stack; rfl
  | «continue» target =>
      have same : (Int64.ofNat target).toInt = target := by
        have fits : target ≤ Word.greatest := encodable
        unfold Word.greatest at fits
        exact Int64.toInt_ofNat_of_lt (by omega)
      have positive : ¬ Int64.ofNat target < 0 := by
        rw [Int64.lt_iff_toInt_lt, same]
        simp
      cases stack
      change (if Int64.ofNat target < 0 then raise .badContinueTarget
        else pure (.interrupt (.continue (Int64.ofNat target).toInt.toNat)) : Exec Effect) _ = _
      rw [if_neg positive, same]
      rfl
  | «raise» raised =>
      obtain ⟨exception, trace⟩ := raised
      cases stack
      cases trace <;> rfl

/-- A block with a handler, from the given depth on. -/
def Block.Guards (block : Block) (handler depth : Nat) : Prop :=
  block = .finally handler depth ∨ block = .setupExcept handler depth

theorem Block.Guards.leaves {block : Block} {handler depth : Nat} (guards : block.Guards handler depth)
    (signal : Signal) : block.stays signal = false := by
  rcases guards with rfl | rfl <;> cases signal <;> rfl

theorem Block.Guards.depth_eq {block : Block} {handler depth : Nat} (guards : block.Guards handler depth) :
    block.depth = depth := by
  rcases guards with rfl | rfl <;> rfl

/-- The frame in which the handler of a block takes a signal up. -/
def Frame.entered (handler depth : Nat) (rest : List Block) (signal : Signal) (frame : Frame) : Frame :=
  { frame with
    blocks := signal.opened depth ++ rest
    stack := signal.noted ++ (signal.saved ++ frame.stack.rtake depth)
    ip := handler }

theorem Frame.resume_guards {block : Block} {handler depth : Nat} {signal : Signal} (rest : List Block)
    (frame : Frame) (guards : block.Guards handler depth) (absorbs : block.absorbs signal = true) :
    frame.resume [] block rest signal = frame.entered handler depth rest signal := by
  rcases guards with rfl | rfl
  · cases signal <;> rfl
  · cases signal with
    | «raise» raised => rfl
    | «return» value | «break» | «continue» target => cases absorbs

namespace Machine

theorem fetch_admitted {a : Active} {instruction : Instruction Value}
    (admits : a.world.tracker.count.refusal? = none)
    (decoded : a.frame.code.decodeAt a.frame.ip = .ok instruction) :
    ∃ ready events, fetch a = (.ok instruction, ready) ∧ ready =
      { a with
        world := { a.world with tracker := a.world.tracker.count, events }
        frame := { a.frame with ip := instruction.next, lastOffset := a.frame.ip } } := by
  obtain ⟨⟨heap, sink, tracker, events⟩, frame, recovered⟩ := a
  simp only [fetch, admits, decoded, (Code.decodeAt_next decoded).1]
  exact ⟨_, _, rfl, rfl⟩

/-- The end of a `finally` body raises again what it finds noted. -/
theorem dispatch_noted {a : Active} {instruction : Instruction Value} {signal : Signal} {base : List Value}
    (callers : List Frame) (encodable : signal.Encodable)
    (waiting : ∀ raised, signal = .raise raised → a.recovered = none)
    (admits : a.world.tracker.count.refusal? = none)
    (decoded : a.frame.code.decodeAt a.frame.ip = .ok instruction) (ends : instruction.opcode = .endFinally)
    (stack : a.frame.stack = signal.noted ++ base) :
    ∃ after events, dispatch ⟨a, callers⟩ = .passing ⟨signal, after, callers⟩ ∧ after =
      { a with
        world := { a.world with tracker := a.world.tracker.count, events }
        frame := { a.frame with stack := base, ip := instruction.next, lastOffset := a.frame.ip } } := by
  obtain ⟨ready, events, fetched, same⟩ := fetch_admitted admits decoded
  have run : execute instruction.opcode instruction.operand ready =
      .ok signal.resumption { ready with frame := { ready.frame with stack := base } } := by
    rw [ends]
    exact Exec.endFinally_noted encodable (by rw [same]; exact stack)
  rw [dispatch_followed callers fetched run, same]
  cases signal with
  | «return» value | «break» | «continue» target => exact ⟨_, _, rfl, rfl⟩
  | «raise» raised =>
      simp only [Signal.resumption, follow, Active.announce, waiting raised rfl]
      exact ⟨_, _, rfl, rfl⟩

end Machine

/-- The block of a handler lets the exception that it saved pass as it is. -/
theorem Passage.step_saved {a : Active} {raised : Raised} {rest : List Block} {base : List Value}
    (callers : List Frame) (standing : a.frame.blocks = .exceptHandler base.length :: rest)
    (stack : a.frame.stack = raised.toValues ++ base) :
    ∃ events, step ⟨.raise raised, a, callers⟩ = .passing ⟨.raise raised,
      { a with world := { a.world with events }, frame := { a.frame with blocks := rest, stack := base } },
      callers⟩ := by
  have released : { a with frame := { a.frame with blocks := rest } }.release (.exceptHandler base.length) =
      (.ok (some raised), { a with frame := { a.frame with blocks := rest, stack := base } }) :=
    Active.release_saved (stack.trans (List.nil_append _).symm)
  have met := Active.meet_of_leaves callers rest a
    (show (Block.exceptHandler base.length).stays (.raise raised) = false from rfl)
  rw [released] at met
  have own : ¬ (raised.exception.context.isNone ∧ raised.exception.id ≠ raised.exception.id) := fun chained =>
    chained.2 rfl
  simp only [Active.restore, if_neg own, Active.absorb] at met
  simp only [step, standing, met]
  exact ⟨_, rfl⟩

/-- From `machine` the signal comes to be under way again as it was, and leaves the frame as it is in `cleared`
once the block that guards a saved exception is off. -/
inductive Passage.Resurfaces (passage : Passage) (depth : Nat) (rest : List Block) (machine : Machine)
    (cleared : Active) : Prop where
  | noted (other : ∀ raised, passage.signal ≠ .raise raised)
      (again : machine.dispatch = .passing ⟨passage.signal, cleared, passage.callers⟩) :
      Resurfaces passage depth rest machine cleared
  | saved {raised : Raised} {middle : Active} (raises : passage.signal = .raise raised)
      (again : machine.dispatch = .passing ⟨passage.signal, middle, passage.callers⟩)
      (standing : middle.frame.blocks = .exceptHandler depth :: rest)
      (off : step ⟨passage.signal, middle, passage.callers⟩ = .passing ⟨passage.signal, cleared, passage.callers⟩) :
      Resurfaces passage depth rest machine cleared

theorem Passage.resurfaces {passage : Passage} {resumed : Active} {rest : List Block} {handler depth : Nat}
    {instruction : Instruction Value} (regular : passage.Regular)
    (enough : depth ≤ passage.active.frame.stack.length)
    (decoded : passage.active.frame.code.decodeAt handler = .ok instruction)
    (ends : instruction.opcode = .endFinally)
    (entered : resumed.frame = passage.active.frame.entered handler depth rest passage.signal)
    (recovered : resumed.recovered = passage.active.recovered)
    (admits : resumed.world.tracker.count.refusal? = none) :
    ∃ cleared, passage.Resurfaces depth rest ⟨resumed, passage.callers⟩ cleared ∧
      cleared.frame =
        { passage.active.frame with
          blocks := rest, stack := passage.active.frame.stack.rtake depth, ip := instruction.next
          lastOffset := handler } ∧
      cleared.world.heap = resumed.world.heap ∧ cleared.world.sink = resumed.world.sink ∧
      cleared.recovered = passage.active.recovered := by
  obtain ⟨signal, a, callers⟩ := passage
  obtain ⟨middle, events, again, same⟩ := Machine.dispatch_noted callers regular.encodable
    (fun raised raises => recovered.trans (regular.waiting raised raises)) admits
    (by rw [entered]; exact decoded) ends (show resumed.frame.stack = _ by rw [entered]; rfl)
  rw [entered] at same
  cases signal with
  | «return» value | «break» | «continue» target =>
      refine ⟨middle, .noted nofun again, ?_, ?_, ?_, ?_⟩ <;> rw [same]
      · rfl
      · exact recovered
  | «raise» raised =>
      have standing : middle.frame.blocks = .exceptHandler (a.frame.stack.rtake depth).length :: rest := by
        rw [same, length_rtake enough]
        rfl
      obtain ⟨later, off⟩ := step_saved callers standing
        (show middle.frame.stack = raised.toValues ++ _ by rw [same]; rfl)
      refine ⟨_, .saved rfl again (length_rtake enough ▸ standing) off, ?_, ?_, ?_, ?_⟩ <;> dsimp only <;> rw [same]
      · rfl
      · exact recovered

/-- A handler that only takes the signal up again is transparent. The signals of a run are regular, and whatever
regular signal a guard absorbs, its handler raises it again as it came, be it a value, a target or an exception with
its traceback, context and cause. The blocks and the data stack are then those below the guard, and draining the
signal goes on as it would have without it. -/
theorem bare_handler_transparent (code : Code Value) (environment : Environment) (arguments : List Value)
    (world : World) :
    (∀ passage, (Phase.resting (world.launch code environment arguments)).Reaches (.passing passage) →
      passage.Regular) ∧
    ∀ (passage : Passage) (block : Block) (rest : List Block) (handler depth : Nat) (instruction : Instruction Value),
      passage.Regular → passage.active.frame.blocks = block :: rest → block.Guards handler depth →
      depth ≤ passage.active.frame.stack.length → block.absorbs passage.signal = true →
      passage.active.frame.code.decodeAt handler = .ok instruction → instruction.opcode = .endFinally →
      ∃ resumed, passage.step = .resting (.running ⟨resumed, passage.callers⟩) ∧
        ∀ tracker : Tracker, tracker.count.refusal? = none →
          ∃ cleared,
            passage.Resurfaces depth rest
              ⟨{ resumed with world := { resumed.world with tracker } }, passage.callers⟩ cleared ∧
            cleared.frame.blocks = rest ∧ cleared.frame.stack = passage.active.frame.stack.rtake depth ∧
            (Active.drain passage.callers rest passage.signal
              { passage.active with frame := passage.active.frame.lowered block rest }).Alike
              (cleared.drain passage.callers rest passage.signal) := by
  refine ⟨fun passage reached => reached.regular, ?_⟩
  intro passage block rest handler depth instruction regular standing guards enough absorbs decoded ends
  obtain ⟨resumed, events, met, same⟩ := passage.active.meet_resume passage.callers rest absorbs (guards.leaves _)
    regular.encodable (guards.depth_eq ▸ enough)
  rw [Frame.resume_guards rest _ guards absorbs] at same
  refine ⟨resumed, by simp only [Passage.step, standing, met], ?_⟩
  intro tracker admits
  obtain ⟨cleared, resurfaces, frame, heap, sink, recovered⟩ := Passage.resurfaces regular enough decoded ends
    (show Active.frame { resumed with world := { resumed.world with tracker } } = _ by rw [same]) (by rw [same]) admits
  rw [same] at heap sink
  have alike : { passage.active with frame := passage.active.frame.lowered block rest }.Alike cleared := by
    refine ⟨⟨instruction.next, handler, ?_⟩, heap, sink, recovered⟩
    rw [frame, Frame.lowered, guards.depth_eq]
  exact ⟨cleared, resurfaces, by rw [frame], by rw [frame], alike.drain passage.callers rest passage.signal⟩

/-- `try: raise ValueError` in a loop, with a handler at offset 12 that only raises the exception again. -/
def bareHandler : Code Value :=
  { name := "bare", instructions := #[120, 10, 0, 121, 6, 0, 100, 0, 0, 130, 1, 0, 88]
    constants := [.exceptionKind .valueError], names := [], localSlots := [], argCount := 0 }

theorem bare_handler_transparent_raise :
    let start := World.launch bareHandler default [] default
    ∃ machine passage resumed cleared, start.advance 3 = .running machine ∧ machine.dispatch = .passing passage ∧
      (∃ raised, passage.signal = .raise raised) ∧
      passage.active.frame.blocks = [.setupExcept 12 0, .loop 13 0] ∧
      passage.step = .resting (.running ⟨resumed, passage.callers⟩) ∧
      passage.Resurfaces 0 [.loop 13 0] ⟨resumed, passage.callers⟩ cleared ∧
      cleared.frame.blocks = [.loop 13 0] := by
  intro start
  obtain ⟨machine, passage, instruction, ran, dispatched, raises, standing, absorbs, decoded, ends, admits⟩ :
      ∃ machine passage instruction, start.advance 3 = .running machine ∧ machine.dispatch = .passing passage ∧
        (∃ raised, passage.signal = .raise raised) ∧
        passage.active.frame.blocks = [.setupExcept 12 0, .loop 13 0] ∧
        (Block.setupExcept 12 0).absorbs passage.signal = true ∧
        passage.active.frame.code.decodeAt 12 = .ok instruction ∧ instruction.opcode = .endFinally ∧
        passage.active.world.tracker.count.refusal? = none :=
    ⟨_, _, _, rfl, rfl, ⟨_, rfl⟩, rfl, rfl, rfl, rfl, rfl⟩
  obtain ⟨regular, transparent⟩ := bare_handler_transparent bareHandler default [] default
  have running : (Phase.resting start).Reaches (.resting (.running machine)) :=
    ran ▸ .advance (fun world => by rw [ran]; nofun)
  have reached : (Phase.resting start).Reaches (.passing passage) :=
    running.tail (dispatched ▸ .dispatch machine (fun world => by rw [dispatched]; nofun))
  obtain ⟨resumed, stepped, onward⟩ := transparent passage _ _ 12 0 instruction (regular passage reached) standing
    (.inr rfl) (Nat.zero_le _) absorbs decoded ends
  have counted : resumed.world.tracker = passage.active.world.tracker := by
    have quiet := passage.step_quiet
    rw [stepped] at quiet
    exact quiet.tracker
  obtain ⟨cleared, resurfaces, blocks, -⟩ := onward resumed.world.tracker (counted ▸ admits)
  exact ⟨machine, passage, resumed, cleared, ran, dispatched, raises, standing, stepped, resurfaces, blocks⟩

end BlockVM
