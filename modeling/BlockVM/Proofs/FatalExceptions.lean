import BlockVM.Proofs.AbsorbingBlocks

namespace BlockVM

/-! Fatal exceptions. No block absorbs one, and what may take its place on the way is fatal as well,
so it takes all frames down and ends the run. -/

def Signal.Fatal : Signal → Prop
  | .raise raised => raised.kind.isFatal = true
  | _ => False

namespace Signal

variable {signal onward : Signal}

theorem Carried.fatal (carried : signal.Carried onward) (fatal : signal.Fatal) : onward.Fatal := by
  cases carried with
  | same => exact fatal
  | chained raised id context bare => exact fatal

theorem Fatal.not_absorbs (fatal : signal.Fatal) (block : Block) : block.absorbs signal = false := by
  cases signal with
  | «raise» raised =>
      have fatal : raised.kind.isFatal = true := fatal
      cases block <;> simp [Block.absorbs, fatal]
  | «return» value | «break» | «continue» target => cases fatal

/-- Nothing else gets past a `finally` block. -/
theorem fatal_of_finally {handler depth : Nat} (passes : (Block.finally handler depth).absorbs signal = false) :
    signal.Fatal := by
  cases signal with
  | «raise» raised =>
      have fatal : raised.kind.isFatal = true := by simpa [Block.absorbs] using passes
      exact fatal
  | «return» value | «break» | «continue» target => cases passes

end Signal

theorem Active.meet_fatal {signal : Signal} (callers : List Frame) (block : Block) (rest : List Block)
    (a : Active) (fatal : signal.Fatal) :
    ∃ onward after, a.meet callers block rest signal = .passed onward after ∧ onward.Fatal := by
  have passes := fatal.not_absorbs block
  have meets := a.meet_meets callers block rest signal
  generalize a.meet callers block rest signal = met at meets
  cases meets with
  | stayed continues | tooFar _ continues => rw [continues] at fatal; cases fatal
  | damaged _ _ kind =>
      refine ⟨_, _, supplant_eq, ?_⟩
      rw [Signal.Fatal, raise_kind]
      rcases kind with kind | ⟨_, kind⟩ <;> rw [kind] <;> rfl
  | passed _ carried => exact ⟨_, _, rfl, carried.fatal fatal⟩
  | absorbed _ _ _ absorbs => rw [passes] at absorbs; cases absorbs

namespace Phase

/-- A fatal exception is under way, or has ended the run. -/
def Doomed : Phase → Prop
  | .passing passage => passage.signal.Fatal
  | .resting (.finished (.error raised) _) => raised.kind.isFatal = true
  | .resting _ => False

end Phase

namespace Event

def isReturn : Event → Bool
  | .return _ => true
  | _ => false

theorem OfUnwinding.not_return {event : Event} (sort : event.OfUnwinding) : event.isReturn = false := by
  cases event <;> first | rfl | exact sort.elim

end Event

namespace Phase

/-- Between two phases only blocks and frames are taken away, and each frame notes its return. -/
def Unwinds (before after : Phase) : Prop :=
  ∃ added, after.world.events.toList = before.world.events.toList ++ added ∧
    (∀ event ∈ added, event.OfUnwinding ∨ event.isReturn = true) ∧
    added.countP Event.isReturn + after.frames.length = before.frames.length

namespace Unwinds

variable {first second third : Phase}

theorem refl (phase : Phase) : Unwinds phase phase :=
  ⟨[], by simp, by simp, by simp⟩

theorem trans (earlier : Unwinds first second) (later : Unwinds second third) : Unwinds first third := by
  obtain ⟨added, noted, sorted, counted⟩ := earlier
  obtain ⟨addedLater, notedLater, sortedLater, countedLater⟩ := later
  refine ⟨added ++ addedLater, ?_, ?_, ?_⟩
  · rw [notedLater, noted, List.append_assoc]
  · intro event member
    rcases List.mem_append.mp member with member | member
    · exact sorted event member
    · exact sortedLater event member
  · rw [List.countP_append]
    omega

theorem of_extends (extended : first.world.Extends Event.OfUnwinding second.world)
    (same : second.frames.length = first.frames.length) : Unwinds first second := by
  obtain ⟨added, noted, sorted⟩ := extended.events
  refine ⟨added, noted, fun event member => .inl (sorted event member), ?_⟩
  have none : added.countP Event.isReturn = 0 := by
    rw [List.countP_eq_zero]
    intro event member
    simp [(sorted event member).not_return]
  rw [none, same, Nat.zero_add]

end Unwinds

end Phase

namespace Passage

theorem leave_doomed {passage : Passage} (fatal : passage.signal.Fatal) :
    passage.leave.Doomed ∧ (Phase.passing passage).Unwinds passage.leave := by
  obtain ⟨signal, a, callers⟩ := passage
  cases signal with
  | «raise» raised =>
      cases callers with
      | nil =>
          refine ⟨fatal, [.return (a.frame.depth - 1)], ?_, by simp [Event.isReturn], rfl⟩
          simp [leave, Phase.world, Status.world, Active.setHeap, Active.emit, World.emit]
      | cons caller rest =>
          let left := (raised.leave a.frame a.world.heap).1
          refine ⟨fatal, [.return (a.frame.depth - 1), .exception left.kind caller.depth], ?_, ?_, ?_⟩
          · simp [leave, Phase.world, Active.announce, Active.setHeap, Active.emit, World.emit]
            rfl
          · simp [Event.isReturn, Event.OfUnwinding]
          · exact Nat.add_comm 1 (rest.length + 1)
  | «return» value | «break» | «continue» target => cases fatal

theorem step_doomed {passage : Passage} (fatal : passage.signal.Fatal) :
    passage.step.Doomed ∧ (Phase.passing passage).Unwinds passage.step := by
  have advances := passage.step_advances
  generalize passage.step = next at advances
  cases advances with
  | absorbed standing met =>
      obtain ⟨onward, after, passed, _⟩ := Active.meet_fatal passage.callers _ _ passage.active fatal
      rw [passed] at met
      cases met
  | passed standing met =>
      obtain ⟨onward, after, passed, onwardFatal⟩ := Active.meet_fatal passage.callers _ _ passage.active fatal
      rw [passed] at met
      cases met
      exact ⟨onwardFatal, .of_extends (Active.meet_passed passed).2.1 rfl⟩
  | left empty left => exact left ▸ leave_doomed fatal

end Passage

namespace Phase

theorem Step.doomed {before after : Phase} (stepped : Step before after) (doomed : before.Doomed) :
    after.Doomed ∧ before.Unwinds after := by
  cases stepped with
  | dispatch machine ends => cases doomed
  | signal passage => exact Passage.step_doomed doomed
  | host change machine => cases doomed

theorem Reaches.doomed {before after : Phase} (reached : Reaches before after) (doomed : before.Doomed) :
    after.Doomed ∧ before.Unwinds after := by
  induction reached with
  | refl => exact ⟨doomed, .refl _⟩
  | tail _ stepped ih =>
      obtain ⟨still, unwound⟩ := ih
      obtain ⟨next, further⟩ := stepped.doomed still
      exact ⟨next, unwound.trans further⟩

end Phase

theorem Passage.settle_doomed {passage : Passage} (fatal : passage.signal.Fatal) :
    ∃ final world, final.kind.isFatal = true ∧
      (Phase.passing passage).settle = .finished (.error final) world := by
  have doomed := ((Phase.Reaches.settle (.passing passage)).doomed fatal).1
  cases settled : (Phase.passing passage).settle with
  | running machine | unending world => rw [settled] at doomed; cases doomed
  | finished outcome world =>
      rw [settled] at doomed
      cases outcome with
      | ok value => cases doomed
      | error final => exact ⟨final, world, doomed, rfl⟩

/-- A fatal exception ends the run. Wherever it is under way, no instruction and no handler follows:
every phase from there on is one of the same exception's unwinding or of its successor's, every frame
returns, and the run ends with a fatal exception. -/
theorem fatal_exception_ends_run {passage : Passage} {raised : Raised}
    (pending : passage.signal = .raise raised) (fatal : raised.kind.isFatal = true) :
    (∀ phase, (Phase.passing passage).Reaches phase → phase.Doomed) ∧
    ∃ final world added, final.kind.isFatal = true ∧
      (Phase.passing passage).Reaches (.resting (.finished (.error final) world)) ∧
      (∀ machine steps fuel, Phase.proceed^[steps] machine.dispatch = .passing passage →
        (Status.running machine).advance (fuel + 1) = .finished (.error final) world) ∧
      world.events.toList = passage.active.world.events.toList ++ added ∧
      (∀ event ∈ added, event.OfUnwinding ∨ event.isReturn = true) ∧
      added.countP Event.isReturn = passage.callers.length + 1 := by
  have doomed : passage.signal.Fatal := by rw [pending]; exact fatal
  obtain ⟨final, world, finalFatal, settled⟩ := passage.settle_doomed doomed
  have ends := Phase.Reaches.settle (.passing passage)
  rw [settled] at ends
  obtain ⟨added, noted, sorted, counted⟩ := (ends.doomed doomed).2
  refine ⟨fun phase reached => (reached.doomed doomed).1, final, world, added, finalFatal, ends, ?_, noted,
    sorted, counted⟩
  intro machine steps fuel arrived
  have stepped : machine.step = .finished (.error final) world := by
    rw [Machine.step, ← Phase.iterate_settle machine.dispatch steps, arrived, settled]
  rw [Status.advance, stepped, Status.advance_finished]

/-- A fatal exception in a callee that is guarded by an `except` and a `finally` block, called from
within a `finally` block. -/
theorem fatal_exception_ends_run_guarded :
    let frame : Frame := { code := default, globals := default, locals := default, depth := 2 }
    let guarded : Frame := { frame with blocks := [.setupExcept 4 0, .finally 9 0] }
    let caller : Frame := { frame with blocks := [.finally 3 0], depth := 1 }
    let exception : ExceptionObject :=
      { id := 0, kind := .timeoutError, message := none, context := none, cause := none }
    let passage : Passage := ⟨.raise ⟨exception, none⟩, ⟨default, guarded, none⟩, [caller]⟩
    ∃ final world, final.kind.isFatal = true ∧
      (Phase.passing passage).Reaches (.resting (.finished (.error final) world)) := by
  intro frame guarded caller exception passage
  have pending : passage.signal = .raise ⟨exception, none⟩ := rfl
  obtain ⟨_, final, world, _, finalFatal, ends, _⟩ := fatal_exception_ends_run pending rfl
  exact ⟨final, world, finalFatal, ends⟩

end BlockVM
