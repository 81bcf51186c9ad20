import BlockVM.Proofs.ExceptionOrigins

namespace BlockVM

/-! Tracebacks. On its way an exception notes each frame that it leaves, and nothing else adds to its
traceback: what it carries is what it set out with, followed by the frames left since. -/

/-- What a frame adds to the traceback of an exception that leaves it. -/
def Frame.entry (frame : Frame) : TracebackEntry :=
  { code := frame.code.name, offset := frame.lastOffset }

namespace Raised

theorem tracebackEntries_of_traceValue {raised : Raised} {trace : Traceback}
    (saved : raised.traceValue = .traceback trace) : raised.tracebackEntries = trace.entries := by
  obtain ⟨exception, held⟩ := raised
  cases held <;> cases saved
  rfl

theorem leave_entries (frame : Frame) (raised : Raised) (heap : Heap) :
    (raised.leave frame heap).1.tracebackEntries = raised.tracebackEntries ++ [frame.entry] :=
  rfl

end Raised

namespace Passage

/-- An exception on its way: from `origin` it has left so many frames, and no block on the way was
damaged, so that nothing has taken its place. -/
inductive Conveys (origin : Passage) : Nat → Phase → Prop where
  | start : Conveys origin 0 (.passing origin)
  | past {left : Nat} {passage : Passage} {block : Block} {rest : List Block}
      (way : Conveys origin left (.passing passage)) (standing : passage.active.frame.blocks = block :: rest)
      (intact : block.Intact passage.active.frame.stack) : Conveys origin left passage.step
  | out {left : Nat} {passage : Passage} (way : Conveys origin left (.passing passage))
      (empty : passage.active.frame.blocks = []) : Conveys origin (left + 1) passage.step

end Passage

namespace Phase

/-- The exception that is under way or has ended the run. -/
def exception? : Phase → Option Raised
  | .passing ⟨.raise raised, _, _⟩ => some raised
  | .resting (.finished (.error raised) _) => some raised
  | _ => none

/-- An exception with the given traceback is under way, with frames ahead that will add to it; unless a
block has absorbed it. -/
def Bears (entries ahead : List TracebackEntry) : Phase → Prop
  | .passing passage => ∃ raised, passage.signal = .raise raised ∧ raised.tracebackEntries = entries ∧
      (passage.active.frame :: passage.callers).map Frame.entry = ahead
  | .resting (.finished outcome _) => ∃ raised, outcome = .error raised ∧ raised.tracebackEntries = entries ∧
      ahead = []
  | .resting _ => True

theorem Bears.entries {entries ahead : List TracebackEntry} {phase : Phase} {raised : Raised}
    (bears : phase.Bears entries ahead) (carried : phase.exception? = some raised) :
    raised.tracebackEntries = entries := by
  cases phase with
  | passing passage =>
      obtain ⟨signal, a, callers⟩ := passage
      obtain ⟨now, rfl, noted, -⟩ := bears
      cases carried
      exact noted
  | resting status =>
      cases status with
      | running machine | unending world => cases carried
      | finished outcome world =>
          obtain ⟨final, rfl, noted, -⟩ := bears
          cases carried
          exact noted

end Phase

namespace Passage

variable {passage : Passage} {raised : Raised}

theorem step_bears_past {block : Block} {rest : List Block} (raises : passage.signal = .raise raised)
    (standing : passage.active.frame.blocks = block :: rest) (intact : block.Intact passage.active.frame.stack) :
    passage.step.Bears raised.tracebackEntries ((passage.active.frame :: passage.callers).map Frame.entry) := by
  have advances := passage.step_advances
  generalize passage.step = next at advances
  cases advances with
  | absorbed top met => trivial
  | left empty left => rw [standing] at empty; cases empty
  | @passed _ _ _ after top met =>
      obtain ⟨rfl, rfl⟩ := List.cons.inj (standing.symm.trans top)
      have meets := passage.active.meet_meets passage.callers block rest passage.signal
      rw [met] at meets
      cases meets with
      | damaged _ damaged => exact absurd intact damaged
      | tooFar _ continues => rw [raises] at continues; cases continues
      | passed _ carried _ lowered =>
          rw [raises] at carried
          have ahead : (after.frame :: passage.callers).map Frame.entry =
              (passage.active.frame :: passage.callers).map Frame.entry := by
            rw [lowered]
            rfl
          cases carried with
          | same => exact ⟨raised, rfl, rfl, ahead⟩
          | chained => exact ⟨_, rfl, rfl, ahead⟩

theorem step_bears_out (raises : passage.signal = .raise raised) (empty : passage.active.frame.blocks = []) :
    passage.step.Bears (raised.tracebackEntries ++ [passage.active.frame.entry])
      (passage.callers.map Frame.entry) := by
  simp only [step, empty]
  obtain ⟨signal, a, callers⟩ := passage
  subst raises
  cases callers with
  | nil => exact ⟨_, rfl, Raised.leave_entries .., rfl⟩
  | cons caller rest => exact ⟨_, rfl, Raised.leave_entries .., rfl⟩

/-- The traceback grows by the frames that are left, and by nothing else. -/
theorem Conveys.bears {origin : Passage} {left : Nat} {phase : Phase} (conveys : origin.Conveys left phase)
    (raises : origin.signal = .raise raised) :
    let path := (origin.active.frame :: origin.callers).map Frame.entry
    phase.Bears (raised.tracebackEntries ++ path.take left) (path.drop left) := by
  intro path
  induction conveys with
  | start => exact ⟨raised, raises, by rw [List.take_zero, List.append_nil], rfl⟩
  | past way standing intact ih =>
      obtain ⟨now, signal, noted, ahead⟩ := ih
      rw [← noted, ← ahead]
      exact step_bears_past signal standing intact
  | @out left passage way empty ih =>
      obtain ⟨now, signal, noted, ahead⟩ := ih
      have taken : path.take (left + 1) = path.take left ++ [passage.active.frame.entry] := by
        rw [List.take_add, ← ahead]
        rfl
      have dropped : path.drop (left + 1) = passage.callers.map Frame.entry := by
        rw [← List.drop_drop, ← ahead]
        rfl
      rw [taken, dropped, ← List.append_assoc, ← noted]
      exact step_bears_out signal empty

/-- A signal that becomes an exception on its way has just been raised. -/
theorem step_origin {now : Raised} (carried : passage.step.exception? = some now) :
    (∃ origin, passage.step = .passing origin ∧ origin.signal = .raise now ∧
      (Phase.passing passage).Originates now) ∨
    ∃ former, passage.signal = .raise former ∧ (passage.active.frame.blocks = [] ∨
      ∃ block rest, passage.active.frame.blocks = block :: rest ∧ block.Intact passage.active.frame.stack) := by
  have ofFault {fault : Fault} {a : Active}
      (throws : (Phase.passing passage).Throws (a.exceptionOf fault) a.aged passage.callers)
      (carried : (Phase.passing (ofFault passage.callers fault a)).exception? = some now) :
      ∃ origin, Phase.passing (ofFault passage.callers fault a) = .passing origin ∧ origin.signal = .raise now ∧
        (Phase.passing passage).Originates now := by
    cases carried
    exact ⟨_, rfl, rfl, .thrown throws rfl (a.raise_trace passage.callers fault)⟩
  have advances := passage.step_advances
  generalize passage.step = next at advances carried
  cases advances with
  | absorbed top met => cases carried
  | @passed block rest onward after top met =>
      have meets := passage.active.meet_meets passage.callers block rest passage.signal
      generalize encountered : passage.active.meet passage.callers block rest passage.signal = encounter at met meets
      cases meets with
      | stayed | absorbed => cases met
      | damaged | tooFar =>
          obtain ⟨rfl, rfl⟩ := Encounter.passed.inj met
          exact .inl (ofFault (.supplanted top encountered) carried)
      | @passed onward left intact reached passes lowered noted =>
          obtain ⟨rfl, rfl⟩ := Encounter.passed.inj met
          right
          cases onward with
          | «return» value | «break» | «continue» target => cases carried
          | «raise» raised =>
              generalize passage.signal = signal at reached
              cases reached with
              | same => exact ⟨_, rfl, .inr ⟨block, rest, top, intact⟩⟩
              | chained former => exact ⟨former, rfl, .inr ⟨block, rest, top, intact⟩⟩
  | left empty left =>
      subst left
      obtain ⟨signal, a, callers⟩ := passage
      cases signal with
      | «break» | «continue» target => exact .inl (ofFault (.homeless empty rfl) carried)
      | «return» value => cases callers <;> cases carried
      | «raise» raised => exact .inr ⟨raised, rfl, .inl empty⟩

end Passage

namespace Phase

/-- The exception of a phase set out from `origin` in the run, as `raised`, and has left so many frames
since. -/
structure SetOut (start : Phase) (raised : Raised) (origin : Passage) (left : Nat) (phase : Phase) : Prop where
  before : ∃ before, start.Reaches before ∧ before.Step (.passing origin) ∧ before.Originates raised
  raises : origin.signal = .raise raised
  way : origin.Conveys left phase

theorem exception?_of_raise {passage : Passage} {raised : Raised} (raises : passage.signal = .raise raised) :
    (Phase.passing passage).exception? = some raised := by
  obtain ⟨signal, a, callers⟩ := passage
  subst raises
  rfl

/-- Every exception of a run set out somewhere in it. -/
theorem Reaches.setOut {machine : Machine} {phase : Phase}
    (reached : (Phase.resting (.running machine)).Reaches phase) {now : Raised}
    (carried : phase.exception? = some now) :
    ∃ raised origin left, SetOut (.resting (.running machine)) raised origin left phase := by
  induction reached generalizing now with
  | refl => cases carried
  | @tail before after earlier stepped ih =>
      have starts {origin : Passage} (same : after = .passing origin) (raises : origin.signal = .raise now)
          (originates : before.Originates now) :
          ∃ raised origin left, SetOut (.resting (.running machine)) raised origin left after :=
        ⟨now, origin, 0, ⟨before, earlier, same ▸ stepped, originates⟩, raises, same ▸ .start⟩
      cases id stepped with
      | dispatch next ends =>
          cases dispatched : next.dispatch with
          | passing passage =>
              rw [dispatched] at carried
              obtain ⟨signal, a, callers⟩ := passage
              cases signal with
              | «return» value | «break» | «continue» target => cases carried
              | «raise» raised =>
                  cases carried
                  exact dispatched ▸ starts dispatched rfl (Machine.dispatch_originates dispatched rfl)
          | resting status =>
              have dispatches := next.dispatch_dispatches
              rw [dispatched] at dispatches carried
              cases dispatches with
              | unending | called => cases carried
              | executed _ _ leads => cases leads; cases carried
      | host change next => cases carried
      | signal passage =>
          rcases Passage.step_origin carried with ⟨origin, same, raises, originates⟩ | ⟨former, raises, blocks⟩
          · exact starts same raises originates
          · obtain ⟨raised, origin, left, before, set, way⟩ := ih (exception?_of_raise raises)
            rcases blocks with empty | ⟨block, rest, standing, intact⟩
            · exact ⟨raised, origin, left + 1, before, set, .out way empty⟩
            · exact ⟨raised, origin, left, before, set, .past way standing intact⟩

/-- The lowest frame runs the code that was started, and all frames but the running one wait at a call. -/
structure Rooted (code : Code Value) (phase : Phase) : Prop where
  root : ∀ frame ∈ phase.frames.getLast?, frame.code = code
  waiting : ∀ frame ∈ phase.frames.tail, frame.Suspended

theorem forall_getLast?_replace {property : Frame → Prop} {frame other : Frame} {callers : List Frame}
    (holds : ∀ root ∈ (frame :: callers).getLast?, property root) (same : property frame → property other) :
    ∀ root ∈ (other :: callers).getLast?, property root := by
  cases callers with
  | nil =>
      rintro root ⟨⟩
      exact same (holds frame rfl)
  | cons caller rest => rwa [List.getLast?_cons_cons] at holds ⊢

theorem Shifts.rooted {code : Code Value} {before after : Phase} (shifts : before.Shifts after)
    (rooted : before.Rooted code) : after.Rooted code := by
  obtain ⟨root, waiting⟩ := rooted
  cases shifts with
  | within held holds anchored =>
      obtain ⟨_, _, _, _, same⟩ := anchored.frame
      rw [held.frames] at root waiting
      refine ⟨?_, ?_⟩ <;> rw [holds.frames]
      · exact forall_getLast?_replace root fun runs => by rw [same, runs]
      · exact waiting
  | into running fetched opcode operand calls anchored =>
      subst running
      obtain ⟨-, -, frame⟩ := Machine.fetch_spec fetched
      refine ⟨?_, List.forall_mem_cons.mpr ⟨calls.suspended fetched opcode operand, waiting⟩⟩
      simp only [frames, List.getLast?_cons_cons] at root ⊢
      refine forall_getLast?_replace root fun runs => ?_
      rw [calls.waits, frame]
      exact runs
  | back passing empty left exits holds resumed spared =>
      subst passing
      obtain ⟨stack, resumed⟩ := resumed
      simp only [frames, left, List.getLast?_cons_cons, List.tail_cons] at root waiting
      refine ⟨?_, ?_⟩ <;> rw [holds.frames]
      · exact forall_getLast?_replace root fun runs => by rw [resumed, runs]
      · exact (List.forall_mem_cons.mp waiting).2
  | finished passing last ended => exact ⟨by rw [ended]; nofun, by rw [ended]; nofun⟩

theorem Step.rooted {code : Code Value} {before after : Phase} (stepped : Step before after)
    (rooted : before.Rooted code) : after.Rooted code := by
  cases stepped with
  | dispatch machine ends => exact (dispatch_shifts ends).rooted rooted
  | signal passage => exact (signal_shifts passage).rooted rooted
  | host change machine => exact ⟨rooted.root, rooted.waiting⟩

theorem Reaches.rooted {code : Code Value} {before after : Phase} (reached : before.Reaches after)
    (rooted : before.Rooted code) : after.Rooted code :=
  reached.preserves (fun _ _ => Step.rooted) rooted

end Phase

/-- A run starts with its root frame, or it is refused with an exception that has left no frame. -/
theorem World.launch_cases (code : Code Value) (environment : Environment) (arguments : List Value) (world : World) :
    (∃ machine, world.launch code environment arguments = .running machine ∧
      (Phase.resting (.running machine)).frames.map Frame.code = [code]) ∨
    ∃ raised after, world.launch code environment arguments = .finished (.error raised) after ∧
      raised.tracebackEntries = [] := by
  unfold launch
  split
  · exact .inr ⟨_, _, rfl, rfl⟩
  · dsimp only
    split
    · exact .inr ⟨_, _, rfl, rfl⟩
    · exact .inl ⟨_, rfl, rfl⟩

theorem World.launch_rooted (code : Code Value) (environment : Environment) (arguments : List Value) (world : World) :
    (Phase.resting (world.launch code environment arguments)).Rooted code := by
  rcases world.launch_cases code environment arguments with ⟨machine, started, codes⟩ | ⟨_, _, refused, _⟩
  · obtain ⟨frame, alone, runs⟩ := List.map_eq_singleton_iff.mp codes
    rw [started]
    refine ⟨?_, ?_⟩ <;> rw [alone]
    · rintro root ⟨⟩
      exact runs
    · nofun
  · rw [refused]
    exact ⟨nofun, nofun⟩

/-- An exception that ends a run has left all frames since it set out. -/
theorem Phase.SetOut.last_entry {start : Phase} {raised final : Raised} {origin : Passage} {left : Nat}
    {after : World} (set : start.SetOut raised origin left (.resting (.finished (.error final) after))) :
    final.tracebackEntries.getLast? = (origin.active.frame :: origin.callers).getLast?.map Frame.entry := by
  obtain ⟨_, ⟨⟩, noted, ended⟩ := set.way.bears set.raises
  have whole := List.take_append_drop left ((origin.active.frame :: origin.callers).map Frame.entry)
  rw [ended, List.append_nil] at whole
  rw [noted, whole, List.getLast?_append, List.getLast?_map, List.getLast?_cons]
  rfl

/-- Tracebacks record exactly the frames left. From where an exception sets out in a run, each frame that it
leaves adds its entry, and of these all but the first stand at a call. It sets out without a traceback where it is
raised anew, and where the end of a `finally` body or a bare `raise` takes it up, with just the traceback that was
saved. An exception that ends the run has the root's code in its last entry; one that kept the run from starting has
left no frame. -/
theorem traceback_records_frames_left (code : Code Value) (environment : Environment) (arguments : List Value)
    (world : World) :
    let start := world.launch code environment arguments
    (∀ origin raised left phase now, (Phase.resting start).Reaches (.passing origin) →
      origin.signal = .raise raised → origin.Conveys left phase → phase.exception? = some now →
      now.tracebackEntries =
        raised.tracebackEntries ++ ((origin.active.frame :: origin.callers).take left).map Frame.entry ∧
      ∀ frame ∈ origin.callers, frame.Suspended) ∧
    (∀ machine phase now, start = .running machine → (Phase.resting start).Reaches phase →
      phase.exception? = some now → ∃ raised origin left, (Phase.resting start).SetOut raised origin left phase) ∧
    (∀ before exception a callers, Phase.Throws before exception a callers →
      ∃ raised after, before.Step (.passing ⟨.raise raised, after, callers⟩) ∧ raised.trace = none) ∧
    (∀ (machine : Machine) trace, machine.TakesUp trace →
      ∃ raised after, machine.dispatch = .passing ⟨.raise raised, after, machine.callers⟩ ∧
        raised.traceValue = trace) ∧
    (∀ machine final after, start = .running machine →
      (Phase.resting start).Reaches (.resting (.finished (.error final) after)) →
      ∃ entry ∈ final.tracebackEntries.getLast?, entry.code = code.name) ∧
    ∀ refused after, start = .finished (.error refused) after → refused.tracebackEntries = [] := by
  intro start
  have rooted {phase : Phase} (reached : (Phase.resting start).Reaches phase) : phase.Rooted code :=
    reached.rooted (world.launch_rooted code environment arguments)
  refine ⟨?_, ?_, ?_, ?_, ?_, ?_⟩
  · intro origin raised left phase now reached raises way carried
    refine ⟨?_, (rooted reached).waiting⟩
    rw [List.map_take]
    exact (way.bears raises).entries carried
  · intro machine phase now started reached carried
    rw [started] at reached ⊢
    exact reached.setOut carried
  · intro before exception a callers throws
    exact ⟨_, _, throws.step, a.throw_trace callers exception⟩
  · intro machine trace takesUp
    exact takesUp.dispatch
  · intro machine final after started reached
    obtain ⟨raised, origin, left, set⟩ := Phase.Reaches.setOut (started ▸ reached) rfl
    obtain ⟨before, earlier, stepped, -⟩ := set.before
    have root := (rooted ((started ▸ earlier).tail stepped)).root
    rw [Phase.frames, List.getLast?_cons] at root
    rw [set.last_entry, List.getLast?_cons]
    exact ⟨_, rfl, congrArg Code.name (root _ rfl)⟩
  · intro refused after ended
    rcases world.launch_cases code environment arguments with ⟨machine, started, _⟩ | ⟨raised, _, same, none⟩
    · cases ended.symm.trans started
    · cases ended.symm.trans same
      exact none

/-- A module that calls a function, which raises, and passes the exception on at the end of a `finally` body. -/
def reraiseInFinally : Code Value :=
  let callee : Code Value :=
    { name := "fail", instructions := #[100, 0, 0, 130, 1, 0], constants := [.exceptionKind .valueError]
      names := [], localSlots := [], argCount := 0 }
  { name := "module", instructions := #[122, 12, 0, 100, 0, 0, 100, 1, 0, 132, 0, 0, 131, 0, 0, 88]
    constants := [.code 0 callee, .str 1 "fail"], names := [], localSlots := [], argCount := 0 }

theorem traceback_records_frames_left_finally :
    let start := twoFrames.launch reraiseInFinally ⟨⟨0⟩, ⟨0⟩⟩ []
    ∃ machine trace final after, start.advance 7 = .running machine ∧ machine.TakesUp (.traceback trace) ∧
      trace.entries = [⟨"fail", 3⟩] ∧ start.advance 8 = .finished (.error final) after ∧
      final.tracebackEntries = [⟨"fail", 3⟩, ⟨"module", 15⟩] := by
  intro start
  obtain ⟨carried, -, -, takenUp, -⟩ := traceback_records_frames_left reraiseInFinally ⟨⟨0⟩, ⟨0⟩⟩ [] twoFrames
  obtain ⟨machine, trace, origin, ran, takesUp, entries, dispatched, path⟩ :
      ∃ machine trace origin, start.advance 7 = .running machine ∧ machine.TakesUp (.traceback trace) ∧
        trace.entries = [⟨"fail", 3⟩] ∧ machine.dispatch = .passing origin ∧
        ∃ block rest outer final after, origin.active.frame.blocks = block :: rest ∧
          block.Intact origin.active.frame.stack ∧ origin.step = .passing outer ∧ outer.active.frame.blocks = [] ∧
          outer.step = .resting (.finished (.error final) after) ∧ start.advance 8 = .finished (.error final) after ∧
          ((origin.active.frame :: origin.callers).take 1).map Frame.entry = [⟨"module", 15⟩] :=
    ⟨_, _, _, rfl, .resumed rfl rfl rfl ⟨⟨_, rfl⟩, .inr ⟨_, rfl⟩, .inr ⟨_, rfl⟩⟩, rfl, rfl,
      _, _, _, _, _, rfl, ⟨by decide, _, _, _, rfl, ⟨⟨_, rfl⟩, .inr ⟨_, rfl⟩, .inr ⟨_, rfl⟩⟩⟩, rfl, rfl, rfl, rfl, rfl⟩
  obtain ⟨block, rest, outer, final, after, standing, intact, past, empty, out, ended, left⟩ := path
  obtain ⟨raised, resumed, same, saved⟩ := takenUp machine (.traceback trace) takesUp
  obtain rfl := Phase.passing.inj (dispatched.symm.trans same)
  have running : (Phase.resting start).Reaches (.resting (.running machine)) :=
    ran ▸ .advance (fun world => by rw [ran]; nofun)
  have reached : (Phase.resting start).Reaches (.passing ⟨.raise raised, resumed, machine.callers⟩) :=
    running.tail (dispatched ▸ .dispatch machine (fun world => by rw [dispatched]; nofun))
  have way : Passage.Conveys ⟨.raise raised, resumed, machine.callers⟩ 1 (.resting (.finished (.error final) after)) :=
    out ▸ .out (past ▸ .past .start standing intact) empty
  obtain ⟨noted, -⟩ := carried _ raised 1 _ final reached rfl way rfl
  have before : raised.tracebackEntries = [⟨"fail", 3⟩] := by
    rw [← entries, Raised.tracebackEntries_of_traceValue saved]
  rw [before, left] at noted
  exact ⟨machine, trace, final, after, ran, takesUp, entries, ended, noted⟩

end BlockVM
