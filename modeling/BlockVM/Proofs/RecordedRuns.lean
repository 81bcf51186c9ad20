import BlockVM.Proofs.FatalExceptions
import BlockVM.Proofs.FrameChanges
import BlockVM.Proofs.Observers
import BlockVM.Proofs.Replay

namespace BlockVM

/-! The record of a run. Step by step the events replay what becomes of the frames, so a recording replays the
run up to any point of it. A `POP_EXCEPT` that fails is the only step whose events do not: it ends the run, and
the recording lacks one event. -/

namespace Phase

def outlines (phase : Phase) : List Outline :=
  phase.frames.map Frame.outline

/-- The events between two phases replay what becomes of the frames. -/
def ReplaysTo (before after : Phase) : Prop :=
  Numbered before.frames → Numbered after.frames ∧
    ∃ added, after.world.events.toList = before.world.events.toList ++ added ∧
      replay before.outlines added = some after.outlines

namespace ReplaysTo

variable {first second third : Phase}

theorem refl (phase : Phase) : ReplaysTo phase phase :=
  fun numbered => ⟨numbered, [], by simp, rfl⟩

theorem trans (earlier : ReplaysTo first second) (later : ReplaysTo second third) : ReplaysTo first third := by
  intro numbered
  obtain ⟨middle, added, noted, replayed⟩ := earlier numbered
  obtain ⟨last, addedLater, notedLater, replayedLater⟩ := later middle
  refine ⟨last, added ++ addedLater, ?_, ?_⟩
  · rw [notedLater, noted, List.append_assoc]
  · rw [replay_append, replayed, Option.bind_some, replayedLater]

theorem within {a b : Active} {callers : List Frame} (held : first.Holds a callers) (holds : second.Holds b callers)
    (reports : a.Reports b) : ReplaysTo first second := by
  intro numbered
  obtain ⟨depth, added, noted, replayed⟩ := reports
  rw [held.frames] at numbered
  refine ⟨?_, added, ?_, ?_⟩
  · rw [holds.frames]
    exact ⟨depth.trans numbered.1, numbered.2⟩
  · rw [holds.world, held.world, noted]
  · rw [outlines, outlines, holds.frames, held.frames]
    exact replayed _

end ReplaysTo

end Phase

namespace Machine

theorem fetch_reports {a after : Active} {result : Except Fault (Instruction Value)}
    (fetched : fetch a = (result, after)) : a.Reports after := by
  obtain ⟨world, frame, recovered⟩ := a
  unfold fetch at fetched
  dsimp only at fetched
  split at fetched
  · cases fetched
    exact .of_world ⟨_, _, rfl⟩ rfl
  · split at fetched
    · cases fetched
      exact .of_world ⟨_, _, rfl⟩ rfl
    · rename_i instruction _
      cases fetched
      exact .of_silent ⟨_, _, _, rfl⟩
        ⟨[.instruction instruction.offset instruction.opcode frame.stack.length frame.depth],
          by simp [World.emit], by simp [Event.Silent]⟩

theorem raise_replaysTo (callers : List Frame) (fault : Fault) (a : Active) :
    ∃ after, (raise callers fault a).Holds after callers ∧ a.Reports after :=
  ⟨_, .passing _ _ _, a.raise_reports callers fault⟩

theorem follow_replaysTo (callers : List Frame) {effect : Effect} (plain : effect.Plain) (a : Active) :
    ∃ after, (follow callers effect a).Holds after callers ∧ a.Reports after := by
  cases effect with
  | next => exact ⟨a, .running _ _, .refl a⟩
  | interrupt signal => exact ⟨a, .passing _ _ _, .refl a⟩
  | propagate raised => exact ⟨_, .passing _ _ _, a.announce_reports raised⟩
  | throw exception => exact ⟨_, .passing _ _ _, a.throw_reports callers exception⟩
  | rethrow =>
      unfold follow
      dsimp only
      split
      · rename_i raised heap _
        have handled : a.Reports (a.setHeap heap) := .of_world ⟨_, _, rfl⟩ rfl
        exact ⟨_, .passing _ _ _, handled.trans (Active.announce_reports raised _)⟩
      · split
        · rename_i raised _
          exact ⟨_, .passing _ _ _, a.announce_reports raised⟩
        · exact raise_replaysTo callers _ a
  | call callee => cases plain

/-- The next instruction takes a block off and fails before it can say so. -/
def PopExceptFails (machine : Machine) : Prop :=
  ∃ instruction a, fetch machine.active = (.ok instruction, a) ∧
    a.PopExceptFails instruction.opcode instruction.operand

theorem called_replaysTo {machine : Machine} {instruction : Instruction Value} {a after : Active} {callee : Frame}
    {count : Nat} (fetched : fetch machine.active = (.ok instruction, a)) (calls : a.Calls count callee after) :
    (Phase.resting (.running machine)).ReplaysTo
      (.resting (.running ⟨{ after with frame := callee }, after.frame :: machine.callers⟩)) := by
  intro numbered
  obtain ⟨depth, added, noted, replayed⟩ := fetch_reports fetched
  have started : callee.depth = machine.callers.length + 2 := by
    rw [calls.starts, depth, numbered.1]
  refine ⟨⟨started, ?_, numbered.2⟩, added ++ [.call callee.code.name callee.depth], ?_, ?_⟩
  · rw [calls.waits, depth, numbered.1]
  · simp [Phase.world, Status.world, calls.noted, noted]
  · rw [replay_append, Phase.outlines, Phase.frames, List.map_cons, replayed, Option.bind_some]
    simp [replay_cons, Event.replay, started, Phase.outlines, Phase.frames, Frame.outline, calls.waits]
    rw [calls.starts]

theorem dispatch_replaysTo {machine : Machine} (ends : ∀ world, machine.dispatch ≠ .resting (.unending world))
    (tidy : ¬ machine.PopExceptFails) : (Phase.resting (.running machine)).ReplaysTo machine.dispatch := by
  have executed {instruction : Instruction Value} {a : Active}
      (fetched : fetch machine.active = (.ok instruction, a)) :
      Exec.LeavesUncalled a.Reports (execute instruction.opcode instruction.operand a) :=
    execute_reports (fetch_fits fetched) fun fails => tidy ⟨instruction, a, fetched, fails⟩
  have executes := machine.dispatch_executes
  generalize machine.dispatch = reached at executes ends
  cases executes with
  | refused fetched =>
      exact .within (.running _ _) (.passing _ _ _) ((fetch_reports fetched).trans (Active.raise_reports _ _ _))
  | @followed instruction effect a after fetched run =>
      rcases execute_effect (fetch_near fetched) run with plain | ⟨count, callee, _, _, rfl, calls⟩
      · have reports := executed fetched
        rw [run] at reports
        obtain ⟨left, holds, follows⟩ := follow_replaysTo machine.callers plain after
        exact .within (.running _ _) holds (((fetch_reports fetched).trans (reports.of_plain plain)).trans follows)
      · exact called_replaysTo fetched calls
  | failed fetched run =>
      have reports := executed fetched
      rw [run] at reports
      exact .within (.running _ _) (.passing _ _ _)
        (((fetch_reports fetched).trans reports).trans (Active.raise_reports _ _ _))
  | unending fetched run => exact absurd rfl (ends _)

end Machine

theorem replay_return {frame : Frame} {callers : List Frame} (empty : frame.blocks = [])
    (numbered : frame.depth = callers.length + 1) :
    Event.replay ((frame :: callers).map Frame.outline) (.return (frame.depth - 1)) =
      some (callers.map Frame.outline) := by
  simp [Event.replay, Frame.outline, empty, numbered]

namespace Passage

theorem leave_replaysTo {passage : Passage} (empty : passage.active.frame.blocks = []) :
    (Phase.passing passage).ReplaysTo passage.leave := by
  obtain ⟨signal, a, callers⟩ := passage
  cases signal with
  | «break» | «continue» target => exact .within (.passing _ _ _) (.passing _ _ _) (a.raise_reports callers _)
  | «return» value =>
      rintro ⟨depth, numbered⟩
      have returned := replay_return empty depth
      cases callers with
      | nil =>
          refine ⟨trivial, [.return (a.frame.depth - 1)], ?_, ?_⟩
          · simp [leave, Phase.world, Status.world, Active.emit, World.emit]
          · rw [replay_cons, Phase.outlines, Phase.frames, returned]
            rfl
      | cons caller rest =>
          refine ⟨numbered, [.return (a.frame.depth - 1)], ?_, ?_⟩
          · simp [leave, Phase.world, Status.world, Active.emit, World.emit]
          · rw [replay_cons, Phase.outlines, Phase.frames, returned]
            rfl
  | «raise» raised =>
      rintro ⟨depth, numbered⟩
      have returned := replay_return empty depth
      cases callers with
      | nil =>
          refine ⟨trivial, [.return (a.frame.depth - 1)], ?_, ?_⟩
          · simp [leave, Phase.world, Status.world, Active.setHeap, Active.emit, World.emit]
          · rw [replay_cons, Phase.outlines, Phase.frames, returned]
            rfl
      | cons caller rest =>
          refine ⟨numbered, [.return (a.frame.depth - 1), .exception raised.kind caller.depth], ?_, ?_⟩
          · simp [leave, Phase.world, Active.announce, Active.setHeap, Active.emit, World.emit]
            rfl
          · rw [replay_cons, Phase.outlines, Phase.frames, returned]
            rfl

theorem step_replaysTo (passage : Passage) : (Phase.passing passage).ReplaysTo passage.step := by
  have advances := passage.step_advances
  generalize passage.step = next at advances
  cases advances with
  | absorbed standing met =>
      have reports := Active.meet_reports standing passage.callers passage.signal
      rw [met] at reports
      exact .within (.passing _ _ _) (.running _ _) reports
  | passed standing met =>
      have reports := Active.meet_reports standing passage.callers passage.signal
      rw [met] at reports
      exact .within (.passing _ _ _) (.passing _ _ _) reports
  | left empty left => exact left ▸ leave_replaysTo empty

end Passage

theorem Phase.settle_replaysTo (phase : Phase) : phase.ReplaysTo (.resting phase.settle) := by
  have steps := reflTransGen_settle Passage.step_replaysTo phase
  generalize Phase.resting phase.settle = rested at steps
  induction steps with
  | refl => exact .refl phase
  | tail _ next ih => exact ih.trans next

/-- The event of one block that was taken off is missing. -/
def LacksPop (events : List Event) (frames : List Outline) : Prop :=
  ∃ before after code kind blocks callers, events = before ++ after ∧
    replay [] before = some (⟨code, kind :: blocks⟩ :: callers) ∧
    replay (⟨code, blocks⟩ :: callers) after = some frames

namespace LacksPop

variable {events : List Event} {frames : List Outline}

theorem append {later : List Event} {final : List Outline} (lacks : LacksPop events frames)
    (replayed : replay frames later = some final) : LacksPop (events ++ later) final := by
  obtain ⟨before, after, code, kind, blocks, callers, rfl, complete, onward⟩ := lacks
  refine ⟨before, after ++ later, code, kind, blocks, callers, List.append_assoc .., complete, ?_⟩
  rw [replay_append, onward, Option.bind_some, replayed]

theorem not_replays (lacks : LacksPop events []) : replay [] events = none := by
  obtain ⟨before, after, code, kind, blocks, callers, rfl, complete, onward⟩ := lacks
  rw [replay_append, complete, Option.bind_some]
  change replay ([] ++ ⟨code, kind :: blocks⟩ :: callers) after = none
  exact replay_excess onward

theorem completed (lacks : LacksPop events frames) :
    ∃ before kind depth after, events = before ++ after ∧
      replay [] (before ++ .blockPop kind depth :: after) = some frames := by
  obtain ⟨before, after, code, kind, blocks, callers, rfl, complete, onward⟩ := lacks
  refine ⟨before, kind, blocks.length, after, rfl, ?_⟩
  rw [replay_append, complete, Option.bind_some, replay_cons, ← onward]
  simp [Event.replay]

theorem counts (lacks : LacksPop events frames) :
    events.countP Event.isCall = frames.length + events.countP Event.isReturn := by
  obtain ⟨before, kind, depth, after, rfl, replayed⟩ := lacks.completed
  have counted := length_replay replayed
  simpa [List.countP_append, List.countP_cons, Event.isCall, Event.isReturn] using counted

end LacksPop

namespace Status

/-- The events of the run so far replay to its frames. -/
structure EventsReplay (status : Status) : Prop where
  numbered : Numbered (Phase.resting status).frames
  replays : replay [] status.world.events.toList = some (Phase.resting status).outlines

/-- The run has ended, and the event of one block is missing. -/
def EventsLackPop : Status → Prop
  | .finished (.error _) world => LacksPop world.events.toList []
  | _ => False

end Status

namespace Machine

variable {machine : Machine}

/-- The instruction raises a fatal exception, and the event of the block that it took off is missing. -/
theorem PopExceptFails.dispatch_lacks (fails : machine.PopExceptFails)
    (complete : (Status.running machine).EventsReplay) :
    ∃ passage, machine.dispatch = .passing passage ∧ passage.signal.Fatal ∧
      Numbered (Phase.passing passage).frames ∧
      LacksPop passage.active.world.events.toList (Phase.passing passage).outlines := by
  obtain ⟨active, callers⟩ := machine
  obtain ⟨instruction, a, fetched, opcode, standing, failure, after, run⟩ := fails
  obtain ⟨block, rest, standing⟩ := List.exists_cons_of_ne_nil standing
  rw [opcode] at run
  rcases execute_popExcept_reports instruction.operand standing with
    ⟨_, popped, _⟩ | ⟨fault, off, failed, fatal, ⟨stack, frame⟩, same⟩
  · cases run.symm.trans popped
  obtain ⟨depth, added, noted, replayed⟩ := fetch_reports fetched
  obtain ⟨kept, announced, raises, raised⟩ := off.raise_reports callers fault
  obtain ⟨numbered, replays⟩ := complete
  refine ⟨.ofFault callers fault off, ?_, ?_, ⟨?_, numbered.2⟩, ?_⟩
  · simp only [dispatch, fetched, opcode, failed, Passage.raise_eq]
  · rw [Passage.ofFault, Signal.Fatal, Active.raise_kind]
    exact fatal
  · rw [Passage.ofFault_frame, frame]
    exact depth.trans numbered.1
  · refine ⟨a.world.events.toList, announced, a.frame.code.name, block.kind, rest.map Block.kind,
      callers.map Frame.outline, by rw [← same]; exact raises, ?_, ?_⟩
    · have standing : a.frame.outline = ⟨a.frame.code.name, block.kind :: rest.map Block.kind⟩ := by
        rw [Frame.outline, standing, List.map_cons]
      rw [← standing, noted, replay_append, show replay [] active.world.events.toList = _ from replays]
      exact replayed _
    · have taken : off.frame.outline = ⟨a.frame.code.name, rest.map Block.kind⟩ := by rw [frame, Frame.outline]
      rw [← taken]
      exact raised _

/-- A step without its event ends the run. -/
theorem PopExceptFails.step_eventsLackPop (fails : machine.PopExceptFails)
    (complete : (Status.running machine).EventsReplay) : machine.step.EventsLackPop := by
  obtain ⟨passage, dispatched, fatal, numbered, lacks⟩ := fails.dispatch_lacks complete
  obtain ⟨final, world, _, settled⟩ := passage.settle_doomed fatal
  obtain ⟨_, added, noted, replayed⟩ := (Phase.passing passage).settle_replaysTo numbered
  rw [settled] at noted replayed
  rw [step, dispatched, settled, Status.EventsLackPop]
  exact noted ▸ lacks.append replayed

theorem step_eventsReplay (complete : (Status.running machine).EventsReplay) (tidy : ¬ machine.PopExceptFails)
    (ends : ∀ world, machine.dispatch ≠ .resting (.unending world)) : machine.step.EventsReplay := by
  have replaysTo := (dispatch_replaysTo ends tidy).trans machine.dispatch.settle_replaysTo
  obtain ⟨numbered, added, noted, replayed⟩ := replaysTo complete.numbered
  refine ⟨numbered, ?_⟩
  change replay [] (Phase.resting machine.dispatch.settle).world.events.toList = _
  rw [noted, replay_append]
  change (replay [] (Status.running machine).world.events.toList).bind _ = _
  rw [complete.replays]
  exact replayed

end Machine

namespace Status

/-- The machines from which at most `fuel` steps are taken. -/
def stepped : Nat → Status → List Machine
  | fuel + 1, .running machine => machine :: stepped fuel machine.step
  | _, _ => []

/-- The machines from which a host that makes these moves takes a step. -/
def steppedBy : List HostMove → Status → List Machine
  | [], _ => []
  | .advance fuel :: moves, status => status.stepped fuel ++ steppedBy moves (status.advance fuel)
  | move :: moves, status => steppedBy moves (status.move move)

/-- Either no `POP_EXCEPT` has failed and the events replay to the frames, or the last step was one that failed. -/
inductive Recorded (machines : List Machine) (status : Status) : Prop where
  | complete (tidy : ∀ machine ∈ machines, ¬ machine.PopExceptFails) (complete : status.EventsReplay)
  | lacking (failing : ∃ machine ∈ machines, machine.PopExceptFails) (lacking : status.EventsLackPop)

variable {status : Status} {machines : List Machine}

/-- Nothing happens without fuel or once the run has ended. -/
theorem advance_of_halted {status : Status} {fuel : Nat}
    (halted : fuel = 0 ∨ ∀ machine, status ≠ .running machine) :
    status.advance fuel = status ∧ status.stepped fuel = [] := by
  cases fuel with
  | zero => cases status <;> exact ⟨rfl, rfl⟩
  | succ fuel =>
      cases status with
      | running machine => exact absurd rfl (halted.resolve_left (Nat.succ_ne_zero fuel) machine)
      | finished outcome world | unending world => exact ⟨rfl, rfl⟩

theorem EventsLackPop.lacks (lacking : status.EventsLackPop) :
    (∃ raised world, status = .finished (.error raised) world) ∧ LacksPop status.world.events.toList [] := by
  cases status with
  | finished outcome world =>
      cases outcome with
      | error raised => exact ⟨⟨raised, world, rfl⟩, lacking⟩
      | ok value => cases lacking
  | running machine | unending world => cases lacking

theorem EventsReplay.advance (complete : status.EventsReplay) {fuel : Nat}
    (ends : ∀ world, status.advance fuel ≠ .unending world) : Recorded (status.stepped fuel) (status.advance fuel) := by
  have halts {status : Status} {fuel : Nat} (complete : status.EventsReplay)
      (halted : fuel = 0 ∨ ∀ machine, status ≠ .running machine) :
      Recorded (status.stepped fuel) (status.advance fuel) := by
    obtain ⟨same, none⟩ := advance_of_halted halted
    rw [same, none]
    exact .complete (List.forall_mem_nil _) complete
  induction fuel generalizing status with
  | zero => exact halts complete (.inl rfl)
  | succ fuel ih =>
      cases status with
      | finished outcome world | unending world => exact halts complete (.inr fun _ => by simp)
      | running machine =>
          by_cases fails : machine.PopExceptFails
          · have lacking := fails.step_eventsLackPop complete
            refine .lacking ⟨machine, List.mem_cons_self, fails⟩ ?_
            obtain ⟨⟨raised, world, ended⟩, _⟩ := lacking.lacks
            rwa [Status.advance, ended, advance_finished, ← ended]
          · have stepped := Machine.step_eventsReplay complete fails (Machine.dispatch_ends ends)
            cases ih stepped ends with
            | complete tidy complete => exact .complete (List.forall_mem_cons.mpr ⟨fails, tidy⟩) complete
            | lacking failing lacking =>
                obtain ⟨later, member, fails⟩ := failing
                exact .lacking ⟨later, List.mem_cons_of_mem _ member, fails⟩ lacking

theorem Recorded.advance (recorded : Recorded machines status) {fuel : Nat}
    (ends : ∀ world, status.advance fuel ≠ .unending world) :
    Recorded (machines ++ status.stepped fuel) (status.advance fuel) := by
  cases recorded with
  | complete tidy complete =>
      cases complete.advance ends with
      | complete later complete => exact .complete (List.forall_mem_append.mpr ⟨tidy, later⟩) complete
      | lacking failing lacking =>
          obtain ⟨machine, member, fails⟩ := failing
          exact .lacking ⟨machine, List.mem_append_right _ member, fails⟩ lacking
  | lacking failing lacking =>
      obtain ⟨⟨raised, world, rfl⟩, _⟩ := lacking.lacks
      obtain ⟨same, none⟩ := (finished (.error raised) world).advance_of_halted (.inr fun _ => by simp)
      rw [same, none, List.append_nil]
      exact .lacking failing lacking

theorem Recorded.mapWorld (recorded : Recorded machines status) {change : World → World}
    (same : ∀ world, (change world).events = world.events) : Recorded machines (status.mapWorld change) := by
  cases recorded with
  | complete tidy complete =>
      refine .complete tidy ?_
      obtain ⟨numbered, replays⟩ := complete
      have kept : (status.mapWorld change).world.events = status.world.events := by cases status <;> exact same _
      rw [← kept] at replays
      cases status <;> exact ⟨numbered, replays⟩
  | lacking failing lacking =>
      refine .lacking failing ?_
      obtain ⟨⟨raised, world, rfl⟩, lacks⟩ := lacking.lacks
      simpa only [Status.mapWorld, EventsLackPop, Status.world, same] using lacks

theorem Recorded.replays (recorded : Recorded machines status) (tidy : ∀ machine ∈ machines, ¬ machine.PopExceptFails) :
    replay [] status.world.events.toList = some (Phase.resting status).outlines := by
  cases recorded with
  | complete _ complete => exact complete.replays
  | lacking failing _ =>
      obtain ⟨machine, member, fails⟩ := failing
      exact absurd fails (tidy machine member)

theorem Recorded.lacks (recorded : Recorded machines status) (failing : ∃ machine ∈ machines, machine.PopExceptFails) :
    (∃ raised world, status = .finished (.error raised) world) ∧ LacksPop status.world.events.toList [] := by
  cases recorded with
  | complete tidy _ =>
      obtain ⟨machine, member, fails⟩ := failing
      exact absurd fails (tidy machine member)
  | lacking _ lacking => exact lacking.lacks

theorem Recorded.counts (recorded : Recorded machines status) :
    status.world.events.toList.countP Event.isCall =
      (Phase.resting status).frames.length + status.world.events.toList.countP Event.isReturn := by
  cases recorded with
  | complete _ complete => simpa [Phase.outlines] using length_replay complete.replays
  | lacking _ lacking =>
      obtain ⟨⟨raised, world, rfl⟩, lacks⟩ := lacking.lacks
      exact lacks.counts

theorem exists_moves_unending (moves : List HostMove) (world : World) :
    ∃ after, moves.foldl Status.move (.unending world) = .unending after := by
  induction moves generalizing world with
  | nil => exact ⟨world, rfl⟩
  | cons move moves ih =>
      cases move with
      | advance fuel => cases fuel <;> exact ih world
      | setElapsed elapsed | takePrinted => exact ih _

theorem Recorded.moves (recorded : Recorded machines status) {moves : List HostMove}
    (ends : ∀ world, moves.foldl Status.move status ≠ .unending world) :
    Recorded (machines ++ status.steppedBy moves) (moves.foldl Status.move status) := by
  induction moves generalizing status machines with
  | nil => rwa [steppedBy, List.append_nil]
  | cons move moves ih =>
      rw [List.foldl_cons] at ends ⊢
      cases move with
      | advance fuel =>
          have onward (world : World) : status.advance fuel ≠ .unending world := by
            intro stuck
            obtain ⟨after, unending⟩ := exists_moves_unending moves world
            exact ends after (by rw [Status.move, stuck, unending])
          rw [steppedBy, ← List.append_assoc]
          exact ih (recorded.advance onward) ends
      | setElapsed elapsed | takePrinted => exact ih (recorded.mapWorld fun _ => rfl) ends

end Status

theorem World.launch_eventsReplay (code : Code Value) (environment : Environment) (arguments : List Value)
    {world : World} (fresh : world.events = #[]) : (world.launch code environment arguments).EventsReplay := by
  unfold launch
  split
  · exact ⟨trivial, by simp [refuse, Status.world, fresh, Phase.outlines, Phase.frames]⟩
  · dsimp only
    split
    · exact ⟨trivial, by simp [refuse, Status.world, fresh, Phase.outlines, Phase.frames]⟩
    · refine ⟨⟨rfl, trivial⟩, ?_⟩
      simp [Status.world, emit, fresh, replay_cons, Event.replay, Phase.outlines, Phase.frames, Frame.outline]

theorem Status.mapWorld_frames (change : World → World) (status : Status) :
    (Phase.resting (status.mapWorld change)).frames = (Phase.resting status).frames := by
  cases status <;> rfl

/-- The recording of a run replays it. As long as no `POP_EXCEPT` fails, the events lead from no frame to the
frames of the run as it stands, with their blocks, and to none once it has ended. A `POP_EXCEPT` that takes a
block off and fails ends the run; its events cannot have happened, and only the one for that block is missing.
In any case each frame that is gone has returned once. -/
theorem recording_replays (code : Code Value) (environment : Environment) (arguments : List Value) (heap : Heap)
    (sink : Sink) (tracker : Tracker) (earlier : Array Event) (moves : List HostMove) (fuel : Nat) :
    let start := World.launch code environment arguments { heap, sink, tracker, events := #[] }
    let run := (moves.foldl Run.move ⟨start, .recording { events := earlier }⟩).advance fuel
    let machines := start.steppedBy (moves ++ [.advance fuel])
    (∀ world, run.status ≠ .unending world) →
    ∃ events : List Event, run.tracer = .recording { events := earlier ++ events.toArray } ∧
      ((∀ machine ∈ machines, ¬ machine.PopExceptFails) →
        replay [] events = some ((Phase.resting run.status).frames.map Frame.outline)) ∧
      ((∃ machine ∈ machines, machine.PopExceptFails) →
        (∃ raised world, run.status = .finished (.error raised) world) ∧ replay [] events = none ∧
          ∃ before kind depth after, events = before ++ after ∧
            replay [] (before ++ .blockPop kind depth :: after) = some []) ∧
      events.countP Event.isCall =
        (Phase.resting run.status).frames.length + events.countP Event.isReturn := by
  intro start run machines ends
  let unwatched := (moves.foldl Status.move start).advance fuel
  obtain ⟨seen, sees⟩ := (Run.watches_start (.recording { events := earlier }) start).moves moves
  have watches := sees.advance fuel
  have status : run.status = unwatched.mapWorld fun world => { world with events := #[] } := sees.advance_status fuel
  have moved : unwatched = (moves ++ [HostMove.advance fuel]).foldl Status.move start := by
    rw [List.foldl_append]
    rfl
  have recorded : Status.Recorded machines unwatched := by
    have launched : Status.Recorded [] start :=
      .complete (List.forall_mem_nil _) (World.launch_eventsReplay code environment arguments rfl)
    rw [moved]
    refine launched.moves fun world stuck => ends { world with events := #[] } ?_
    rw [status, moved, stuck, Status.mapWorld]
  refine ⟨unwatched.world.events.toList.map Event.recorded, ?_, ?_⟩
  · rw [watches.tracer, Tracer.observeAll_eq .recording fun _ _ => rfl, Recording.foldl_observe_appends]
  · rw [status, Status.mapWorld_frames, replay_recorded, Event.countP_recorded fun event => by cases event <;> rfl,
      Event.countP_recorded fun event => by cases event <;> rfl]
    refine ⟨recorded.replays, fun failing => ?_, recorded.counts⟩
    obtain ⟨⟨raised, world, ended⟩, lacks⟩ := recorded.lacks failing
    obtain ⟨before, kind, depth, after, events, completed⟩ := lacks.completed
    rw [ended]
    refine ⟨⟨raised, _, rfl⟩, ended ▸ lacks.not_replays, before.map Event.recorded, kind, depth,
      after.map Event.recorded, ?_, ?_⟩
    · rw [← ended, events, List.map_append]
    · rw [← completed, ← replay_recorded [] (before ++ _), List.map_append, List.map_cons]
      rfl

/-- A handler that ends and gives its exception back. -/
def handledRaise : Code Value :=
  { name := "handled", instructions := #[121, 6, 0, 100, 0, 0, 130, 1, 0, 89, 100, 1, 0, 83]
    constants := [.exceptionKind .valueError, .int 7], names := [], localSlots := [], argCount := 0 }

theorem recording_replays_handledRaise :
    let start := World.launch handledRaise default [] (.start (.ofLimits {}) {})
    let run := (⟨start, .recording {}⟩ : Run).advance 6
    ∃ events world, run.status = .finished (.ok (.int 7)) world ∧
      run.tracer = .recording { events := #[] ++ List.toArray events } ∧ replay [] events = some [] := by
  intro start run
  obtain ⟨world, ended⟩ : ∃ world, run.status = .finished (.ok (.int 7)) world := ⟨_, rfl⟩
  obtain ⟨events, recorded, replays, failing, _⟩ :=
    recording_replays handledRaise default [] .empty {} (.ofLimits {}) #[] [] 6 fun world => by
      change run.status ≠ _
      rw [ended]
      nofun
  refine ⟨events, world, ended, recorded, replays fun machine member fails => ?_⟩
  obtain ⟨⟨raised, after, failed⟩, _⟩ := failing ⟨machine, member, fails⟩
  cases ended.symm.trans failed

/-- A `POP_EXCEPT` that finds the block of a `finally`. -/
def popFinally : Code Value :=
  { name := "mislaid", instructions := #[122, 0, 0, 89], constants := [], names := [], localSlots := [], argCount := 0 }

/-- The block is taken off, and the recording does not say so. -/
theorem popFinally_not_replayed :
    let start := World.launch popFinally default [] (.start (.ofLimits {}) {})
    let run := (⟨start, .recording {}⟩ : Run).advance 2
    ∃ recording raised world, run.tracer = .recording recording ∧ run.status = .finished (.error raised) world ∧
      recording.events.toList = List.map Event.recorded
        [.call "mislaid" 1, .instruction 0 .setupFinally 0 1, .blockPush .finally 1, .instruction 3 .popExcept 0 1,
          .exception .systemError 1, .return 0] ∧
      replay [] recording.events.toList = none :=
  ⟨_, _, _, rfl, rfl, rfl, rfl⟩

end BlockVM
