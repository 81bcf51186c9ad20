import BlockVM.Proofs.CallStack
import BlockVM.Proofs.EngineRuns

namespace BlockVM

/-! # The call stack of the engine

Frames are kept in one list. Each knows its caller by number and the table of built-in names that it falls back to. -/

namespace Engine

theorem embedFrames_map {α : Type} {read : Frame → α} {field : BlockVM.Frame → α}
    (same : ∀ caller frame, read (frame.embed caller) = field frame) (frames : List BlockVM.Frame) :
    (embedFrames frames).map read = frames.map field := by
  induction frames with
  | nil => rfl
  | cons frame below ih => rw [embedFrames, List.map_cons, List.map_cons, same, ih]

/-- A frame has the number of the frames below it, and its caller the one before. -/
theorem embedFrames_caller {frames : List BlockVM.Frame} {number : Nat} {frame : Frame}
    (found : (embedFrames frames).reverse[number]? = some frame) :
    frame.caller = if number = 0 then none else some (number - 1) := by
  induction frames with
  | nil => cases found
  | cons running below ih =>
      rw [embedFrames, List.reverse_cons, List.getElem?_append, List.length_reverse, embedFrames_length] at found
      split at found
      · exact ih found
      · rename_i above
        obtain ⟨inside, rfl⟩ := List.getElem?_eq_some_iff.mp found
        obtain rfl : number = below.length := by
          rw [List.length_singleton] at inside
          omega
        cases below with
        | nil => simp [BlockVM.Frame.embed, callerOf]
        | cons caller rest => simp [BlockVM.Frame.embed, callerOf]

/-- The frame waits for a call to return. -/
structure Frame.Suspended (frame : Frame) : Prop where
  calls : ∃ instruction, frame.code.decodeAt frame.lastOffset = .ok instruction ∧ instruction.opcode = .callFunction
  next : frame.ip = frame.lastOffset + 3

/-- The next instruction calls a function, with arguments that fit its parameters. -/
structure Calling (engine : Engine) (instruction : Instruction Value) (after : Engine) (count : Nat) : Prop where
  fetched : Exec.fetch engine = .ok instruction after
  opcode : instruction.opcode = .callFunction
  operand : instruction.operand = .int count
  function : ∃ frame below id name code defaults bindings, engine.frames = frame :: below ∧
    frame.stack[count]? = some (.function id name code defaults) ∧
    code.bindArguments (frame.stack.take count).reverse defaults = .ok bindings

namespace Phase

def frames (phase : Phase) : List Frame :=
  match phase.engine? with
  | some engine => engine.frames
  | none => []

/-- The call stack in good order. Each frame but the root is called by the one below it. All have the same globals and
the same table of built-in names, and all but the running one wait at a call. A call beyond the limit is refused in the
frame that makes it. -/
structure WellStacked (environment : Environment) (limits : Limits) (phase : Phase) : Prop where
  bounded : phase.frames.length ≤ limits.recursionDepth
  callers : ∀ number frame, phase.frames.reverse[number]? = some frame →
    frame.caller = if number = 0 then none else some (number - 1)
  globals : ∀ frame ∈ phase.frames, frame.globals = environment.globals
  builtins : ∀ frame ∈ phase.frames, frame.builtins = .standard
  root : ∀ frame ∈ phase.frames.getLast?, frame.locals = environment.locals
  distinct : (phase.frames.map Frame.locals).Nodup
  own : ∀ frame ∈ phase.frames.dropLast, frame.locals ≠ environment.globals
  suspended : ∀ frame ∈ phase.frames.tail, frame.Suspended
  refused : ∀ engine instruction after count, phase = .stepping engine → engine.Calling instruction after count →
    engine.frames.length = limits.recursionDepth →
    ∃ caller below raised failed, after.frames = caller :: below ∧ phase.turn = .draining .raising failed ∧
      failed.frames = { caller with stack := caller.stack.drop (count + 1) } :: below ∧
      failed.pending = some raised ∧ raised.kind = .recursionError ∧ raised.kind.isFatal = false

variable {phase : BlockVM.Phase} {stale : Option Value} {environment : Environment} {limits : Limits}

theorem embed_frames : (phase.embed stale).frames = embedFrames phase.frames := by
  cases phase with
  | passing passage =>
      obtain ⟨signal, a, callers⟩ := passage
      cases signal <;> rfl
  | resting status => cases status <;> rfl

theorem embed_wellStacked (numbered : phase.Numbered) (stacked : phase.WellStacked environment limits) :
    (phase.embed stale).WellStacked environment limits := by
  have locals : (embedFrames phase.frames).map Frame.locals = phase.frames.map BlockVM.Frame.locals :=
    embedFrames_map (fun _ _ => rfl) phase.frames
  refine ⟨?_, ?_, ?_, ?_, ?_, ?_, ?_, ?_, ?_⟩
  all_goals try rw [embed_frames]
  · rw [embedFrames_length]
    exact stacked.bounded
  · exact fun number frame => embedFrames_caller
  · intro frame member
    obtain ⟨original, found, caller, rfl⟩ := mem_embedFrames member
    exact stacked.globals original found
  · intro frame member
    obtain ⟨original, found, caller, rfl⟩ := mem_embedFrames member
    rfl
  · intro frame last
    have same : (embedFrames phase.frames).getLast?.map Frame.locals = phase.frames.getLast?.map BlockVM.Frame.locals := by
      rw [← List.getLast?_map, locals, List.getLast?_map]
    rw [Option.mem_def.mp last] at same
    obtain ⟨original, found, shared⟩ := Option.map_eq_some_iff.mp same.symm
    rw [← shared]
    exact stacked.root original found
  · rw [locals]
    exact stacked.distinct
  · intro frame member
    have shared : frame.locals ∈ phase.frames.dropLast.map BlockVM.Frame.locals := by
      rw [List.map_dropLast, ← locals, ← List.map_dropLast]
      exact List.mem_map_of_mem member
    obtain ⟨original, found, same⟩ := List.mem_map.mp shared
    rw [← same]
    exact stacked.own original found
  · intro frame member
    have waits := stacked.suspended
    cases standing : phase.frames with
    | nil =>
        rw [standing] at member
        cases member
    | cons running below =>
        rw [standing] at member waits
        obtain ⟨original, found, caller, rfl⟩ := mem_embedFrames member
        exact ⟨(waits original found).calls, (waits original found).next⟩
  · intro engine instruction after count same calling full
    cases phase with
    | passing passage => cases same
    | resting status =>
        cases status with
        | finished outcome world | unending world => cases same
        | running machine =>
            cases same
            have depth := (numbered _ _ (.running _ _)).1
            obtain ⟨fetched, opcode, operand, frame, below, id, name, code, defaults, bindings, standing, found, bound⟩ :=
              calling
            obtain ⟨rfl, rfl⟩ := List.cons.inj standing
            rw [fetch_embed depth] at fetched
            rcases read : Machine.fetch machine.active with ⟨fault | decoded, b⟩
            all_goals
              rw [read] at fetched
              cases fetched
            have calls : machine.Calling instruction b count :=
              ⟨read, opcode, operand, id, name, code, defaults, bindings, found, bound⟩
            obtain ⟨raised, failed, dispatched, frame, kind, catchable⟩ :=
              stacked.refused machine instruction b count rfl calls ((embedFrames_length _).symm.trans full)
            refine ⟨b.frame.embed (callerOf machine.callers), embedFrames machine.callers, raised,
              (failed.under (.raise raised)).embed machine.callers stale, rfl, ?_, ?_, rfl, kind, catchable⟩
            · refine (step_embed depth).1.trans ?_
              rw [dispatched]
              rfl
            · change embedFrames (failed.frame :: machine.callers) = _
              rw [frame]
              rfl

end Phase

end Engine

/-- In every state of a run the call stack is in good order. -/
theorem call_stack_invariant (code : Code Value) (arguments : List Value) {environment : Environment}
    {world : World} (known : environment.Known world.heap) {phase : Engine.Phase}
    (reached : (world.boot code environment arguments).Runs phase) :
    phase.WellStacked environment world.tracker.limits := by
  rw [world.boot_embed] at reached
  have numbered := world.launch_numbered code environment arguments
  obtain ⟨state, stale, ran, rfl, -⟩ := reached.reflects numbered trivial
  have limits := ran.limits
  rw [show (Phase.resting (world.launch code environment arguments)).world.tracker = world.tracker from
    world.launch_tracker code environment arguments] at limits
  have stacked := (ran.stacked (world.launch_stacked code arguments known)).wellStacked
  rw [limits] at stacked
  exact Engine.Phase.embed_wellStacked (ran.inOrder numbered trivial).1 stacked

theorem call_stack_invariant_callOnce : ∃ engine,
    Engine.Phase.turn^[4] (twoFrames.boot callOnce ⟨⟨0⟩, ⟨0⟩⟩ []) = .stepping engine ∧ engine.frames.length = 2 ∧
      (Engine.Phase.stepping engine).WellStacked ⟨⟨0⟩, ⟨0⟩⟩ twoFrames.tracker.limits := by
  obtain ⟨engine, ran, called⟩ : ∃ engine,
      Engine.Phase.turn^[4] (twoFrames.boot callOnce ⟨⟨0⟩, ⟨0⟩⟩ []) = .stepping engine ∧ engine.frames.length = 2 :=
    ⟨_, rfl, rfl⟩
  have known : Environment.Known ⟨⟨0⟩, ⟨0⟩⟩ twoFrames.heap := ⟨by decide, by decide⟩
  have reached : (twoFrames.boot callOnce ⟨⟨0⟩, ⟨0⟩⟩ []).Runs (.stepping engine) :=
    ran ▸ Engine.Phase.Runs.iterate fun world => by rw [ran]; nofun
  exact ⟨engine, ran, called, call_stack_invariant callOnce [] known reached⟩

end BlockVM
