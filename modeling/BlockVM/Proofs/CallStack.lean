import BlockVM.Proofs.FrameChanges

namespace BlockVM

/-! The call stack of a run. Every frame but the running one waits at a call, all share the globals of
the environment, and no two share their locals. -/

/-- The frame waits for a call to return. -/
structure Frame.Suspended (frame : Frame) : Prop where
  calls : ∃ instruction, frame.code.decodeAt frame.lastOffset = .ok instruction ∧
    instruction.opcode = .callFunction
  next : frame.ip = frame.lastOffset + 3

theorem Active.Calls.suspended {machine : Machine} {instruction : Instruction Value} {a b : Active}
    {callee : Frame} {count : Nat} (calls : a.Calls count callee b)
    (fetched : Machine.fetch machine.active = (.ok instruction, a)) (opcode : instruction.opcode = .callFunction)
    (operand : instruction.operand = .int count) : b.frame.Suspended := by
  obtain ⟨decoded, -, frame⟩ := Machine.fetch_spec fetched
  rw [calls.waits, frame]
  exact ⟨⟨instruction, decoded, opcode⟩, (Code.decodeAt_next decoded).2 (by rw [operand]; nofun)⟩

inductive CallStack (environment : Environment) : List Frame → Prop where
  | root {frame : Frame} (globals : frame.globals = environment.globals)
      (locals : frame.locals = environment.locals) (depth : frame.depth = 1) : CallStack environment [frame]
  | call {callee caller : Frame} {rest : List Frame} (below : CallStack environment (caller :: rest))
      (suspended : caller.Suspended) (globals : callee.globals = environment.globals)
      (apart : ∀ frame ∈ caller :: rest, callee.locals ≠ frame.locals)
      (own : callee.locals ≠ environment.globals) (depth : callee.depth = caller.depth + 1) :
      CallStack environment (callee :: caller :: rest)

namespace CallStack

variable {environment : Environment} {frame other : Frame} {callers frames : List Frame}

theorem replace (stack : CallStack environment (frame :: callers)) (globals : other.globals = frame.globals)
    (locals : other.locals = frame.locals) (depth : other.depth = frame.depth) :
    CallStack environment (other :: callers) := by
  cases stack with
  | root rootGlobals rootLocals rootDepth =>
      exact .root (globals.trans rootGlobals) (locals.trans rootLocals) (depth.trans rootDepth)
  | call below suspended calleeGlobals apart own calleeDepth =>
      refine .call below suspended (globals.trans calleeGlobals) ?_ ?_ (depth.trans calleeDepth)
      · rwa [locals]
      · rwa [locals]

theorem replace_anchored {a b : Active} (stack : CallStack environment (a.frame :: callers))
    (anchored : a.Anchored b) : CallStack environment (b.frame :: callers) :=
  stack.replace anchored.globals anchored.locals anchored.depth

theorem tail {caller : Frame} {rest : List Frame} (stack : CallStack environment (frame :: caller :: rest)) :
    CallStack environment (caller :: rest) := by
  cases stack
  assumption

theorem depth_eq (stack : CallStack environment (frame :: callers)) : frame.depth = callers.length + 1 := by
  induction callers generalizing frame with
  | nil =>
      cases stack
      assumption
  | cons caller rest ih =>
      cases stack with
      | call below suspended globals apart own depth => rw [depth, ih below, List.length_cons]

theorem of_suffix (stack : CallStack environment frames) (inside : (frame :: callers) <:+ frames) :
    CallStack environment (frame :: callers) := by
  induction stack with
  | root globals locals depth =>
      rcases List.suffix_cons_iff.mp inside with same | short
      · obtain ⟨rfl, rfl⟩ := List.cons.inj same
        exact .root globals locals depth
      · cases List.eq_nil_of_suffix_nil short
  | call below suspended globals apart own depth ih =>
      rcases List.suffix_cons_iff.mp inside with same | short
      · obtain ⟨rfl, rfl⟩ := List.cons.inj same
        exact .call below suspended globals apart own depth
      · exact ih short

theorem globals_eq (stack : CallStack environment frames) :
    ∀ frame ∈ frames, frame.globals = environment.globals := by
  induction stack with
  | root globals locals depth => simpa using globals
  | call below suspended globals apart own depth ih => exact List.forall_mem_cons.mpr ⟨globals, ih⟩

theorem root_locals (stack : CallStack environment frames) :
    ∀ root ∈ frames.getLast?, root.locals = environment.locals := by
  induction stack with
  | root globals locals depth => simpa using locals
  | call below suspended globals apart own depth ih => rwa [List.getLast?_cons_cons]

theorem nodup_locals (stack : CallStack environment frames) : (frames.map Frame.locals).Nodup := by
  induction stack with
  | root globals locals depth => simp
  | call below suspended globals apart own depth ih =>
      rw [List.map_cons, List.nodup_cons]
      refine ⟨?_, ih⟩
      intro shared
      obtain ⟨frame, member, same⟩ := List.mem_map.mp shared
      exact apart frame member same.symm

theorem own_locals (stack : CallStack environment frames) :
    ∀ frame ∈ frames.dropLast, frame.locals ≠ environment.globals := by
  induction stack with
  | root globals locals depth => simp
  | call below suspended globals apart own depth ih =>
      rw [List.dropLast_cons_cons]
      exact List.forall_mem_cons.mpr ⟨own, ih⟩

theorem suspended_tail (stack : CallStack environment frames) : ∀ frame ∈ frames.tail, frame.Suspended := by
  induction stack with
  | root globals locals depth => simp
  | call below suspended globals apart own depth ih => exact List.forall_mem_cons.mpr ⟨suspended, ih⟩

end CallStack

/-- The namespaces of an environment are in the heap. -/
structure Environment.Known (environment : Environment) (heap : Heap) : Prop where
  globals : environment.globals.index < heap.namespaces.size
  locals : environment.locals.index < heap.namespaces.size

/-- What each turn preserves. The namespaces in use are in the heap, so that a new one is none of
them. -/
structure Stacked (environment : Environment) (a : Active) (callers : List Frame) : Prop where
  stack : CallStack environment (a.frame :: callers)
  globals : environment.globals.index < a.world.heap.namespaces.size
  locals : ∀ frame ∈ a.frame :: callers, frame.locals.index < a.world.heap.namespaces.size
  bounded : callers.length < a.world.tracker.limits.recursionDepth

namespace Stacked

variable {environment : Environment} {a b : Active} {callers : List Frame}

theorem within (stacked : Stacked environment a callers) (anchored : a.Anchored b)
    (limits : b.world.tracker.limits = a.world.tracker.limits) : Stacked environment b callers := by
  have grows := anchored.spaces.grows
  refine ⟨stacked.stack.replace_anchored anchored, Nat.lt_of_lt_of_le stacked.globals grows, ?_, ?_⟩
  · obtain ⟨top, rest⟩ := List.forall_mem_cons.mp stacked.locals
    refine List.forall_mem_cons.mpr ⟨?_, fun frame member => Nat.lt_of_lt_of_le (rest frame member) grows⟩
    rw [anchored.locals]
    exact Nat.lt_of_lt_of_le top grows
  · rw [limits]
    exact stacked.bounded

theorem into {machine : Machine} {instruction : Instruction Value} {callee : Frame} {count : Nat}
    (stacked : Stacked environment machine.active machine.callers)
    (fetched : Machine.fetch machine.active = (.ok instruction, a)) (opcode : instruction.opcode = .callFunction)
    (operand : instruction.operand = .int count) (calls : a.Calls count callee b) (anchored : a.Anchored b)
    (limits : b.world.tracker.limits = machine.active.world.tracker.limits) :
    Stacked environment { b with frame := callee } (b.frame :: machine.callers) := by
  obtain ⟨-, heap, frame⟩ := Machine.fetch_spec fetched
  have waiting := stacked.within ((Machine.fetch_anchored fetched).trans anchored) limits
  obtain ⟨id, name, defaults, bindings, _, _, pushed⟩ := calls.function
  have size : b.world.heap.namespaces.size = machine.active.world.heap.namespaces.size + 1 := by
    rw [pushed, Array.size_push, heap]
  have calleeLocals : callee.locals = ⟨machine.active.world.heap.namespaces.size⟩ := by
    rw [calls.starts, heap]
  have callerLocals : b.frame.locals = machine.active.frame.locals := by
    rw [calls.waits, frame]
  -- References are never reused, so the locals of the callee are none of these.
  have older : ∀ frame ∈ b.frame :: machine.callers,
      frame.locals.index < machine.active.world.heap.namespaces.size := by
    obtain ⟨top, rest⟩ := List.forall_mem_cons.mp stacked.locals
    exact List.forall_mem_cons.mpr ⟨callerLocals ▸ top, rest⟩
  refine ⟨.call waiting.stack (calls.suspended fetched opcode operand) ?_ ?_ ?_ ?_, waiting.globals, ?_, ?_⟩
  · have shared := stacked.stack.globals_eq _ List.mem_cons_self
    rw [calls.starts, frame]
    exact shared
  · intro frame member same
    have known := older frame member
    rw [← same, calleeLocals] at known
    exact Nat.lt_irrefl _ known
  · intro same
    have known := stacked.globals
    rw [← same, calleeLocals] at known
    exact Nat.lt_irrefl _ known
  · rw [calls.starts, calls.waits]
  · refine List.forall_mem_cons.mpr ⟨?_, waiting.locals⟩
    simp only [calleeLocals, size]
    exact Nat.lt_succ_self _
  · have depth := stacked.stack.depth_eq
    have admitted := calls.admitted
    rw [Machine.fetch_tracker fetched, Tracker.count_limits, ← limits, frame, depth] at admitted
    exact admitted

theorem back {caller : Frame} {rest : List Frame} (stacked : Stacked environment a (caller :: rest))
    (resumed : ∃ stack, b.frame = { caller with stack })
    (spared : b.world.heap.namespaces = a.world.heap.namespaces)
    (limits : b.world.tracker.limits = a.world.tracker.limits) : Stacked environment b rest := by
  obtain ⟨stack, resumed⟩ := resumed
  have below := (List.forall_mem_cons.mp stacked.locals).2
  have locals : b.frame.locals = caller.locals := by rw [resumed]
  refine ⟨stacked.stack.tail.replace (by rw [resumed]) locals (by rw [resumed]), ?_, ?_, ?_⟩
  · rw [spared]
    exact stacked.globals
  · rw [spared]
    obtain ⟨top, rest⟩ := List.forall_mem_cons.mp below
    exact List.forall_mem_cons.mpr ⟨locals ▸ top, rest⟩
  · rw [limits]
    exact Nat.lt_of_succ_lt stacked.bounded

end Stacked

namespace Phase

def Stacked (environment : Environment) (phase : Phase) : Prop :=
  ∀ a callers, phase.Holds a callers → BlockVM.Stacked environment a callers

theorem Turn.stacked {environment : Environment} {before after : Phase} (turn : Turn before after)
    (stacked : before.Stacked environment) : after.Stacked environment := by
  intro b callers holds
  have limits := turn.limits
  rw [holds.world] at limits
  cases turn.shifts with
  | within held kept anchored =>
      obtain ⟨rfl, rfl⟩ := holds.unique kept
      rw [held.world] at limits
      exact (stacked _ _ held).within anchored limits
  | into running fetched opcode operand calls anchored =>
      subst running
      cases holds
      exact (stacked _ _ (.running _ _)).into fetched opcode operand calls anchored limits
  | back passing empty waiting exits kept resumed spared =>
      subst passing
      obtain ⟨rfl, rfl⟩ := holds.unique kept
      have left := stacked _ _ (.passing _ _ _)
      rw [waiting] at left
      exact left.back resumed spared limits
  | finished passing last ended =>
      rw [holds.frames] at ended
      cases ended

theorem Runs.stacked {environment : Environment} {before after : Phase} (ran : before.Runs after)
    (stacked : before.Stacked environment) : after.Stacked environment := by
  induction ran with
  | refl => exact stacked
  | tail _ turn ih => exact turn.stacked ih

theorem Runs.limits {before after : Phase} (ran : before.Runs after) :
    after.world.tracker.limits = before.world.tracker.limits := by
  induction ran with
  | refl => rfl
  | tail _ turn ih => exact turn.limits.trans ih

end Phase

theorem World.launch_stacked (code : Code Value) (arguments : List Value) {environment : Environment}
    {world : World} (known : environment.Known world.heap) :
    (Phase.resting (world.launch code environment arguments)).Stacked environment := by
  intro a callers holds
  unfold launch at holds
  split at holds
  · cases holds
  · dsimp only at holds
    split at holds
    · cases holds
    · rename_i admitted
      cases holds
      refine ⟨.root rfl rfl rfl, ?_, ?_, Tracker.lt_of_checkCall admitted⟩
      · simpa [World.emit] using known.globals
      · simpa [World.emit] using known.locals

namespace Machine

/-- The next instruction calls a function, with arguments that fit its parameters. -/
structure Calling (machine : Machine) (instruction : Instruction Value) (a : Active) (count : Nat) : Prop where
  fetched : fetch machine.active = (.ok instruction, a)
  opcode : instruction.opcode = .callFunction
  operand : instruction.operand = .int count
  function : ∃ id name code defaults bindings,
    machine.active.frame.stack[count]? = some (.function id name code defaults) ∧
    code.bindArguments (machine.active.frame.stack.take count).reverse defaults = .ok bindings

/-- A call beyond the depth limit takes the function and its arguments off and raises in the frame of
the caller. -/
theorem dispatch_refused {machine : Machine} {instruction : Instruction Value} {a : Active} {count : Nat}
    (calling : machine.Calling instruction a count)
    (full : machine.active.world.tracker.limits.recursionDepth ≤ machine.active.frame.depth) :
    machine.dispatch = .passing (.ofFault machine.callers
      (.limit (.callDepth machine.active.world.tracker.limits.recursionDepth)) (a.discard (count + 1))) := by
  obtain ⟨fetched, opcode, operand, id, name, code, defaults, bindings, found, bound⟩ := calling
  obtain ⟨decoded, heap, frame⟩ := fetch_spec fetched
  have stack : a.frame.stack = machine.active.frame.stack := by rw [frame]
  have refused : a.world.tracker.checkCall a.frame.depth =
      .error (.callDepth machine.active.world.tracker.limits.recursionDepth) := by
    rw [frame, fetch_tracker fetched, Tracker.checkCall, Tracker.count_limits, if_pos full]
  have run : execute instruction.opcode instruction.operand a = .error
      (.raised (.limit (.callDepth machine.active.world.tracker.limits.recursionDepth)))
      (a.discard (count + 1)) := by
    rw [opcode, operand]
    change Exec.callFunction count a = _
    rw [← stack] at found bound
    rw [Exec.callFunction_found found]
    change Exec.enter code _ defaults _ = _
    rw [Exec.enter_eq, bound]
    dsimp only [Active.discard]
    rw [refused]
  obtain ⟨active, callers⟩ := machine
  simp only [dispatch, fetched, run, Passage.raise_eq]

end Machine

/-- The call stack in good order. Frames are numbered from the root, all but the running one wait at a
call, and a call beyond the limit is refused in the frame that makes it. -/
structure Phase.WellStacked (environment : Environment) (limits : Limits) (phase : Phase) : Prop where
  bounded : phase.frames.length ≤ limits.recursionDepth
  depth : ∀ frame callers, (frame :: callers) <:+ phase.frames → frame.depth = callers.length + 1
  globals : ∀ frame ∈ phase.frames, frame.globals = environment.globals
  root : ∀ frame ∈ phase.frames.getLast?, frame.locals = environment.locals
  distinct : (phase.frames.map Frame.locals).Nodup
  own : ∀ frame ∈ phase.frames.dropLast, frame.locals ≠ environment.globals
  suspended : ∀ frame ∈ phase.frames.tail, frame.Suspended
  refused : ∀ machine instruction a count, phase = .resting (.running machine) →
    machine.Calling instruction a count → phase.frames.length = limits.recursionDepth →
    ∃ raised after, machine.dispatch = .passing ⟨.raise raised, after, machine.callers⟩ ∧
      after.frame = (a.discard (count + 1)).frame ∧ raised.kind = .recursionError ∧ raised.kind.isFatal = false

theorem Phase.Stacked.wellStacked {environment : Environment} {phase : Phase}
    (stacked : phase.Stacked environment) : phase.WellStacked environment phase.world.tracker.limits := by
  by_cases held : ∃ a callers, phase.Holds a callers
  · obtain ⟨a, callers, holds⟩ := held
    obtain ⟨stack, _, _, bounded⟩ := stacked a callers holds
    have frames := holds.frames
    refine ⟨?_, ?_, ?_, ?_, ?_, ?_, ?_, ?_⟩
    · rw [frames, holds.world]
      exact bounded
    · intro frame below inside
      exact (stack.of_suffix (frames ▸ inside)).depth_eq
    · exact frames ▸ stack.globals_eq
    · exact frames ▸ stack.root_locals
    · exact frames ▸ stack.nodup_locals
    · exact frames ▸ stack.own_locals
    · exact frames ▸ stack.suspended_tail
    · -- The stack is full, so the call is refused by an exception that can be handled.
      rintro machine instruction a count rfl calling full
      obtain ⟨rfl, rfl⟩ := holds.unique (.running machine.active machine.callers)
      have dispatched := Machine.dispatch_refused calling (by rw [stack.depth_eq]; exact full.ge)
      refine ⟨_, _, dispatched, Active.raise_frame _ _ _, Active.raise_kind _ _ _, ?_⟩
      rw [Active.raise_kind]
      rfl
  · -- Nothing runs any more, so there is no frame.
    have empty : phase.frames = [] := by
      cases phase with
      | passing passage => exact absurd ⟨_, _, .passing _ _ _⟩ held
      | resting status =>
          cases status with
          | running machine => exact absurd ⟨_, _, .running _ _⟩ held
          | finished outcome world | unending world => rfl
    refine ⟨?_, ?_, ?_, ?_, ?_, ?_, ?_, ?_⟩
    all_goals rw [empty]
    · exact Nat.zero_le _
    · intro frame callers inside
      cases List.eq_nil_of_suffix_nil inside
    · simp
    · simp
    · simp
    · simp
    · simp
    · rintro machine instruction a count rfl
      cases empty

/-- A module that makes a function and calls it. -/
def callOnce : Code Value :=
  let callee : Code Value :=
    { name := "seven", instructions := #[100, 0, 0, 83], constants := [.int 7], names := [], localSlots := []
      argCount := 0 }
  { name := "module", instructions := #[100, 0, 0, 100, 1, 0, 132, 0, 0, 131, 0, 0, 83]
    constants := [.code 0 callee, .str 1 "seven"], names := [], localSlots := [], argCount := 0 }

/-- A fresh module, with room for two frames. -/
def twoFrames : World :=
  { (default : World) with
    heap := (Environment.newModule .empty).2, tracker := .ofLimits { maxRecursionDepth := some 2 } }

end BlockVM
