import BlockVM.Proofs.EngineRuns
import BlockVM.Proofs.Identity

namespace BlockVM

/-! # The engine in good order

No run of the engine comes upon an empty slot that it needs, a block without a target, an operand of the wrong sort or a
note of an exception under way. -/

open Value (AllRegistered allRegistered_cons allRegistered_nil)

theorem Value.Registered.signal {register : Register} {why : Interruption}
    (registered : (Value.signal why).Registered register) : why ≠ .raising := by
  rintro rfl
  cases registered with
  | atom atom => cases atom

mutual

theorem Heap.Reaches.untracked {heap : Heap} {roots : Value → Prop}
    (clean : ¬ heap.Reaches roots (.signal .raising)) : (v : Value) → heap.Reaches roots v → v.Registered .untracked
  | .tuple _ items, reached => .tuple trivial (untrackedList clean items fun _ member => .item reached member)
  | .function _ _ code defaults, reached =>
      .function (untrackedCode clean code fun _ member => .functionConstant reached member)
        (untrackedList clean defaults fun _ member => .default reached member)
  | .code _ code, reached => .code (untrackedCode clean code fun _ member => .constant reached member)
  | .str .., _ => .str trivial
  | .signal .raising, reached => absurd reached clean
  | .signal .returning, _ | .signal .breaking, _ | .signal (.continuing _), _ => .atom rfl
  | .nothing, _ | .bool _, _ | .int _, _ | .float _, _ | .list _, _ | .range _, _ | .iterator _, _ | .builtin _, _
  | .exceptionKind _, _ | .exception _, _ | .traceback _, _ => .atom rfl

theorem Heap.Reaches.untrackedList {heap : Heap} {roots : Value → Prop}
    (clean : ¬ heap.Reaches roots (.signal .raising)) :
    (values : List Value) → (∀ v ∈ values, heap.Reaches roots v) → AllRegistered .untracked values
  | [], _ => allRegistered_nil
  | v :: values, reached =>
      allRegistered_cons.mpr ⟨untracked clean v (reached v List.mem_cons_self),
        untrackedList clean values fun v member => reached v (List.mem_cons_of_mem _ member)⟩

theorem Heap.Reaches.untrackedCode {heap : Heap} {roots : Value → Prop}
    (clean : ¬ heap.Reaches roots (.signal .raising)) :
    (code : Code Value) → (∀ v ∈ code.constants, heap.Reaches roots v) → AllRegistered .untracked code.constants
  | ⟨_, _, constants, _, _, _⟩, reached => untrackedList clean constants reached

end

theorem Heap.Reaches.untrackedHeap {heap : Heap} {roots : Value → Prop}
    (clean : ¬ heap.Reaches roots (.signal .raising)) : heap.Registered .untracked where
  born := trivial
  lists items member := by
    obtain ⟨index, inside, rfl⟩ := Array.mem_iff_getElem.mp member
    refine untrackedList clean _ fun v listed => .listed ⟨index⟩ ?_
    rwa [Heap.items, Array.getD_eq_getD_getElem?, Array.getElem?_eq_getElem inside]
  cursors cursor member := by
    obtain ⟨index, inside, rfl⟩ := Array.mem_iff_getElem.mp member
    cases stands : heap.cursors[index] with
    | items rest =>
        refine untrackedList clean _ fun v listed => .awaited ⟨index⟩ ?_ listed
        rwa [Heap.cursor, Array.getD_eq_getD_getElem?, Array.getElem?_eq_getElem inside]
    | _ => trivial
  spaces space member := by
    obtain ⟨index, inside, rfl⟩ := Array.mem_iff_getElem.mp member
    refine untrackedList clean _ fun v listed => ?_
    obtain ⟨⟨name, _⟩, found, rfl⟩ := List.mem_map.mp listed
    refine @bound heap roots _ name ⟨index⟩ ?_
    rwa [Heap.space, Array.getD_eq_getD_getElem?, Array.getElem?_eq_getElem inside]

theorem Later.untracked {holds : Register → Prop} (later : Later .untracked holds) : holds .untracked := by
  obtain ⟨more, grown, held⟩ := later
  cases grown
  exact held

namespace Phase

theorem Turn.registered {before after : Phase} (turn : Turn before after) (known : before.Registered .untracked) :
    after.Registered .untracked := by
  cases turn with
  | dispatch machine ends => exact (Machine.dispatch_registered known).untracked
  | signal passage => exact (Passage.step_registered known).untracked
  | host machine heap limits =>
      obtain ⟨⟨world, frame, recovered⟩, callers⟩ := machine
      exact ⟨⟨Eq.mpr (congrArg (Heap.Registered .untracked) heap) known.active.heap, known.active.frame⟩, known.callers⟩

theorem Runs.registered {first phase : Phase} (ran : first.Runs phase) (known : first.Registered .untracked) :
    phase.Registered .untracked := by
  induction ran with
  | refl => exact known
  | tail _ turn ih => exact turn.registered ih

end Phase

namespace Engine.Phase

/-- The values in the frames of the engine or in its slot for a return value, or the one that a run ended with. -/
def Roots : Phase → Value → Prop
  | .stepping engine, v | .draining _ engine, v =>
      engine.returned = some v ∨ ∃ frame ∈ engine.frames, v ∈ frame.stack ∨ v ∈ frame.code.constants
  | .finished outcome _, v => outcome = .ok v
  | .unending _, _ => False

/-- The engine in good order. It has a frame to run in; an exception that is under way is in its slot, and so is a value
that a frame returns; each block but that of a running handler has a target; no value notes an exception under way;
operands are of the sort that the opcode calls for; and no fault is an internal one. -/
structure Coherent (phase : Phase) : Prop where
  frames : ∀ engine ∈ phase.engine?, engine.frames ≠ []
  pending : ∀ engine, phase = .draining .raising engine → engine.pending.isSome = true
  returned : ∀ engine, phase = .draining .returning engine → engine.returned.isSome = true
  targets : ∀ engine ∈ phase.engine?, ∀ frame ∈ engine.frames, ∀ block ∈ frame.blocks,
    (block.target.isSome = true ↔ block.kind ≠ .exceptHandler)
  signals : ∀ why, phase.world.heap.Reaches phase.Roots (.signal why) → why ≠ .raising
  operands : ∀ engine instruction after, phase = .stepping engine → Exec.fetch engine = .ok instruction after →
    instruction.operand.Fits instruction.opcode.operandClass
  faults : ∀ fault after, phase.attempt? = some (.error (.raised fault) after) → fault.isInternal = false

variable {phase : BlockVM.Phase} {stale : Option Value}

theorem embed_ordinary (numbered : phase.Numbered) (regular : phase.Regular) {fault : Fault} {after : Engine}
    (failed : (phase.embed stale).attempt? = some (.error (.raised fault) after)) : fault.isInternal = false := by
  cases phase with
  | passing passage =>
      obtain ⟨later, -, -, ordinary⟩ := @drain_embed stale passage (numbered _ _ (.passing _ _ _)) regular
      rw [Option.some_inj.mp failed] at ordinary
      exact ordinary.1
  | resting status =>
      cases status with
      | running machine =>
          have ordinary := (@step_embed stale machine (numbered _ _ (.running _ _)).1).2
          rw [Option.some_inj.mp failed] at ordinary
          exact ordinary.1
      | finished outcome world | unending world => cases failed

theorem embedFrames_registered {a : Active} {callers : List BlockVM.Frame} (active : a.Registered .untracked)
    (waiting : AllFramesRegistered .untracked callers) {v : Value}
    (held : ∃ frame ∈ embedFrames (a.frame :: callers), v ∈ frame.stack ∨ v ∈ frame.code.constants) :
    v.Registered .untracked := by
  obtain ⟨frame, member, held⟩ := held
  obtain ⟨original, found, caller, rfl⟩ := mem_embedFrames member
  have known : original.Registered .untracked := by
    rcases List.mem_cons.mp found with rfl | lower
    · exact active.frame
    · exact waiting original lower
  exact held.elim (known.stack v) (known.constants v)

theorem embed_roots (known : phase.Registered .untracked) (slot : ∀ value ∈ stale, value.Registered .untracked)
    {v : Value} (root : (phase.embed stale).Roots v) : v.Registered .untracked := by
  cases phase with
  | passing passage =>
      obtain ⟨signal, a, callers⟩ := passage
      obtain ⟨under, active, waiting⟩ := known
      rcases root with returned | held
      · cases signal with
        | «return» value =>
            cases returned
            exact under
        | «break» | «continue» target | «raise» raised => exact slot v returned
      · rw [Active.embed, Active.under_frame] at held
        exact embedFrames_registered active waiting held
  | resting status =>
      cases status with
      | running machine =>
          rcases root with returned | held
          · exact slot v returned
          · exact embedFrames_registered known.active known.callers held
      | finished outcome world =>
          cases root
          exact known.1
      | unending world => cases root

theorem embed_heap (known : phase.Registered .untracked) : (phase.embed stale).world.heap.Registered .untracked := by
  cases phase with
  | passing passage =>
      obtain ⟨signal, a, callers⟩ := passage
      cases signal <;> exact known.2.1.heap
  | resting status =>
      cases status with
      | running machine => exact known.active.heap
      | finished outcome world => exact known.2
      | unending world => exact known

/-- A state of the machine is one of the engine in good order. -/
theorem embed_coherent (numbered : phase.Numbered) (regular : phase.Regular) (known : phase.Registered .untracked)
    (slot : ∀ value ∈ stale, value.Registered .untracked) : (phase.embed stale).Coherent where
  frames engine held := by
    obtain ⟨a, callers, -, frames⟩ := embed_engine? held
    rw [frames]
    nofun
  pending engine same := by
    cases phase with
    | passing passage =>
        obtain ⟨signal, a, callers⟩ := passage
        cases signal <;> cases same
        rfl
    | resting status => cases status <;> cases same
  returned engine same := by
    cases phase with
    | passing passage =>
        obtain ⟨signal, a, callers⟩ := passage
        cases signal <;> cases same
        rfl
    | resting status => cases status <;> cases same
  targets engine held frame member block standing := by
    obtain ⟨a, callers, -, frames⟩ := embed_engine? held
    rw [frames] at member
    obtain ⟨original, -, caller, rfl⟩ := mem_embedFrames member
    obtain ⟨former, -, rfl⟩ := List.mem_map.mp standing
    exact former.target?_isSome
  signals why reached :=
    (reached.registered (embed_heap known) fun _ root => embed_roots known slot root).signal
  operands engine instruction after same fetched := by
    cases phase with
    | passing passage => cases same
    | resting status =>
        cases status with
        | finished outcome world | unending world => cases same
        | running machine =>
            cases same
            rw [fetch_embed (numbered _ _ (.running _ _)).1] at fetched
            rcases read : Machine.fetch machine.active with ⟨fault | decoded, b⟩
            all_goals
              rw [read] at fetched
              cases fetched
            exact Machine.fetch_fits read
  faults fault after failed := embed_ordinary numbered regular failed

end Engine.Phase

/-- No run of the engine, whatever its code, comes upon an internal fault. -/
theorem run_coherent (code : Code Value) (environment : Environment) (arguments : List Value) (world : World)
    (clean : ¬ world.heap.Reaches (fun v => v ∈ arguments ∨ v ∈ code.constants) (.signal .raising))
    {phase : Engine.Phase} (reached : (world.boot code environment arguments).Runs phase) : phase.Coherent := by
  rw [world.boot_embed] at reached
  have numbered := world.launch_numbered code environment arguments
  have known : (Phase.resting (world.launch code environment arguments)).Registered .untracked :=
    (World.launch_registered environment (Heap.Reaches.untrackedHeap clean)
      (Heap.Reaches.untrackedList clean _ fun _ member => .root (.inr member))
      (Heap.Reaches.untrackedList clean _ fun _ member => .root (.inl member))).untracked
  obtain ⟨state, stale, ran, rfl, slotted⟩ := reached.reflects numbered trivial
  obtain ⟨inOrder, regular⟩ := ran.inOrder numbered trivial
  refine Engine.Phase.embed_coherent inOrder regular (ran.registered known) fun value held => ?_
  obtain ⟨a, callers, returned⟩ := slotted value held
  exact (Phase.Runs.registered returned known).1

/-- A loop is continued from inside a `finally` block. -/
def guardedContinue : Code Value :=
  { name := "guarded", instructions := #[120, 6, 0, 122, 3, 0, 119, 6, 0], constants := [], names := []
    localSlots := [], argCount := 0 }

theorem run_coherent_continue : ∃ target engine,
    Engine.Phase.turn^[3] ((default : World).boot guardedContinue default []) = .draining (.continuing target) engine ∧
      Engine.Phase.Coherent (.draining (.continuing target) engine) := by
  obtain ⟨target, engine, ran⟩ : ∃ target engine,
      Engine.Phase.turn^[3] ((default : World).boot guardedContinue default []) =
        .draining (.continuing target) engine := ⟨_, _, rfl⟩
  have reached : ((default : World).boot guardedContinue default []).Runs (.draining (.continuing target) engine) :=
    ran ▸ Engine.Phase.Runs.iterate fun world => by rw [ran]; nofun
  refine ⟨target, engine, ran, run_coherent guardedContinue default [] default ?_ reached⟩
  intro marked
  have known : (Value.signal .raising).Registered .untracked :=
    marked.registered ⟨trivial, nofun, nofun, nofun⟩ (by simp [guardedContinue])
  exact known.signal rfl

end BlockVM
