import BlockVM.Proofs.EngineUnwinding
import BlockVM.Proofs.FrameChanges

namespace BlockVM

/-! # Runs of the engine

Every state that the engine comes to from its start is a state of the machine, so what holds of all runs of the machine
holds of all runs of the engine: no slot is empty that is needed, and no internal fault is raised. -/

namespace Phase

def Numbered (phase : Phase) : Prop :=
  ∀ a callers, phase.Holds a callers → BlockVM.Numbered (a.frame :: callers)

theorem Turn.numbered {before after : Phase} (turn : Turn before after) (numbered : before.Numbered) :
    after.Numbered := by
  intro b callers holds
  cases turn.shifts with
  | within held kept anchored =>
      obtain ⟨rfl, rfl⟩ := holds.unique kept
      obtain ⟨depth, below⟩ := numbered _ _ held
      exact ⟨anchored.depth.trans depth, below⟩
  | into running fetched opcode operand calls anchored =>
      subst running
      cases holds
      obtain ⟨depth, below⟩ := numbered _ _ (.running _ _)
      have waits := ((Machine.fetch_anchored fetched).trans anchored).depth.trans depth
      refine ⟨?_, waits, below⟩
      rw [calls.starts, ← anchored.depth, waits, List.length_cons]
  | back passing empty waiting exits kept resumed spared =>
      subst passing
      obtain ⟨rfl, rfl⟩ := holds.unique kept
      obtain ⟨-, below⟩ := numbered _ _ (.passing _ _ _)
      rw [waiting] at below
      obtain ⟨stack, same⟩ := resumed
      exact ⟨same ▸ below.1, below.2⟩
  | finished passing last ended =>
      rw [holds.frames] at ended
      cases ended

theorem Turn.regular {before after : Phase} (turn : Turn before after) (regular : before.Regular) :
    after.Regular := by
  cases turn with
  | dispatch machine _ => exact dispatch_regular machine
  | signal passage => exact Passage.step_regular regular
  | host machine _ _ => trivial

theorem Runs.inOrder {first phase : Phase} (ran : first.Runs phase) (numbered : first.Numbered)
    (regular : first.Regular) : phase.Numbered ∧ phase.Regular := by
  induction ran with
  | refl => exact ⟨numbered, regular⟩
  | tail _ turn ih => exact ⟨turn.numbered ih.1, turn.regular ih.2⟩

end Phase

theorem World.launch_numbered (code : Code Value) (environment : Environment) (arguments : List Value) (world : World) :
    (Phase.resting (world.launch code environment arguments)).Numbered := by
  intro a callers holds
  unfold launch at holds
  split at holds
  · cases holds
  · dsimp only at holds
    split at holds
    · cases holds
    · cases holds
      exact ⟨rfl, trivial⟩

namespace Engine.Phase

/-- One step of a run of the engine. The host only looks on: between two instructions it changes neither the heap nor a
limit. -/
inductive Turn : Phase → Phase → Prop where
  | step (engine : Engine) (ends : ∀ world, turn (.stepping engine) ≠ .unending world) :
      Turn (.stepping engine) (turn (.stepping engine))
  | drain (why : Interruption) (engine : Engine) : Turn (.draining why engine) (turn (.draining why engine))
  | host {change : World → World} (engine : Engine) (heap : (change engine.world).heap = engine.world.heap)
      (limits : (change engine.world).tracker.limits = engine.world.tracker.limits) :
      Turn (.stepping engine) (.stepping { engine with world := change engine.world })

def Runs : Phase → Phase → Prop :=
  Relation.ReflTransGen Turn

variable {stale : Option Value} {before : BlockVM.Phase}

/-- The value in the slot for the return value is the one before, unless a frame is about to return another. -/
def Follows (before : BlockVM.Phase) (stale later : Option Value) : Prop :=
  ∀ value ∈ later, stale = some value ∨ ∃ a callers, before = .passing ⟨.return value, a, callers⟩

theorem Follows.refl (before : BlockVM.Phase) (stale : Option Value) : Follows before stale stale :=
  fun _ same => .inl same

/-- A signal takes the turn that it takes in the machine. -/
theorem turn_passing {passage : Passage} (numbered : (BlockVM.Phase.passing passage).Numbered)
    (regular : passage.Regular) :
    ∃ later, turn ((BlockVM.Phase.passing passage).embed stale) = passage.step.embed later ∧
      Follows (.passing passage) stale later := by
  obtain ⟨later, leads, slot, -⟩ := drain_embed (numbered _ _ (.passing _ _ _)) regular
  refine ⟨later, leads, ?_⟩
  obtain ⟨signal, a, callers⟩ := passage
  intro value same
  rcases slot with rfl | rfl
  · cases same
  · cases signal with
    | «return» returned =>
        cases same
        exact .inr ⟨a, callers, rfl⟩
    | «break» | «continue» target | «raise» raised => exact .inl same

theorem embed_unending {phase : BlockVM.Phase} {world : World} :
    phase.embed stale = .unending world ↔ phase = .resting (.unending world) := by
  constructor
  · intro same
    cases phase with
    | passing passage => cases same
    | resting status =>
        cases status <;> cases same
        rfl
  · rintro rfl
    rfl

/-- The engine takes the turns that the machine takes, and no others. -/
theorem Turn.reflects {after : Phase} (turn : Turn (before.embed stale) after) (numbered : before.Numbered)
    (regular : before.Regular) :
    ∃ next later, before.Turn next ∧ after = next.embed later ∧ Follows before stale later := by
  cases before with
  | passing passage =>
      obtain ⟨later, taken, follows⟩ := turn_passing numbered regular
      cases turn
      exact ⟨_, later, .signal passage, taken, follows⟩
  | resting status =>
      cases status with
      | finished outcome world | unending world => cases turn
      | running machine =>
          have taken := (@step_embed stale machine (numbered _ _ (.running _ _)).1).1
          generalize embedded : (BlockVM.Phase.resting (.running machine)).embed stale = first at turn
          cases turn with
          | step engine ends =>
              cases embedded
              refine ⟨_, stale, .dispatch machine fun world same => ends world ?_, taken, .refl _ _⟩
              exact taken.trans (embed_unending.mpr same)
          | drain why engine => cases embedded
          | host engine heap limits =>
              cases embedded
              obtain ⟨⟨world, frame, recovered⟩, callers⟩ := machine
              exact ⟨_, stale, .host _ heap limits, rfl, .refl _ _⟩

theorem Turn.embeds {next : BlockVM.Phase} (turn : before.Turn next) (numbered : before.Numbered)
    (regular : before.Regular) :
    ∃ later, Turn (before.embed stale) (next.embed later) ∧ Follows before stale later := by
  cases turn with
  | dispatch machine ends =>
      have taken := (@step_embed stale machine (numbered _ _ (.running _ _)).1).1
      refine ⟨stale, ?_, .refl _ _⟩
      rw [← taken]
      exact .step _ fun world same => ends world (embed_unending.mp (taken.symm.trans same))
  | signal passage =>
      obtain ⟨later, taken, follows⟩ := turn_passing numbered regular
      exact ⟨later, taken ▸ .drain _ _, follows⟩
  | host machine heap limits =>
      obtain ⟨⟨world, frame, recovered⟩, callers⟩ := machine
      exact ⟨stale, .host _ heap limits, .refl _ _⟩

/-- The value in the slot for the return value was to be returned at some time. -/
def Slotted (first : BlockVM.Phase) (stale : Option Value) : Prop :=
  ∀ value ∈ stale, ∃ a callers, first.Runs (.passing ⟨.return value, a, callers⟩)

theorem Slotted.follows {first phase : BlockVM.Phase} {later : Option Value} (slotted : Slotted first stale)
    (ran : first.Runs phase) (follows : Follows phase stale later) : Slotted first later := by
  intro value same
  rcases follows value same with kept | ⟨a, callers, rfl⟩
  · exact slotted value kept
  · exact ⟨a, callers, ran⟩

variable {first : BlockVM.Phase}

/-- Every state that the engine comes to is one that the machine comes to. -/
theorem Runs.reflects {after : Phase} (ran : Runs (first.embed none) after) (numbered : first.Numbered)
    (regular : first.Regular) :
    ∃ phase stale, first.Runs phase ∧ after = phase.embed stale ∧ Slotted first stale := by
  induction ran with
  | refl => exact ⟨first, none, .refl, rfl, nofun⟩
  | tail _ turn ih =>
      obtain ⟨phase, stale, ran, rfl, slotted⟩ := ih
      obtain ⟨sound, under⟩ := ran.inOrder numbered regular
      obtain ⟨next, later, taken, rfl, follows⟩ := turn.reflects sound under
      exact ⟨next, later, ran.tail taken, rfl, slotted.follows ran follows⟩

/-- The engine comes to every state that the machine comes to. -/
theorem Runs.embeds {phase : BlockVM.Phase} (ran : first.Runs phase) (numbered : first.Numbered)
    (regular : first.Regular) : ∃ stale, Runs (first.embed none) (phase.embed stale) ∧ Slotted first stale := by
  induction ran with
  | refl => exact ⟨none, .refl, nofun⟩
  | tail ran turn ih =>
      obtain ⟨stale, before, slotted⟩ := ih
      obtain ⟨sound, under⟩ := BlockVM.Phase.Runs.inOrder ran numbered regular
      obtain ⟨later, taken, follows⟩ := Turn.embeds turn sound under
      exact ⟨later, before.tail taken, slotted.follows ran follows⟩

/-- A phase is come to turn by turn. -/
theorem Runs.iterate {phase : Phase} {count : Nat} (ends : ∀ world, turn^[count] phase ≠ .unending world) :
    phase.Runs (turn^[count] phase) := by
  induction count with
  | zero => exact .refl
  | succ count ih =>
      rw [Function.iterate_succ_apply'] at ends ⊢
      have before (world : World) : turn^[count] phase ≠ .unending world := by
        intro same
        rw [same] at ends
        exact ends world rfl
      refine Relation.ReflTransGen.trans (ih before) ?_
      cases arrived : turn^[count] phase with
      | stepping engine =>
          rw [arrived] at ends
          exact .single (.step engine ends)
      | draining why engine => exact .single (.drain why engine)
      | finished outcome world | unending world => exact .refl

def engine? : Phase → Option Engine
  | .stepping engine => some engine
  | .draining _ engine => some engine
  | .finished .. | .unending _ => none

def world : Phase → World
  | .stepping engine => engine.world
  | .draining _ engine => engine.world
  | .finished _ world => world
  | .unending world => world

theorem mem_embedFrames {frame : Frame} {frames : List BlockVM.Frame} (member : frame ∈ embedFrames frames) :
    ∃ original ∈ frames, ∃ caller, frame = original.embed caller := by
  induction frames with
  | nil => cases member
  | cons first below ih =>
      rcases List.mem_cons.mp member with rfl | lower
      · exact ⟨first, List.mem_cons_self, _, rfl⟩
      · obtain ⟨original, found, same⟩ := ih lower
        exact ⟨original, List.mem_cons_of_mem _ found, same⟩

theorem embed_engine? {phase : BlockVM.Phase} {engine : Engine} (held : (phase.embed stale).engine? = some engine) :
    ∃ a callers, phase.Holds a callers ∧ engine.frames = embedFrames (a.frame :: callers) := by
  cases phase with
  | passing passage =>
      obtain ⟨signal, a, callers⟩ := passage
      cases held
      refine ⟨a, callers, .passing _ _ _, ?_⟩
      rw [Active.embed, Active.under_frame]
  | resting status =>
      cases status with
      | running machine =>
          cases held
          exact ⟨_, _, .running _ _, rfl⟩
      | finished outcome world | unending world => cases held

end Engine.Phase

theorem World.boot_embed (code : Code Value) (environment : Environment) (arguments : List Value) (world : World) :
    world.boot code environment arguments = (Phase.resting (world.launch code environment arguments)).embed none := by
  unfold boot launch
  cases code.bindArguments arguments [] with
  | error fault => rfl
  | ok bindings =>
      dsimp only
      cases world.tracker.checkCall 0 <;> rfl

/-- A code object comes to the same end on the engine and on the machine. -/
theorem World.boot_finishes_iff {code : Code Value} {environment : Environment} {arguments : List Value} {world last : World}
    {outcome : Except Raised Value} :
    (world.boot code environment arguments).Runs (.finished outcome last) ↔
      (Phase.resting (world.launch code environment arguments)).Runs (.resting (.finished outcome last)) := by
  have numbered := world.launch_numbered code environment arguments
  rw [world.boot_embed]
  constructor
  · intro reached
    obtain ⟨phase, stale, ran, same, -⟩ := reached.reflects numbered trivial
    cases phase with
    | passing passage => cases same
    | resting status =>
        cases status <;> cases same
        exact ran
  · intro ran
    obtain ⟨stale, reached, -⟩ := Engine.Phase.Runs.embeds ran numbered trivial
    exact reached

end BlockVM
