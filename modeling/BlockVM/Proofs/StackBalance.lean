import BlockVM.Proofs.FinallyBlocks
import BlockVM.Proofs.StackConsumption
import BlockVM.Proofs.TransparentHandlers

namespace BlockVM

/-! Balance. As long as the instructions of a frame take nothing from below the depth of a block, what lies
there stays, through calls and through all signals that the blocks above meet. So a handler that comes to its
end finds the exception that it was entered with, and leaves the frame as it was before its block. -/

/-- The frame stands on `base` and `kept`, and the blocks above `kept` go back to no depth below `base`. -/
structure Frame.RestsOn (base : List Value) (kept : List Block) (frame : Frame) : Prop where
  stack : base <:+ frame.stack
  blocks : ∃ upper, frame.blocks = upper ++ kept ∧ ∀ block ∈ upper, base.length ≤ block.depth

namespace Frame.RestsOn

variable {base : List Value} {kept rest : List Block} {block : Block} {frame other : Frame}

theorem suffix (rests : frame.RestsOn base kept) : kept <:+ frame.blocks := by
  obtain ⟨upper, standing, _⟩ := rests.blocks
  exact ⟨upper, standing.symm⟩

theorem restack (rests : frame.RestsOn base kept) (stack : base <:+ other.stack)
    (same : other.blocks = frame.blocks) : other.RestsOn base kept :=
  ⟨stack, same ▸ rests.blocks⟩

theorem push (rests : frame.RestsOn base kept) (block : Block) (deep : base.length ≤ block.depth)
    (stack : base <:+ other.stack) (pushed : other.blocks = block :: frame.blocks) :
    other.RestsOn base kept := by
  obtain ⟨upper, standing, higher⟩ := rests.blocks
  refine ⟨stack, block :: upper, ?_, List.forall_mem_cons.mpr ⟨deep, higher⟩⟩
  rw [pushed, standing, List.cons_append]

/-- A block that comes off without touching `kept` is one of those above. -/
theorem pop (rests : frame.RestsOn base kept) (standing : frame.blocks = block :: rest) (still : kept <:+ rest) :
    base.length ≤ block.depth ∧
      ∀ other : Frame, base <:+ other.stack → other.blocks = rest → other.RestsOn base kept := by
  obtain ⟨upper, above, higher⟩ := rests.blocks
  rw [standing] at above
  cases upper with
  | nil =>
      have short := still.length_le
      rw [← List.nil_append kept, ← above, List.length_cons] at short
      omega
  | cons top upper =>
      obtain ⟨rfl, below⟩ := List.cons.inj above
      obtain ⟨deep, higher⟩ := List.forall_mem_cons.mp higher
      exact ⟨deep, fun other stack blocks => ⟨stack, upper, blocks.trans below, higher⟩⟩

/-- A signal that a block resumes leaves its values on top, and a handler starts where the stack ended. -/
theorem absorbed (rests : frame.RestsOn base kept) (block : Block) (signal : Signal) :
    (frame.absorbed block signal).RestsOn base kept := by
  have grown (values : List Value) : base <:+ values ++ frame.stack :=
    rests.stack.trans (List.suffix_append values frame.stack)
  have handled {handler : Nat} (raised : Raised) : RestsOn base kept
      { frame with
        blocks := .exceptHandler frame.stack.length :: frame.blocks
        stack := raised.toValues ++ (raised.toValues ++ frame.stack)
        ip := handler } := by
    refine rests.push (.exceptHandler frame.stack.length) rests.stack.length_le ?_ rfl
    exact (grown raised.toValues).trans (List.suffix_append raised.toValues _)
  cases block with
  | exceptHandler depth => exact rests
  | loop exit depth =>
      cases signal with
      | «break» => exact rests.restack rests.stack rfl
      | «return» value | «continue» target | «raise» raised => exact rests
  | setupExcept handler depth =>
      cases signal with
      | «raise» raised => exact handled raised
      | «return» value | «break» | «continue» target => exact rests
  | «finally» handler depth =>
      cases signal with
      | «raise» raised => exact handled raised
      | «return» value => exact rests.restack (grown [.signal .returning, value]) rfl
      | «break» => exact rests.restack (grown [.signal .breaking]) rfl
      | «continue» target =>
          exact rests.restack (grown [.signal (.continuing target), .int (Int64.ofNat target)]) rfl

end Frame.RestsOn

theorem suffix_rtake {base stack : List Value} {depth : Nat} (suffix : base <:+ stack) (deep : base.length ≤ depth) :
    base <:+ stack.rtake depth := by
  refine List.suffix_of_suffix_length_le suffix (List.drop_suffix _ _) ?_
  have inside := suffix.length_le
  rw [List.rtake, List.length_drop]
  omega

namespace Active

/-- What the frame stands on before, it stands on after. -/
def KeepsBelow (base : List Value) (kept : List Block) (before after : Active) : Prop :=
  before.frame.RestsOn base kept → after.frame.RestsOn base kept

instance (base : List Value) (kept : List Block) : IsPreorder Active (KeepsBelow base kept) where
  refl _ := id
  trans _ _ _ earlier later := later ∘ earlier

variable {base : List Value} {kept rest : List Block} {block : Block} {signal : Signal} {a : Active}

theorem KeepsBelow.of_frame {after : Active} (same : after.frame = a.frame) : KeepsBelow base kept a after :=
  fun rests => same ▸ rests

theorem absorb_keepsBelow {after : Active} (absorbed : a.absorb block signal = some (.ok after)) :
    KeepsBelow base kept a after := by
  intro rests
  cases stays : block.stays signal with
  | true =>
      cases block with
      | loop exit depth =>
          cases signal with
          | «continue» target => cases absorbed
          | «return» value | «break» | «raise» raised => cases stays
      | setupExcept handler depth | «finally» handler depth | exceptHandler depth => cases stays
  | false =>
      have absorbs := a.absorb_absorbs stays
      rw [absorbed] at absorbs
      cases absorbs with
      | resumed _ resumed _ => exact resumed ▸ rests.absorbed block signal

/-- What a signal leaves in place of a block that it takes off: nothing, or the block of the handler. -/
theorem meet_blocks (callers : List Frame) (rest : List Block) (a : Active) (leaves : block.stays signal = false) :
    (a.meet callers block rest signal).active.frame.blocks = rest ∨ block.kind ≠ .exceptHandler ∧
      ∃ depth, (a.meet callers block rest signal).active.frame.blocks = .exceptHandler depth :: rest := by
  have meets := a.meet_meets callers block rest signal
  generalize a.meet callers block rest signal = met at meets
  cases meets with
  | stayed _ stays => rw [leaves] at stays; cases stays
  | damaged _ _ _ below | tooFar _ _ _ below =>
      rw [supplant_eq, Encounter.active, raise_frame]
      exact .inl below
  | passed _ _ _ lowered => exact .inl (congrArg Frame.blocks lowered)
  | @absorbed onward after _ _ _ absorbs resumed =>
      rw [Encounter.active, resumed]
      cases block with
      | exceptHandler depth => cases absorbs
      | loop exit depth => cases onward <;> exact .inl rfl
      | setupExcept handler depth | «finally» handler depth =>
          cases onward with
          | «raise» raised => exact .inr ⟨by simp [Block.kind], _, rfl⟩
          | «return» value | «break» | «continue» target => exact .inl rfl

/-- A block that a signal takes off is gone. -/
theorem meet_departs (callers : List Frame) (a : Active) (leaves : block.stays signal = false) :
    ¬ (block :: rest) <:+ (a.meet callers block rest signal).active.frame.blocks := by
  intro still
  have longer : ¬ (block :: rest) <:+ rest := by
    intro inside
    have short := inside.length_le
    rw [List.length_cons] at short
    omega
  rcases a.meet_blocks callers rest leaves with same | ⟨plain, depth, same⟩
  · rw [same] at still
    exact longer still
  · rw [same] at still
    rcases List.suffix_cons_iff.mp still with same | inside
    · obtain ⟨rfl, _⟩ := List.cons.inj same
      exact plain rfl
    · exact longer inside

theorem meet_rests (callers : List Frame) (standing : a.frame.blocks = block :: rest)
    (rests : a.frame.RestsOn base kept)
    (still : kept <:+ (a.meet callers block rest signal).active.frame.blocks) :
    (a.meet callers block rest signal).active.frame.RestsOn base kept := by
  cases stays : block.stays signal with
  | true =>
      have meets := a.meet_meets callers block rest signal
      generalize a.meet callers block rest signal = met at meets
      cases meets with
      | stayed => exact rests.restack rests.stack standing.symm
      | damaged leaves | tooFar leaves | absorbed leaves => rw [stays] at leaves; cases leaves
      | passed _ _ passes => rw [Block.absorbs_of_stays stays] at passes; cases passes
  | false =>
      have inside : kept <:+ rest := by
        rcases List.suffix_cons_iff.mp (standing ▸ rests.suffix) with same | inside
        · exact absurd (same ▸ still) (meet_departs callers a stays)
        · exact inside
      obtain ⟨deep, below⟩ := rests.pop standing inside
      let taken : Active := { a with frame := { a.frame with blocks := rest } }
      have suffix := taken.release_suffix block
      have blocks := (@release_steady (fun _ => True) block taken).blocks
      rcases run : taken.release block with ⟨outcome, off⟩
      rw [run] at suffix blocks
      have rested : off.frame.RestsOn base kept := below off.frame ((suffix_rtake rests.stack deep).trans suffix) blocks
      have onward : KeepsBelow base kept (off.emit (.blockPop block.kind rest.length))
          (a.meet callers block rest signal).active :=
        meet_relates absorb_keepsBelow (fun fault left => .of_frame (left.raise_frame callers fault)) stays run
          fun saved left => .of_frame (left.restore_spec saved signal).2.1
      exact onward rested

end Active

section

variable {opcode : Opcode} {operand : Operand Value} {a after : Active}
  (left : Leaves (· = after) (execute opcode operand a))

include left

theorem execute_suffix (fits : operand.Fits opcode.operandClass) :
    a.frame.stack.drop (opcode.draws operand a) <:+ after.frame.stack := by
  have below := execute_leavesBelow fits a
  cases run : execute opcode operand a with
  | ok effect state =>
      rw [run] at left below
      exact left ▸ below
  | error failure state =>
      rw [run] at left below
      exact left.2 ▸ below

theorem execute_pushed {top : Block} (fits : operand.Fits opcode.operandClass) (pushes : opcode.pushesBlock = true)
    (pushed : after.frame.blocks = top :: a.frame.blocks) : top.depth = a.frame.stack.length := by
  have noted {block : Nat → Nat → Block} (sets : opcode.block? = some block)
      (deep : ∀ target depth, (block target depth).depth = depth) {target : Nat} (leads : operand = .jump target) :
      top.depth = a.frame.stack.length := by
    subst leads
    rw [execute_pushBlock sets] at left
    cases left
    obtain ⟨rfl, _⟩ := List.cons.inj pushed
    exact deep target a.frame.stack.length
  cases opcode with
  | setupLoop | setupExcept | setupFinally =>
      cases fits with
      | relative target => exact noted rfl (fun _ _ => rfl) rfl
  | _ => cases pushes

theorem execute_rests {base : List Value} {kept : List Block} (fits : operand.Fits opcode.operandClass)
    (works : a.Works opcode after) (rests : a.frame.RestsOn base kept)
    (spares : base.length + opcode.draws operand a ≤ a.frame.stack.length) (still : kept <:+ after.frame.blocks) :
    after.frame.RestsOn base kept := by
  have stack : base <:+ after.frame.stack := by
    refine (List.suffix_of_suffix_length_le rests.stack (List.drop_suffix _ _) ?_).trans (execute_suffix left fits)
    rw [List.length_drop]
    omega
  have moves := works.blocks
  generalize moved : after.frame.blocks = blocks at moves still
  generalize standing : a.frame.blocks = before at moves
  cases moves with
  | kept => exact rests.restack stack (moved.trans standing.symm)
  | pushed pushes top =>
      rw [← standing] at moved
      have deep := execute_pushed left fits pushes moved
      exact rests.push top (deep ▸ rests.stack.length_le) stack moved
  | popped pops top => exact (rests.pop standing still).2 after.frame stack moved

end

/-- The frame that has `level` callers stands on `base` and `kept`. -/
def RestsAt (level : Nat) (base : List Value) (kept : List Block) : List Frame → Prop
  | [] => False
  | frame :: callers => if callers.length = level then frame.RestsOn base kept else RestsAt level base kept callers

section

variable {level : Nat} {base : List Value} {kept : List Block} {frame other : Frame} {callers : List Frame}

theorem restsAt_own (own : callers.length = level) :
    RestsAt level base kept (frame :: callers) ↔ frame.RestsOn base kept := by
  rw [RestsAt, if_pos own]

theorem restsAt_other (elsewhere : callers.length ≠ level) :
    RestsAt level base kept (frame :: callers) ↔ RestsAt level base kept callers := by
  rw [RestsAt, if_neg elsewhere]

theorem RestsAt.restack (rests : RestsAt level base kept (frame :: callers)) (stack : frame.stack <:+ other.stack)
    (same : other.blocks = frame.blocks) : RestsAt level base kept (other :: callers) := by
  by_cases own : callers.length = level
  · rw [restsAt_own own] at rests ⊢
    exact rests.restack (rests.stack.trans stack) same
  · rwa [restsAt_other own] at rests ⊢

theorem RestsAt.lt_length {frames : List Frame} (rests : RestsAt level base kept frames) : level < frames.length := by
  induction frames with
  | nil => cases rests
  | cons frame callers ih =>
      rw [List.length_cons]
      by_cases own : callers.length = level
      · omega
      · exact Nat.lt_succ_of_lt (ih ((restsAt_other own).mp rests))

end

/-- The next instruction takes nothing from below `floor`. -/
def Machine.Spares (floor : Nat) (machine : Machine) : Prop :=
  ∀ instruction a, fetch machine.active = (.ok instruction, a) →
    floor + instruction.opcode.draws instruction.operand a ≤ a.frame.stack.length

section

variable {level : Nat} {base : List Value} {kept : List Block}

namespace Machine

theorem fetch_stack {a after : Active} {result : Except Fault (Instruction Value)}
    (fetched : fetch a = (result, after)) : after.frame.stack = a.frame.stack := by
  have fetches := fetch_fetches a
  rw [fetched] at fetches
  cases fetches <;> rfl

theorem Leads.frames {callers : List Frame} {a : Active} {phase : Phase} (leads : Leads callers a phase) :
    phase.frames = a.frame :: callers := by
  cases leads with
  | onward => rfl
  | interrupted _ same _ _ => rw [Phase.frames, same]

theorem dispatch_rests {machine : Machine} (ends : ∀ world, machine.dispatch ≠ .resting (.unending world))
    (rests : RestsAt level base kept (machine.active.frame :: machine.callers))
    (still : kept <:+ machine.dispatch.blocks level)
    (spares : machine.callers.length = level → machine.Spares base.length) :
    RestsAt level base kept machine.dispatch.frames := by
  have inside : level ≤ machine.callers.length := Nat.le_of_lt_succ rests.lt_length
  have fetched {result : Except Fault (Instruction Value)} {a : Active} (read : fetch machine.active = (result, a)) :
      RestsAt level base kept (a.frame :: machine.callers) :=
    rests.restack (fetch_stack read ▸ List.suffix_refl _) (fetch_blocks read)
  have dispatches := machine.dispatch_dispatches
  generalize machine.dispatch = reached at dispatches ends still
  cases dispatches with
  | @refused fault a refused =>
      have same := Passage.ofFault_frame machine.callers fault a
      exact (fetched refused).restack (same ▸ List.suffix_refl _) (congrArg Frame.blocks same)
  | unending _ _ => exact absurd rfl (ends _)
  | @executed instruction a after _ read works leads left =>
      rw [Phase.blocks, leads.frames] at still
      rw [leads.frames]
      -- Only the frame on top executes anything. At any other level the frame stays as it is.
      by_cases own : machine.callers.length = level
      · rw [blocksAt_own own] at still
        rw [restsAt_own own]
        exact execute_rests left (fetch_fits read) works ((restsAt_own own).mp (fetched read))
          (spares own instruction a read) still
      · rwa [restsAt_other own] at rests ⊢
  | @called instruction a after callee count read works opcode operand calls =>
      refine (restsAt_other (by rw [List.length_cons]; omega)).mpr ?_
      by_cases own : machine.callers.length = level
      · have rests := (restsAt_own own).mp (fetched read)
        have spare := spares own instruction a read
        rw [opcode, operand] at spare
        have spare : base.length + (count + 1) ≤ a.frame.stack.length := spare
        rw [restsAt_own own, calls.waits]
        refine rests.restack ?_ rfl
        refine List.suffix_of_suffix_length_le rests.stack (List.drop_suffix _ _) ?_
        rw [List.length_drop]
        omega
      · rwa [restsAt_other own] at rests ⊢

end Machine

namespace Passage

theorem leave_rests {passage : Passage} (rests : RestsAt level base kept passage.callers) :
    RestsAt level base kept passage.leave.frames := by
  have inside : passage.callers.length ≠ level := by
    have inside := rests.lt_length
    omega
  cases homeless : homeless? passage.signal with
  | some fault =>
      rw [leave_homeless homeless]
      exact (restsAt_other inside).mpr rests
  | none =>
      have exits := leave_exits homeless
      generalize passage.leave = after at exits
      cases exits with
      | finished last | failed last =>
          rw [last] at rests
          cases rests
      | returned waiting returns pushed =>
          rw [waiting] at rests
          exact rests.restack (pushed ▸ List.suffix_cons _ _) (pushed ▸ rfl)
      | escaped waiting raises same resumed =>
          rw [waiting] at rests
          exact rests.restack (resumed ▸ List.suffix_refl _) (resumed ▸ rfl)

theorem step_rests {passage : Passage} (standing : kept ≠ [])
    (rests : RestsAt level base kept (passage.active.frame :: passage.callers))
    (still : kept <:+ passage.step.blocks level) : RestsAt level base kept passage.step.frames := by
  have met {block : Block} {rest : List Block} {after : Active} (top : passage.active.frame.blocks = block :: rest)
      (met : (passage.active.meet passage.callers block rest passage.signal).active = after)
      (still : kept <:+ blocksAt level (after.frame :: passage.callers)) :
      RestsAt level base kept (after.frame :: passage.callers) := by
    by_cases own : passage.callers.length = level
    · rw [blocksAt_own own, ← met] at still
      rw [restsAt_own own, ← met]
      exact Active.meet_rests passage.callers top ((restsAt_own own).mp rests) still
    · rwa [restsAt_other own] at rests ⊢
  have advances := passage.step_advances
  generalize passage.step = next at advances still
  cases advances with
  | absorbed top absorbed => exact met top (by rw [absorbed, Encounter.active]) still
  | passed top passed => exact met top (by rw [passed, Encounter.active]) still
  | left empty left =>
      rw [← left]
      by_cases own : passage.callers.length = level
      · have suffix := ((restsAt_own own).mp rests).suffix
        rw [empty] at suffix
        exact absurd (List.eq_nil_of_suffix_nil suffix) standing
      · exact leave_rests ((restsAt_other own).mp rests)

end Passage

end

namespace Phase

/-- A step during which the frame with `level` callers keeps the blocks `kept` and, if the step is an instruction
of that frame, takes no value from below `floor`. -/
structure StepWithin (level floor : Nat) (kept : List Block) (before after : Phase) : Prop where
  step : before.Step after
  kept : kept <:+ after.blocks level
  spares : ∀ machine, before = .resting (.running machine) → machine.callers.length = level → machine.Spares floor

theorem StepWithin.next {level floor : Nat} {kept : List Block} {machine : Machine} {after : Phase}
    {instruction : Instruction Value} {a : Active} (dispatched : machine.dispatch = after)
    (ends : ∀ world, after ≠ .resting (.unending world)) (still : kept <:+ after.blocks level)
    (fetched : Machine.fetch machine.active = (.ok instruction, a))
    (spare : floor + instruction.opcode.draws instruction.operand a ≤ a.frame.stack.length) :
    StepWithin level floor kept (.resting (.running machine)) after := by
  subst dispatched
  refine ⟨.dispatch machine ends, still, ?_⟩
  rintro _ ⟨⟩ _ _ _ read
  cases fetched.symm.trans read
  exact spare

def RunsWithin (level floor : Nat) (kept : List Block) : Phase → Phase → Prop :=
  Relation.ReflTransGen (StepWithin level floor kept)

variable {level : Nat} {base : List Value} {kept : List Block} {before after : Phase}

theorem StepWithin.rests (stepped : StepWithin level base.length kept before after) (standing : kept ≠ [])
    (rests : RestsAt level base kept before.frames) : RestsAt level base kept after.frames := by
  obtain ⟨step, still, spares⟩ := stepped
  cases step with
  | dispatch machine ends => exact Machine.dispatch_rests ends rests still (spares machine rfl)
  | signal passage => exact Passage.step_rests standing rests still
  | host change machine => exact rests

theorem RunsWithin.rests (ran : RunsWithin level base.length kept before after) (standing : kept ≠ [])
    (rests : RestsAt level base kept before.frames) : RestsAt level base kept after.frames := by
  induction ran with
  | refl => exact rests
  | tail _ stepped ih => exact stepped.rests standing ih

end Phase

/-- The next instruction sets up a block with a handler. -/
def Machine.SetsUp (machine : Machine) (block : Block) : Prop :=
  ∃ instruction a handler, fetch machine.active = (.ok instruction, a) ∧ instruction.operand = .jump handler ∧
    (instruction.opcode = .setupExcept ∧ block = .setupExcept handler machine.active.frame.stack.length ∨
      instruction.opcode = .setupFinally ∧ block = .finally handler machine.active.frame.stack.length)

theorem Machine.SetsUp.dispatch {machine : Machine} {block : Block} (sets : machine.SetsUp block) :
    ∃ after, machine.dispatch = .resting (.running ⟨after, machine.callers⟩) ∧
      after.frame.stack = machine.active.frame.stack ∧ after.frame.blocks = block :: machine.active.frame.blocks := by
  obtain ⟨active, callers⟩ := machine
  obtain ⟨instruction, a, handler, fetched, leads, named⟩ := sets
  have stack := fetch_stack fetched
  have blocks := fetch_blocks fetched
  have pushed {push : Nat → Nat → Block} (sets : instruction.opcode.block? = some push)
      (same : block = push handler active.frame.stack.length) :
      ∃ after, Machine.dispatch ⟨active, callers⟩ = .resting (.running ⟨after, callers⟩) ∧
        after.frame.stack = active.frame.stack ∧ after.frame.blocks = block :: active.frame.blocks := by
    have run := execute_pushBlock sets handler a
    rw [← leads] at run
    refine ⟨_, dispatch_followed callers fetched run, stack, ?_⟩
    rw [same, ← stack, ← blocks]
    rfl
  rcases named with ⟨opcode, same⟩ | ⟨opcode, same⟩
  · exact pushed (by rw [opcode]; rfl) same
  · exact pushed (by rw [opcode]; rfl) same

theorem Machine.SetsUp.guards {machine : Machine} {block : Block} (sets : machine.SetsUp block) :
    ∃ handler, block.Guards handler machine.active.frame.stack.length := by
  obtain ⟨instruction, a, handler, _, _, ⟨_, same⟩ | ⟨_, same⟩⟩ := sets
  · exact ⟨handler, .inr same⟩
  · exact ⟨handler, .inl same⟩

/-- A guard that an exception meets with its values below enters its handler, with the exception saved twice. -/
theorem Passage.step_handled {passage : Passage} {block : Block} {rest : List Block} {handler : Nat} {base : List Value}
    {raised : Raised} (guards : block.Guards handler base.length)
    (standing : passage.active.frame.blocks = block :: rest) (below : base <:+ passage.active.frame.stack)
    (raises : passage.signal = .raise raised) (ordinary : raised.kind.isFatal = false) :
    ∃ entered, passage.step = .resting (.running ⟨entered, passage.callers⟩) ∧
      entered.frame.stack = raised.toValues ++ (raised.toValues ++ base) ∧
      entered.frame.blocks = .exceptHandler base.length :: rest := by
  have absorbs : block.absorbs passage.signal = true := by
    rcases guards with rfl | rfl <;> simp [raises, Block.absorbs, ordinary]
  have encodable : passage.signal.Encodable := by
    rw [raises]
    trivial
  obtain ⟨entered, events, met, same⟩ := passage.active.meet_resume passage.callers rest absorbs (guards.leaves _)
    encodable (guards.depth_eq ▸ below.length_le)
  rw [Frame.resume_guards rest _ guards absorbs, raises] at same
  refine ⟨entered, by simp only [Passage.step, standing, met], ?_, ?_⟩
  · obtain ⟨above, stack⟩ := below
    rw [same, Frame.entered, ← stack, rtake_append]
    rfl
  · rw [same]
    rfl

/-- A handler that ends over the exception that was saved gives it back, and with it the frame below. -/
theorem Machine.dispatch_ended {machine : Machine} {instruction : Instruction Value} {a : Active} {raised : Raised}
    {base : List Value} {rest : List Block} (fetched : fetch machine.active = (.ok instruction, a))
    (pops : instruction.opcode = .popExcept) (top : machine.active.frame.blocks = .exceptHandler base.length :: rest)
    (below : (raised.toValues ++ base) <:+ machine.active.frame.stack) :
    ∃ after, machine.dispatch = .resting (.running ⟨after, machine.callers⟩) ∧ after.frame.stack = base ∧
      after.frame.blocks = rest ∧ after.recovered = some raised := by
  obtain ⟨active, callers⟩ := machine
  obtain ⟨above, stack⟩ := below
  have standing := (fetch_blocks fetched).trans top
  have released := Active.release_saved (a := { a with frame := { a.frame with blocks := rest } })
    ((fetch_stack fetched).trans stack.symm)
  have run := execute_popExcept_restored instruction.operand standing released
  rw [← pops] at run
  exact ⟨_, dispatch_followed callers fetched run, rfl, rfl, rfl⟩

/-- A handler that comes to its end leaves its frame balanced. Take a frame that sets up a block with a handler and
takes nothing from below that point until an exception that is not fatal meets the block, and nothing from below the
exception that is saved then until the handler's block is on top and `POP_EXCEPT` is next. Then `POP_EXCEPT` succeeds,
the data stack and the blocks are those from before the block, and the exception waits as it came, with its
traceback. What the body and the handler left above does not matter. -/
theorem handler_leaves_balance {level : Nat} {frame : Frame} {setup machine : Machine} {passage : Passage}
    {block : Block} {raised : Raised} {instruction : Instruction Value} {a : Active}
    (own : setup.callers.length = level) (running : setup.active.frame = frame) (sets : setup.SetsUp block)
    (guarded : setup.dispatch.RunsWithin level frame.stack.length (block :: frame.blocks) (.passing passage))
    (here : passage.callers.length = level) (standing : passage.active.frame.blocks = block :: frame.blocks)
    (raises : passage.signal = .raise raised) (ordinary : raised.kind.isFatal = false)
    (handled : passage.step.RunsWithin level (frame.stack.length + 3)
      (.exceptHandler frame.stack.length :: frame.blocks) (.resting (.running machine)))
    (still : machine.callers.length = level)
    (top : machine.active.frame.blocks = .exceptHandler frame.stack.length :: frame.blocks)
    (fetched : Machine.fetch machine.active = (.ok instruction, a)) (pops : instruction.opcode = .popExcept) :
    ∃ after, machine.dispatch = .resting (.running ⟨after, machine.callers⟩) ∧ after.frame.stack = frame.stack ∧
      after.frame.blocks = frame.blocks ∧ after.recovered = some raised := by
  subst running
  obtain ⟨handler, guards⟩ := sets.guards
  obtain ⟨first, dispatched, stack, blocks⟩ := sets.dispatch
  have started : RestsAt level setup.active.frame.stack (block :: setup.active.frame.blocks) setup.dispatch.frames := by
    rw [dispatched]
    exact (restsAt_own own).mpr ⟨stack ▸ List.suffix_refl _, [], blocks, List.forall_mem_nil _⟩
  have met := (restsAt_own here).mp (guarded.rests (by simp) started)
  obtain ⟨entered, stepped, stack, blocks⟩ := passage.step_handled guards standing met.stack raises ordinary
  have opened : RestsAt level (raised.toValues ++ setup.active.frame.stack)
      (.exceptHandler setup.active.frame.stack.length :: setup.active.frame.blocks) passage.step.frames := by
    rw [stepped]
    exact (restsAt_own here).mpr ⟨stack ▸ List.suffix_append _ _, [], blocks, List.forall_mem_nil _⟩
  have floor : setup.active.frame.stack.length + 3 = (raised.toValues ++ setup.active.frame.stack).length := by
    rw [List.length_append, Raised.length_toValues, Nat.add_comm]
  rw [floor] at handled
  have ended := (restsAt_own still).mp (handled.rests (by simp) opened)
  exact Machine.dispatch_ended fetched pops top ended.stack

/-- A body and a handler that leave a value each. -/
def untidyHandler : Code Value :=
  { name := "untidy"
    instructions := #[100, 0, 0, 121, 9, 0, 100, 1, 0, 100, 2, 0, 130, 1, 0, 100, 1, 0, 89, 83]
    constants := [.int 7, .int 8, .exceptionKind .valueError], names := [], localSlots := [], argCount := 0 }

theorem handler_leaves_balance_untidy :
    let start := World.launch untidyHandler default [] default
    ∃ setup machine after, start.advance 1 = .running setup ∧ start.advance 6 = .running machine ∧
      setup.active.frame.stack.length = 1 ∧ machine.active.frame.stack.length = 8 ∧
      machine.dispatch = .resting (.running ⟨after, machine.callers⟩) ∧
      after.frame.stack = setup.active.frame.stack ∧ after.frame.blocks = setup.active.frame.blocks := by
  intro start
  let guard := Block.setupExcept 15 1
  obtain ⟨setup, second, third, fourth, passage, fifth, machine, raised, instruction, a, ran, last, low, high, alone,
      sets, pushed, bare, loaded, again, failed, root, met, raises, ordinary, entered, handled, still, top, fetched,
      pops⟩ :
      ∃ setup second third fourth passage fifth machine raised instruction a,
      start.advance 1 = .running setup ∧ start.advance 6 = .running machine ∧
      setup.active.frame.stack.length = 1 ∧ machine.active.frame.stack.length = 8 ∧ setup.callers.length = 0 ∧
      setup.SetsUp guard ∧ setup.dispatch = .resting (.running second) ∧ setup.active.frame.blocks = [] ∧
      (Phase.resting (.running second)).StepWithin 0 1 [guard] (.resting (.running third)) ∧
      (Phase.resting (.running third)).StepWithin 0 1 [guard] (.resting (.running fourth)) ∧
      (Phase.resting (.running fourth)).StepWithin 0 1 [guard] (.passing passage) ∧
      passage.callers.length = 0 ∧ passage.active.frame.blocks = [guard] ∧ passage.signal = .raise raised ∧
      raised.kind.isFatal = false ∧ passage.step = .resting (.running fifth) ∧
      (Phase.resting (.running fifth)).StepWithin 0 4 [.exceptHandler 1] (.resting (.running machine)) ∧
      machine.callers.length = 0 ∧ machine.active.frame.blocks = [.exceptHandler 1] ∧
      Machine.fetch machine.active = (.ok instruction, a) ∧ instruction.opcode = .popExcept := by
    have within {floor : Nat} {kept : List Block} := @Phase.StepWithin.next 0 floor kept
    exact ⟨_, _, _, _, _, _, _, _, _, _, rfl, rfl, rfl, rfl, rfl, ⟨_, _, 15, rfl, rfl, .inl ⟨rfl, rfl⟩⟩, rfl, rfl,
      within rfl nofun (List.suffix_refl _) rfl (by decide), within rfl nofun (List.suffix_refl _) rfl (by decide),
      within rfl nofun (List.suffix_refl _) rfl (by decide), rfl, rfl, rfl, rfl, rfl,
      within rfl nofun (List.suffix_refl _) rfl (by decide), rfl, rfl, rfl, rfl⟩
  have body : setup.dispatch.RunsWithin 0 setup.active.frame.stack.length (guard :: setup.active.frame.blocks)
      (.passing passage) := by
    rw [pushed, low, bare]
    exact ((Relation.ReflTransGen.single loaded).tail again).tail failed
  have handler : passage.step.RunsWithin 0 (setup.active.frame.stack.length + 3)
      (.exceptHandler setup.active.frame.stack.length :: setup.active.frame.blocks) (.resting (.running machine)) := by
    rw [entered, low, bare]
    exact .single handled
  obtain ⟨after, dispatched, stack, blocks, _⟩ := handler_leaves_balance alone rfl sets body root (bare ▸ met) raises
    ordinary handler still (by rw [top, low, bare]) fetched pops
  exact ⟨setup, machine, after, ran, last, low, high, dispatched, stack, blocks⟩

end BlockVM
