import BlockVM.Proofs.FatalExceptions

namespace BlockVM

/-! A `finally` block is never lost in silence: whatever takes it off its frame either goes on at its
handler, is the instruction that ends its region, or ends the run. -/

/-- The blocks of the frame that has `level` callers. -/
def blocksAt (level : Nat) : List Frame → List Block
  | [] => []
  | frame :: callers => if callers.length = level then frame.blocks else blocksAt level callers

section

variable {level : Nat} {frame other : Frame} {callers : List Frame}

theorem blocksAt_own (own : callers.length = level) : blocksAt level (frame :: callers) = frame.blocks :=
  if_pos own

theorem blocksAt_other (elsewhere : callers.length ≠ level) :
    blocksAt level (frame :: callers) = blocksAt level callers :=
  if_neg elsewhere

theorem blocksAt_congr (same : frame.blocks = other.blocks) :
    blocksAt level (frame :: callers) = blocksAt level (other :: callers) := by
  simp only [blocksAt, same]

theorem blocksAt_of_le {frames : List Frame} (above : frames.length ≤ level) : blocksAt level frames = [] := by
  induction frames with
  | nil => rfl
  | cons frame callers ih =>
      rw [List.length_cons] at above
      rw [blocksAt_other (by omega), ih (by omega)]

theorem lt_length_of_blocksAt {frames : List Frame} {block : Block} {below : List Block}
    (standing : (block :: below) <:+ blocksAt level frames) : level < frames.length := by
  rcases Nat.lt_or_ge level frames.length with inside | above
  · exact inside
  · rw [blocksAt_of_le above] at standing
    cases List.eq_nil_of_suffix_nil standing

end

def Phase.blocks (level : Nat) (phase : Phase) : List Block :=
  blocksAt level phase.frames

/-- How a `finally` block leaves its frame. -/
inductive Way where
  /-- Its region ends. -/
  | completed
  /-- It is taken for a handler that ends. -/
  | mistaken
  /-- Its handler is entered. -/
  | entered
  /-- Something fatal is under way. -/
  | abandoned
deriving DecidableEq

/-- A step that takes the `finally` block above `below` off the frame with `level` callers. -/
inductive Departure (level handler depth : Nat) (below : List Block) : Way → Phase → Phase → Prop where
  | completed {machine : Machine} {instruction : Instruction Value} {a after : Active}
      (own : machine.callers.length = level)
      (standing : machine.active.frame.blocks = .finally handler depth :: below)
      (fetched : Machine.fetch machine.active = (.ok instruction, a))
      (pops : instruction.opcode = .popBlock) (off : after.frame.blocks = below) :
      Departure level handler depth below .completed (.resting (.running machine))
        (.resting (.running ⟨after, machine.callers⟩))
  | mistaken {machine : Machine} {instruction : Instruction Value} {a after : Active} {raised : Raised}
      (own : machine.callers.length = level)
      (standing : machine.active.frame.blocks = .finally handler depth :: below)
      (fetched : Machine.fetch machine.active = (.ok instruction, a))
      (pops : instruction.opcode = .popExcept) (off : after.frame.blocks = below)
      (kind : raised.kind = .systemError) :
      Departure level handler depth below .mistaken (.resting (.running machine))
        (.passing ⟨.raise raised, after, machine.callers⟩)
  | entered {passage : Passage} {after : Active} (own : passage.callers.length = level)
      (standing : passage.active.frame.blocks = .finally handler depth :: below)
      (off : after.frame.blocks = below ∨ after.frame.blocks = .exceptHandler depth :: below)
      (resumes : after.frame.ip = handler) :
      Departure level handler depth below .entered (.passing passage)
        (.resting (.running ⟨after, passage.callers⟩))
  | doomed {passage : Passage} {onward : Signal} {after : Active} (own : passage.callers.length = level)
      (standing : passage.active.frame.blocks = .finally handler depth :: below)
      (off : after.frame.blocks = below) (fatal : passage.signal.Fatal) (still : onward.Fatal) :
      Departure level handler depth below .abandoned (.passing passage)
        (.passing ⟨onward, after, passage.callers⟩)
  | underflowed {passage : Passage} {raised : Raised} {after : Active}
      (own : passage.callers.length = level)
      (standing : passage.active.frame.blocks = .finally handler depth :: below)
      (off : after.frame.blocks = below) (short : passage.active.frame.stack.length < depth)
      (kind : raised.kind = .stackUnderflow) :
      Departure level handler depth below .abandoned (.passing passage)
        (.passing ⟨.raise raised, after, passage.callers⟩)

variable {level handler depth : Nat} {below : List Block}

theorem Active.meet_finally (callers : List Frame) (below : List Block) (handler depth : Nat)
    {signal : Signal} (a : Active) (encodable : signal.Encodable) :
    (∃ after, a.meet callers (.finally handler depth) below signal = .absorbed after ∧
      (after.frame.blocks = below ∨ after.frame.blocks = .exceptHandler depth :: below) ∧
      after.frame.ip = handler) ∨
    (∃ onward after, a.meet callers (.finally handler depth) below signal = .passed onward after ∧
      after.frame.blocks = below ∧ signal.Fatal ∧ onward.Fatal) ∨
    ∃ raised after, a.meet callers (.finally handler depth) below signal = .passed (.raise raised) after ∧
      after.frame.blocks = below ∧ a.frame.stack.length < depth ∧ raised.kind = .stackUnderflow := by
  have leaves : (Block.finally handler depth).stays signal = false := by cases signal <;> rfl
  have meets := a.meet_meets callers (.finally handler depth) below signal
  generalize a.meet callers (.finally handler depth) below signal = met at meets
  cases meets with
  | stayed _ stays => rw [leaves] at stays; cases stays
  | tooFar _ continues far =>
      subst continues
      exact absurd encodable (Nat.not_le.mpr far)
  | @absorbed onward after _ intact carried absorbs resumed =>
      left
      refine ⟨after, rfl, ?_⟩
      rw [resumed, Frame.absorbed_lowered [] ((carried.absorbs _).trans absorbs)
        ((carried.stays _).trans leaves) intact]
      cases onward with
      | «return» value | «break» | «continue» target => exact ⟨.inl rfl, rfl⟩
      | «raise» raised => exact ⟨.inr rfl, rfl⟩
  | passed _ carried passes lowered =>
      right; left
      have fatal := Signal.fatal_of_finally passes
      exact ⟨_, _, rfl, by rw [lowered]; rfl, fatal, carried.fatal fatal⟩
  | damaged _ damaged kind below =>
      right; right
      refine ⟨_, _, supplant_eq, by rw [raise_frame, below], Nat.lt_of_not_le damaged, ?_⟩
      rw [raise_kind]
      rcases kind with kind | ⟨handler, _⟩
      · exact kind
      · cases handler

theorem Opcode.Moves.suffix {opcode : Opcode} {block : Block} {before after : List Block}
    (moves : opcode.Moves before after) (standing : (block :: below) <:+ before) :
    (block :: below) <:+ after ∨ opcode.popsBlock = true ∧ before = block :: below := by
  cases moves with
  | kept => exact .inl standing
  | pushed pushes top => exact .inl (standing.trans (List.suffix_cons top before))
  | popped pops top =>
      rcases List.suffix_cons_iff.mp standing with same | still
      · exact .inr ⟨pops, same.symm⟩
      · exact .inl still

namespace Machine

theorem fetch_blocks {a after : Active} {result : Except Fault (Instruction Value)}
    (fetched : fetch a = (result, after)) : after.frame.blocks = a.frame.blocks := by
  have fetches := fetch_fetches a
  rw [fetched] at fetches
  cases fetches <;> rfl

/-- An instruction that pops blocks and finds a `finally` block ends its region or goes wrong. -/
theorem dispatch_pops {machine : Machine} {instruction : Instruction Value} {a : Active}
    (fetched : fetch machine.active = (.ok instruction, a))
    (pops : instruction.opcode.popsBlock = true)
    (standing : machine.active.frame.blocks = .finally handler depth :: below) :
    ∃ way, Departure machine.callers.length handler depth below way (.resting (.running machine))
      machine.dispatch := by
  obtain ⟨active, callers⟩ := machine
  have found : a.frame.blocks = .finally handler depth :: below := (fetch_blocks fetched).trans standing
  cases named : instruction.opcode with
  | popBlock =>
      have run := execute_popBlock instruction.operand found
      have dispatched : dispatch ⟨active, callers⟩ = .resting (.running
          ⟨{ a with frame := { a.frame with blocks := below } }.emit (.blockPop .finally below.length), callers⟩) := by
        simp only [dispatch, fetched, named, run, follow, Block.kind]
      exact ⟨.completed, dispatched ▸ .completed rfl standing fetched named rfl⟩
  | popExcept =>
      have run := execute_popExcept_plain instruction.operand found (by simp [Block.kind])
      have dispatched : dispatch ⟨active, callers⟩ = .passing (.ofFault callers
          (.poppedBlock BlockKind.finally.name) { a with frame := { a.frame with blocks := below } }) := by
        simp only [dispatch, fetched, named, run]
        rfl
      refine ⟨.mistaken, dispatched ▸ .mistaken rfl standing fetched named ?_ ?_⟩
      · rw [Active.raise_frame]
      · exact Active.raise_kind _ _ _
  | _ => simp [named, Opcode.popsBlock] at pops

theorem Leads.blocks {callers : List Frame} {a : Active} {phase : Phase} (leads : Leads callers a phase) :
    phase.blocks level = blocksAt level (a.frame :: callers) := by
  cases leads with
  | onward => rfl
  | interrupted _ same _ _ => exact blocksAt_congr (congrArg Frame.blocks same)

theorem dispatch_finally (machine : Machine) (ends : ∀ world, machine.dispatch ≠ .resting (.unending world))
    (standing : (.finally handler depth :: below) <:+ (Phase.resting (.running machine)).blocks level) :
    (.finally handler depth :: below) <:+ machine.dispatch.blocks level ∨
      ∃ way, Departure level handler depth below way (.resting (.running machine)) machine.dispatch := by
  have inside : level ≤ machine.callers.length := Nat.le_of_lt_succ (lt_length_of_blocksAt standing)
  -- Stated before the phase is generalized: the departure names what the instruction leads to.
  have departs {instruction : Instruction Value} {a : Active}
      (fetched : fetch machine.active = (.ok instruction, a)) (pops : instruction.opcode.popsBlock = true)
      (own : machine.callers.length = level)
      (top : machine.active.frame.blocks = .finally handler depth :: below) :
      ∃ way, Departure level handler depth below way (.resting (.running machine)) machine.dispatch :=
    own ▸ dispatch_pops fetched pops top
  have dispatches := machine.dispatch_dispatches
  generalize machine.dispatch = reached at dispatches ends departs
  have executed {instruction : Instruction Value} {a after : Active}
      (fetched : fetch machine.active = (.ok instruction, a)) (works : a.Works instruction.opcode after) :
      (.finally handler depth :: below) <:+ blocksAt level (after.frame :: machine.callers) ∨
        ∃ way, Departure level handler depth below way (.resting (.running machine)) reached := by
    by_cases own : machine.callers.length = level
    · rw [blocksAt_own own]
      rw [Phase.blocks, Phase.frames, blocksAt_own own, ← fetch_blocks fetched] at standing
      rcases works.blocks.suffix standing with still | ⟨pops, top⟩
      · exact .inl still
      · exact .inr (departs fetched pops own ((fetch_blocks fetched).symm.trans top))
    · rw [Phase.blocks, Phase.frames, blocksAt_other own] at standing
      exact .inl (blocksAt_other own ▸ standing)
  cases dispatches with
  | @refused fault a fetched =>
      have same : (Passage.ofFault machine.callers fault a).active.frame.blocks =
          machine.active.frame.blocks := by
        rw [Passage.ofFault_frame, fetch_blocks fetched]
      left
      rw [Phase.blocks, Phase.frames, Passage.ofFault_callers, blocksAt_congr same]
      exact standing
  | unending fetched works => exact absurd rfl (ends _)
  | executed fetched works leads =>
      rw [leads.blocks]
      exact executed fetched works
  | called fetched works _ _ _ =>
      rw [Phase.blocks, Phase.frames, blocksAt_other (by rw [List.length_cons]; omega)]
      exact executed fetched works

end Machine

namespace Passage

theorem leave_blocks {passage : Passage} (elsewhere : passage.callers.length ≠ level) :
    passage.leave.blocks level = blocksAt level passage.callers := by
  obtain ⟨signal, a, callers⟩ := passage
  cases signal with
  | «break» | «continue» target => exact blocksAt_other elsewhere
  | «return» value =>
      cases callers with
      | nil => rfl
      | cons caller rest => exact blocksAt_congr rfl
  | «raise» raised =>
      cases callers with
      | nil => rfl
      | cons caller rest => exact blocksAt_congr rfl

theorem step_finally {passage : Passage} (encodable : passage.signal.Encodable)
    (standing : (.finally handler depth :: below) <:+ (Phase.passing passage).blocks level) :
    (.finally handler depth :: below) <:+ passage.step.blocks level ∨
      ∃ way, Departure level handler depth below way (.passing passage) passage.step := by
  have met := passage.active.meet_finally passage.callers below handler depth encodable
  have advances := passage.step_advances
  generalize passage.step = next at advances
  by_cases own : passage.callers.length = level
  · rw [Phase.blocks, Phase.frames, blocksAt_own own] at standing
    cases advances with
    | absorbed top absorbed =>
        rw [Phase.blocks, Phase.frames, blocksAt_own own]
        rw [top] at standing
        rcases List.suffix_cons_iff.mp standing with same | still
        · cases same
          rcases met with ⟨after, met, off, resumes⟩ | ⟨onward, after, met, _⟩ | ⟨raised, after, met, _⟩
          · cases met.symm.trans absorbed
            exact .inr ⟨.entered, .entered own top off resumes⟩
          · cases met.symm.trans absorbed
          · cases met.symm.trans absorbed
        · exact .inl (still.trans (Active.meet_absorbed absorbed).1)
    | passed top passed =>
        rw [Phase.blocks, Phase.frames, blocksAt_own own]
        rw [top] at standing
        rcases List.suffix_cons_iff.mp standing with same | still
        · cases same
          rcases met with ⟨after, met, _⟩ | ⟨onward, after, met, off, fatal, stays⟩ |
            ⟨raised, after, met, off, short, kind⟩
          · cases met.symm.trans passed
          · cases met.symm.trans passed
            exact .inr ⟨.abandoned, .doomed own top off fatal stays⟩
          · cases met.symm.trans passed
            exact .inr ⟨.abandoned, .underflowed own top off short kind⟩
        · exact .inl ((Active.meet_passed passed).1 ▸ still)
    | left empty left =>
        rw [empty] at standing
        cases List.eq_nil_of_suffix_nil standing
  · rw [Phase.blocks, Phase.frames, blocksAt_other own] at standing
    left
    cases advances with
    | absorbed top absorbed | passed top passed =>
        rw [Phase.blocks, Phase.frames, blocksAt_other own]
        exact standing
    | left empty left =>
        rw [← left, leave_blocks own]
        exact standing

end Passage

namespace Phase.Step

variable {before after : Phase}

theorem keeps_finally (stepped : Step before after) (encodable : before.Encodable)
    (standing : (.finally handler depth :: below) <:+ before.blocks level) :
    (.finally handler depth :: below) <:+ after.blocks level ∨
      ∃ way, Departure level handler depth below way before after := by
  cases stepped with
  | dispatch machine ends => exact machine.dispatch_finally ends standing
  | signal passage => exact Passage.step_finally encodable standing
  | host change machine => exact .inl standing

/-- Only a signal under way takes a frame away, and then no block is left in it. -/
theorem pops_frame (stepped : Step before after) (popped : after.frames.length < before.frames.length) :
    ∃ passage, before = .passing passage ∧ passage.active.frame.blocks = [] := by
  cases stepped with
  | dispatch machine ends =>
      exfalso
      have dispatches := machine.dispatch_dispatches
      generalize machine.dispatch = reached at dispatches ends popped
      cases dispatches with
      | refused fetched => exact Nat.lt_irrefl _ popped
      | unending fetched works => exact ends _ rfl
      | executed fetched works leads =>
          cases leads with
          | onward | interrupted _ _ _ _ => exact Nat.lt_irrefl _ popped
      | called _ _ _ _ _ =>
          simp only [frames, List.length_cons] at popped
          omega
  | signal passage =>
      refine ⟨passage, rfl, ?_⟩
      have advances := passage.step_advances
      generalize passage.step = next at advances popped
      cases advances with
      | absorbed _ _ | passed _ _ => exact absurd popped (Nat.lt_irrefl _)
      | left empty left => exact empty
  | host change machine => exact absurd popped (Nat.lt_irrefl _)

end Phase.Step

namespace Departure

variable {way : Way} {before after : Phase}

theorem doomed_of_lost (departs : Departure level handler depth below way before after)
    (lost : way = .mistaken ∨ way = .abandoned) : after.Doomed := by
  cases departs with
  | completed | entered => rcases lost with lost | lost <;> cases lost
  | mistaken own standing fetched pops off kind | underflowed own standing off short kind =>
      rw [Phase.Doomed, Signal.Fatal, kind]
      rfl
  | doomed own standing off fatal still => exact still

end Departure

/-- The `finally` guarantee. In a run, a `finally` block stays on its frame until it leaves in one of
its four ways. A frame that is left has no block; and if it is left by a `return` or an exception that
is not fatal, every `finally` block that left until then had its region ended or its handler entered. -/
theorem finally_guarantee {code : Code Value} {environment : Environment} {arguments : List Value}
    {world : World} {before after : Phase}
    (reached : (Phase.resting (world.launch code environment arguments)).Reaches before)
    (stepped : before.Step after) :
    (∀ level handler depth below, (.finally handler depth :: below) <:+ before.blocks level →
      (.finally handler depth :: below) <:+ after.blocks level ∨
        ∃ way, Departure level handler depth below way before after) ∧
    (after.frames.length < before.frames.length → ∃ passage, before = .passing passage ∧
      passage.active.frame.blocks = [] ∧
      (¬ passage.signal.Fatal → ∀ first second,
        (Phase.resting (world.launch code environment arguments)).Reaches first → first.Step second →
        second.Reaches before → ∀ level handler depth below way,
        Departure level handler depth below way first second → way = .completed ∨ way = .entered)) := by
  refine ⟨fun level handler depth below standing => stepped.keeps_finally reached.encodable standing, ?_⟩
  intro popped
  obtain ⟨passage, rfl, empty⟩ := stepped.pops_frame popped
  refine ⟨passage, rfl, empty, ?_⟩
  intro ordinary first second _ _ later level handler depth below way departs
  -- A block that was lost would have left something fatal under way ever since.
  have kept (lost : way = .mistaken ∨ way = .abandoned) : False :=
    ordinary (later.doomed (departs.doomed_of_lost lost)).1
  cases way with
  | completed => exact .inl rfl
  | entered => exact .inr rfl
  | mistaken => exact (kept (.inl rfl)).elim
  | abandoned => exact (kept (.inr rfl)).elim

/-- `try: return 3`, with an empty `finally` body at offset 7. -/
def guardedReturn : Code Value :=
  { name := "guarded", instructions := #[122, 4, 0, 100, 0, 0, 83, 88], constants := [.int 3]
    names := [], localSlots := [], argCount := 0 }

theorem finally_guarantee_return :
    let start := Phase.resting (World.launch guardedReturn default [] default)
    ∃ passage, start.Reaches (.passing passage) ∧ (Phase.passing passage).blocks 0 = [.finally 7 0] ∧
      Departure 0 7 0 [] .entered (.passing passage) passage.step := by
  intro start
  obtain ⟨machine, running⟩ :
      ∃ machine, (World.launch guardedReturn default [] default).advance 2 = .running machine := ⟨_, rfl⟩
  have before : start.Reaches (.resting (.running machine)) :=
    running ▸ .advance (by rw [running]; exact fun _ => Status.noConfusion)
  obtain ⟨passage, resumed, dispatched, standing, stepped, gone⟩ : ∃ passage resumed,
      machine.dispatch = .passing passage ∧ (Phase.passing passage).blocks 0 = [.finally 7 0] ∧
        passage.step = .resting (.running resumed) ∧ passage.step.blocks 0 = [] := by
    cases running
    exact ⟨_, _, rfl, rfl, rfl, rfl⟩
  have reached : start.Reaches (.passing passage) :=
    before.tail (dispatched ▸ .dispatch machine (by rw [dispatched]; exact fun _ => Phase.noConfusion))
  refine ⟨passage, reached, standing, ?_⟩
  rcases (finally_guarantee reached (.signal passage)).1 0 7 0 [] (standing ▸ List.suffix_refl _) with
    still | ⟨way, departs⟩
  · rw [gone] at still
    cases List.eq_nil_of_suffix_nil still
  · rw [stepped] at departs ⊢
    cases departs with
    | entered own top off resumes => exact .entered own top off resumes

end BlockVM
