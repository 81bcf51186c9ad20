import BlockVM.Proofs.Tracebacks

namespace BlockVM

/-! How an exception comes by its context. It is given the exception being handled when it is raised; on its
way it may only be given one that it lacks, by the handlers that it leaves. -/

/-- An exception that has left a block in good order. If it had no context and the block was that of a handler
with another exception, it has become a copy with that one as its context. -/
inductive Raised.Onward (block : Block) (frame : Frame) (heap : Heap) (raised : Raised) : Raised → Prop where
  | same : Onward block frame heap raised raised
  | joined {depth id : Nat} {kind value trace : Value} {saved : Raised} {after : Heap}
      (handler : block = .exceptHandler depth) (saving : frame.Saving depth kind value trace)
      (built : Raised.ofValues kind value trace heap = .ok (saved, after))
      (bare : raised.exception.context = none) (differs : raised.exception.id ≠ saved.exception.id) :
      Onward block frame heap raised
        { raised with exception := { raised.exception with id, context := some saved.exception } }

theorem Block.leaves_raise (block : Block) (raised : Raised) : block.stays (.raise raised) = false := by
  cases block <;> rfl

namespace Active

variable {frame : Frame} {heap after : Heap} {saved : Raised} {block : Block}

theorem restore_onward {depth : Nat} {kind value trace : Value} (saving : frame.Saving depth kind value trace)
    (built : Raised.ofValues kind value trace heap = .ok (saved, after)) (raised : Raised) (a : Active) :
    ∃ onward, raised.Onward (.exceptHandler depth) frame heap onward ∧
      (a.restore saved (.raise raised)).1 = .raise onward ∧ (a.restore saved (.raise raised)).2.frame = a.frame := by
  by_cases bare : raised.exception.context.isNone ∧ raised.exception.id ≠ saved.exception.id
  · rw [restore_of_bare a bare]
    exact ⟨_, .joined rfl saving built (Option.isNone_iff_eq_none.mp bare.1) bare.2, rfl, rfl⟩
  · rw [restore_of_chained a bare]
    exact ⟨raised, .same, rfl, rfl⟩

/-- A block in good order is off before it is asked whether it absorbs the exception. -/
theorem meet_lowered {a : Active} (callers : List Frame) (rest : List Block) (raised : Raised)
    (intact : block.Intact a.frame.stack) :
    ∃ onward, ∃ left : Active, raised.Onward block a.frame a.world.heap onward ∧
      left.frame = a.frame.lowered block rest ∧
      a.meet callers block rest (.raise raised) =
        match left.absorb block (.raise onward) with
        | some (.ok after) => .absorbed after
        | some (.error fault) => left.supplant callers fault
        | none => .passed (.raise onward) left := by
  have met := meet_of_leaves callers rest a (block.leaves_raise raised)
  let taken : Active := { a with frame := { a.frame with blocks := rest } }
  have off (plain : block.kind ≠ .exceptHandler) (enough : block.depth ≤ taken.frame.stack.length) :
      taken.release block = (.ok none, taken.cut block.depth) :=
    (release_plain plain).trans (if_pos enough)
  cases block with
  | exceptHandler depth =>
      obtain ⟨enough, kind, value, trace, slots, saved⟩ := intact
      obtain ⟨held, heap, built⟩ := Raised.ofValues_exists saved a.world.heap
      have released : taken.release (.exceptHandler depth) = (.ok (some held), (taken.cut depth).setHeap heap) := by
        rw [release_handler (a := taken) enough slots]
        simp only [taken, built]
      rw [released] at met
      obtain ⟨onward, goes, signal, frame⟩ := restore_onward ⟨enough, slots⟩ built raised
        (((taken.cut depth).setHeap heap).emit (.blockPop .exceptHandler rest.length))
      refine ⟨onward, _, goes, frame, met.trans ?_⟩
      rw [← signal]
      rfl
  | loop exit depth | setupExcept handler depth | «finally» handler depth =>
      rw [off (by simp [Block.kind]) intact] at met
      exact ⟨raised, _, .same, rfl, met⟩

/-- An exception meets a block in good order, which lets it pass or absorbs it. -/
theorem meet_raise {a : Active} (callers : List Frame) (rest : List Block) (raised : Raised)
    (intact : block.Intact a.frame.stack) :
    ∃ onward, raised.Onward block a.frame a.world.heap onward ∧
      ((∃ left, a.meet callers block rest (.raise raised) = .passed (.raise onward) left ∧
          left.frame = a.frame.lowered block rest) ∨
        ∃ after, a.meet callers block rest (.raise raised) = .absorbed after ∧
          after.frame = (a.frame.lowered block rest).absorbed block (.raise onward) ∧
          block.absorbs (.raise onward) = true) := by
  obtain ⟨onward, left, goes, frame, met⟩ := meet_lowered callers rest raised intact
  refine ⟨onward, goes, ?_⟩
  have absorbs := left.absorb_absorbs (block.leaves_raise onward)
  rw [met]
  generalize left.absorb block (.raise onward) = outcome at absorbs
  cases absorbs with
  | passed passes => exact .inl ⟨left, rfl, frame⟩
  | tooFar continues far => cases continues
  | resumed absorbs resumed quiet => exact .inr ⟨_, rfl, frame ▸ resumed, absorbs⟩

end Active

/-- The exception under way, or the one that has come to rest: it has ended the run, or the handler at the top of
the block stack has it, once to look at and once to give back. -/
def Phase.HasException (now : Raised) : Phase → Prop
  | .passing passage => passage.signal = .raise now
  | .resting (.running machine) =>
      ∃ base rest, machine.active.frame.blocks = .exceptHandler base.length :: rest ∧
        machine.active.frame.stack = now.toValues ++ (now.toValues ++ base)
  | .resting (.finished outcome _) => outcome = .error now
  | .resting (.unending _) => False

theorem Frame.absorbed_hasException {block : Block} {now : Raised} {callers : List Frame} {after : Active}
    {frame : Frame} (absorbs : block.absorbs (.raise now) = true)
    (resumed : after.frame = frame.absorbed block (.raise now)) :
    (Phase.resting (.running ⟨after, callers⟩)).HasException now := by
  cases block with
  | loop exit depth | exceptHandler depth => cases absorbs
  | setupExcept handler depth | «finally» handler depth =>
      exact ⟨frame.stack, frame.blocks, by rw [resumed]; rfl, by rw [resumed]; rfl⟩

namespace Passage

variable {passage : Passage} {raised : Raised}

theorem step_past {block : Block} {rest : List Block} (raises : passage.signal = .raise raised)
    (standing : passage.active.frame.blocks = block :: rest) (intact : block.Intact passage.active.frame.stack) :
    ∃ onward, raised.Onward block passage.active.frame passage.active.world.heap onward ∧
      passage.step.HasException onward ∧ ∀ next, passage.step = .passing next →
        next.active.frame = passage.active.frame.lowered block rest ∧ next.callers = passage.callers := by
  obtain ⟨onward, goes, ⟨left, met, lowered⟩ | ⟨after, met, resumed, absorbs⟩⟩ :=
    Active.meet_raise passage.callers rest raised intact
  · have stepped : passage.step = .passing ⟨.raise onward, left, passage.callers⟩ := by
      simp only [step, standing, raises, met]
    rw [stepped]
    exact ⟨onward, goes, rfl, fun next same => Phase.passing.inj same ▸ ⟨lowered, rfl⟩⟩
  · have stepped : passage.step = .resting (.running ⟨after, passage.callers⟩) := by
      simp only [step, standing, raises, met]
    rw [stepped]
    exact ⟨onward, goes, Frame.absorbed_hasException absorbs resumed, fun _ same => by cases same⟩

theorem step_out (raises : passage.signal = .raise raised) (empty : passage.active.frame.blocks = []) :
    ∃ onward : Raised, onward.exception = raised.exception ∧ passage.step.HasException onward ∧
      ∀ next, passage.step = .passing next → next.active.frame :: next.callers = passage.callers := by
  have exits : passage.Exits passage.leave := leave_exits (by rw [raises]; rfl)
  have stepped : passage.step = passage.leave := by simp only [step, empty]
  rw [stepped]
  generalize passage.leave = next at exits
  cases exits with
  | finished last returns | returned waiting returns => rw [raises] at returns; cases returns
  | failed last same exception =>
      obtain rfl := Signal.raise.inj (raises.symm.trans same)
      exact ⟨_, exception, rfl, fun _ same => by cases same⟩
  | escaped waiting same exception resumed =>
      obtain rfl := Signal.raise.inj (raises.symm.trans same)
      refine ⟨_, exception, rfl, fun next same => ?_⟩
      obtain rfl := Phase.passing.inj same
      rw [waiting, resumed]

end Passage

/-- What is left of a frame once some blocks are off. -/
structure Frame.Within (now before : Frame) : Prop where
  blocks : now.blocks <:+ before.blocks
  stack : ∃ keep ≤ before.stack.length, now.stack = before.stack.rtake keep

namespace Frame.Within

variable {now before : Frame}

theorem refl (frame : Frame) : frame.Within frame :=
  ⟨List.suffix_refl _, frame.stack.length, Nat.le_refl _, by simp [List.rtake]⟩

theorem lowered {block : Block} {rest : List Block} (within : now.Within before)
    (standing : now.blocks = block :: rest) (enough : block.depth ≤ now.stack.length) :
    (now.lowered block rest).Within before := by
  obtain ⟨keep, fits, kept⟩ := within.stack
  rw [kept, length_rtake fits] at enough
  refine ⟨(standing ▸ List.suffix_cons block rest).trans within.blocks, block.depth, enough.trans fits, ?_⟩
  rw [← rtake_rtake enough fits, ← kept]
  rfl

theorem saving {depth : Nat} {kind value trace : Value} (within : now.Within before)
    (saving : now.Saving depth kind value trace) : before.Saving depth kind value trace := by
  obtain ⟨keep, fits, kept⟩ := within.stack
  obtain ⟨enough, slots⟩ := saving
  rw [kept, length_rtake fits] at enough
  rw [kept, rtake_rtake enough fits, rtake_rtake (by omega) fits] at slots
  exact ⟨enough.trans fits, slots⟩

end Frame.Within

/-- What an exception may have become on its way through the frames. If it had no context, it may be a copy that
has another exception as its context, one that a handler running in them had saved. -/
inductive ExceptionObject.Gains (frames : List Frame) (exception : ExceptionObject) : ExceptionObject → Prop where
  | same : Gains frames exception exception
  | joined {frame : Frame} {depth id : Nat} {kind value trace : Value} {saved : Raised} {heap after : Heap}
      (there : frame ∈ frames) (running : .exceptHandler depth ∈ frame.blocks)
      (saving : frame.Saving depth kind value trace)
      (built : Raised.ofValues kind value trace heap = .ok (saved, after))
      (bare : exception.context = none) (differs : exception.id ≠ saved.exception.id) :
      Gains frames exception { exception with id, context := some saved.exception }

namespace ExceptionObject.Gains

variable {frames : List Frame} {exception now : ExceptionObject}

theorem eq_of_context {context : ExceptionObject} (gains : exception.Gains frames now)
    (chained : exception.context = some context) : now = exception := by
  cases gains with
  | same => rfl
  | joined _ _ _ _ bare => rw [chained] at bare; cases bare

theorem eq_of_idle (gains : exception.Gains frames now) (idle : ∀ frame ∈ frames, frame.Idle) : now = exception := by
  cases gains with
  | same => rfl
  | joined there running => exact absurd rfl (idle _ there _ running)

end ExceptionObject.Gains

theorem ExceptionObject.Gains.onward {frames : List Frame} {exception : ExceptionObject} {raised onward : Raised}
    {block : Block} {rest : List Block} {frame before : Frame} {heap : Heap}
    (gains : exception.Gains frames raised.exception) (there : before ∈ frames) (within : frame.Within before)
    (standing : frame.blocks = block :: rest) (goes : raised.Onward block frame heap onward) :
    exception.Gains frames onward.exception := by
  cases goes with
  | same => exact gains
  | joined handler saving built bare differs =>
      subst handler
      have running : .exceptHandler _ ∈ before.blocks := within.blocks.subset (standing ▸ List.mem_cons_self)
      generalize raised.exception = former at *
      cases gains with
      | same => exact .joined there running (within.saving saving) built bare differs
      | joined => cases bare

/-- An exception is nowhere lost, replaced or changed on its way, except that it may gain a context. -/
theorem Passage.Conveys.gains {origin : Passage} {raised : Raised} {left : Nat} {phase : Phase}
    (conveys : origin.Conveys left phase) (raises : origin.signal = .raise raised) :
    let frames := origin.active.frame :: origin.callers
    ∃ now, phase.HasException now ∧ raised.exception.Gains frames now.exception ∧
      ∀ passage, phase = .passing passage → ∃ before, frames.drop left = before :: passage.callers ∧
        passage.active.frame.Within before := by
  intro frames
  -- The frames ahead are those of the origin, the first one cut down: a handler that is left now was running
  -- when the exception set out, and had saved the same values.
  induction conveys with
  | start =>
      refine ⟨raised, raises, .same, fun passage same => ?_⟩
      obtain rfl := Phase.passing.inj same
      exact ⟨_, rfl, .refl _⟩
  | past way standing intact ih =>
      obtain ⟨now, signal, gained, ahead⟩ := ih
      obtain ⟨before, ahead, within⟩ := ahead _ rfl
      obtain ⟨onward, goes, carried, lowered⟩ := step_past signal standing intact
      have there : before ∈ frames := List.mem_of_mem_drop (ahead ▸ List.mem_cons_self)
      refine ⟨onward, carried, gained.onward there within standing goes, fun next same => ?_⟩
      obtain ⟨frame, callers⟩ := lowered next same
      exact ⟨before, by rw [ahead, callers], frame ▸ within.lowered standing intact.depth_le⟩
  | out way empty ih =>
      obtain ⟨now, signal, gained, ahead⟩ := ih
      obtain ⟨before, ahead, within⟩ := ahead _ rfl
      obtain ⟨onward, same, carried, resumed⟩ := step_out signal empty
      refine ⟨onward, carried, same ▸ gained, fun next passes => ?_⟩
      exact ⟨next.active.frame, by rw [← List.tail_drop, ahead, resumed next passes, List.tail_cons], .refl _⟩

/-- What holds of an exception wherever it is on its way, and where it comes to rest. -/
def Passage.Carries (origin : Passage) (holds : ExceptionObject → Prop) : Prop :=
  ∀ left phase, origin.Conveys left phase → ∃ now, phase.HasException now ∧ holds now.exception

theorem Passage.carries_gains {origin : Passage} {raised : Raised} (raises : origin.signal = .raise raised) :
    origin.Carries (raised.exception.Gains (origin.active.frame :: origin.callers)) := by
  intro left phase way
  obtain ⟨now, carried, gains, -⟩ := way.gains raises
  exact ⟨now, carried, gains⟩

theorem Passage.Carries.imp {origin : Passage} {first second : ExceptionObject → Prop} (carries : origin.Carries first)
    (implies : ∀ exception, first exception → second exception) : origin.Carries second := by
  intro left phase way
  obtain ⟨now, carried, holds⟩ := carries left phase way
  exact ⟨now, carried, implies _ holds⟩

/-- On its way, an exception comes to a block that fails, so that another one takes its place. -/
def Passage.Thwarted (origin : Passage) : Prop :=
  ∃ left passage block rest, origin.Conveys left (.passing passage) ∧
    passage.active.frame.blocks = block :: rest ∧ ¬ block.Intact passage.active.frame.stack

theorem Passage.conveys_or_thwarted (origin : Passage) :
    (∃ left, origin.Conveys left (.resting (Phase.passing origin).settle)) ∨ origin.Thwarted := by
  have along (steps : Nat) :
      (∃ left, origin.Conveys left (Phase.proceed^[steps] (.passing origin))) ∨ origin.Thwarted := by
    induction steps with
    | zero => exact .inl ⟨0, .start⟩
    | succ steps ih =>
        rw [Function.iterate_succ_apply']
        rcases ih with ⟨left, way⟩ | thwarted
        · generalize Phase.proceed^[steps] (.passing origin) = phase at way
          cases phase with
          | resting status => exact .inl ⟨left, way⟩
          | passing passage =>
              cases standing : passage.active.frame.blocks with
              | nil => exact .inl ⟨left + 1, .out way standing⟩
              | cons block rest =>
                  by_cases intact : block.Intact passage.active.frame.stack
                  · exact .inl ⟨left, .past way standing intact⟩
                  · exact .inr ⟨left, passage, block, rest, way, standing, intact⟩
        · exact .inr thwarted
  obtain ⟨steps, -, rested⟩ := origin.exists_resting
  exact rested ▸ along steps

/-- The context of an exception is settled when it is raised. What is on its way, reaches a handler or ends the run
is the exception raised: with the exception of the innermost running handler for its context, if that is another
one, and just as it was if no handler is running. An exception does not arrive only if a block fails on its way. -/
theorem Phase.Throws.context_settled {before : Phase} {exception : ExceptionObject} {a : Active}
    {callers : List Frame} (throws : before.Throws exception a callers) :
    let origin := Passage.ofThrow callers exception a
    let frames := a.frame :: callers
    before.Step (.passing origin) ∧
    ((∃ left, origin.Conveys left (.resting (Phase.passing origin).settle)) ∨ origin.Thwarted) ∧
    (∀ kind value trace held heap, Innermost frames kind value trace →
      Raised.ofValues kind value trace a.world.heap = .ok (held, heap) → held.exception.id ≠ exception.id →
      origin.Carries (· = { exception with id := heap.born, context := some held.exception })) ∧
    ((∀ frame ∈ frames, frame.Idle) → origin.Carries (· = exception)) := by
  intro origin frames
  refine ⟨throws.step, origin.conveys_or_thwarted, ?_, ?_⟩
  · intro kind value trace held heap innermost built differs
    have handled : handled? a.world.heap frames = some (held, heap) := by
      rw [innermost.handled?, built]
      rfl
    refine (Passage.carries_gains rfl).imp fun now gains => ?_
    rw [Active.throw_handled handled, if_neg differs] at gains
    exact gains.eq_of_context rfl
  · intro idle
    refine (Passage.carries_gains rfl).imp fun now gains => ?_
    have same : origin.active.frame = a.frame := (a.throw_spec callers exception).1
    rw [Active.throw_unhandled (handled?_of_idle idle _), same] at gains
    exact gains.eq_of_idle idle

/-- A module whose handler calls a function, which raises. -/
def raiseWhileHandling : Code Value :=
  let callee : Code Value :=
    { name := "fail", instructions := #[100, 0, 0, 130, 1, 0], constants := [.exceptionKind .typeError]
      names := [], localSlots := [], argCount := 0 }
  { name := "module", instructions := #[121, 6, 0, 100, 0, 0, 130, 1, 0, 100, 1, 0, 100, 2, 0, 132, 0, 0, 131, 0, 0]
    constants := [.exceptionKind .valueError, .code 0 callee, .str 1 "fail"], names := [], localSlots := []
    argCount := 0 }

theorem context_settled_raiseWhileHandling :
    let start := twoFrames.launch raiseWhileHandling ⟨⟨0⟩, ⟨0⟩⟩ []
    ∃ final world held, start.advance 9 = .finished (.error final) world ∧ final.exception.kind = .typeError ∧
      final.exception.context = some held ∧ held.kind = .valueError ∧ held.context = none := by
  intro start
  obtain ⟨machine, instruction, exception, a, after, caller, outer, last, final, world, kind, value, trace, held, heap,
      ran, fetched, run, thrown, waiting, plain, blocks, saving, built, holds, bare, differs, left, resumed, passed,
      outermost, ended, finished⟩ :
      ∃ machine instruction exception a after caller outer last final world kind value trace held heap,
        start.advance 8 = .running machine ∧ Machine.fetch machine.active = (.ok instruction, a) ∧
        execute instruction.opcode instruction.operand a = .ok (.throw exception) after ∧
        exception.kind = .typeError ∧ machine.callers = [caller] ∧ after.frame.blocks = [] ∧
        caller.blocks = [] ++ [.exceptHandler 0] ∧ caller.Saving 0 kind value trace ∧
        Raised.ofValues kind value trace after.world.heap = .ok (held, heap) ∧
        held.exception.kind = .valueError ∧ held.exception.context = none ∧ held.exception.id ≠ exception.id ∧
        (Passage.ofThrow machine.callers exception after).step = .passing outer ∧ outer.active.frame = caller ∧
        outer.step = .passing last ∧ last.active.frame.blocks = [] ∧
        last.step = .resting (.finished (.error final) world) ∧ start.advance 9 = .finished (.error final) world :=
    ⟨_, _, _, _, _, _, _, _, _, _, _, _, _, _, _, rfl, rfl, rfl, rfl, rfl, rfl, rfl, ⟨by decide, rfl⟩, rfl, rfl, rfl,
      by decide, rfl, rfl, rfl, rfl, rfl, rfl⟩
  have intact : (Block.exceptHandler 0).Intact outer.active.frame.stack := by
    rw [resumed]
    exact ⟨saving.enough, kind, value, trace, saving.slots, Raised.saved_of_ofValues built⟩
  have inner : (Passage.ofThrow machine.callers exception after).active.frame.blocks = [] :=
    ((after.throw_spec machine.callers exception).1 ▸ plain)
  have way : (Passage.ofThrow machine.callers exception after).Conveys 2
      (.resting (.finished (.error final) world)) :=
    ended ▸ .out (passed ▸ .past (left ▸ .out .start inner) (resumed ▸ blocks) intact) outermost
  have innermost : Innermost (after.frame :: machine.callers) kind value trace := by
    refine .outward (fun block member => absurd (plain ▸ member) List.not_mem_nil) (waiting ▸ ?_)
    exact .here blocks (fun _ member => absurd member List.not_mem_nil) saving
  obtain ⟨now, ends, same⟩ := (Phase.Throws.thrown fetched run).context_settled.2.2.1 kind value trace held heap
    innermost built differs 2 _ way
  obtain rfl := Except.error.inj ends
  exact ⟨final, world, held.exception, finished, by rw [same]; exact thrown, by rw [same], holds, bare⟩

end BlockVM
