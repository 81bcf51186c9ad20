import Mathlib.Algebra.GroupWithZero.Nat
import Mathlib.Logic.Function.Iterate
import BlockVM.Machine.Step
import BlockVM.Proofs.Signals

namespace BlockVM

/-! A signal under way, one step at a time. A step meets the top block of the running frame or, when
there is none, leaves the frame. Steps come to an end, and they end where `Machine.settle` says. -/

namespace Passage

/-- The exception of a fault, under way in the running frame. -/
def ofFault (callers : List Frame) (fault : Fault) (a : Active) : Passage :=
  ⟨.raise (a.raise callers fault).1, (a.raise callers fault).2, callers⟩

@[simp] theorem ofFault_frame (callers : List Frame) (fault : Fault) (a : Active) :
    (ofFault callers fault a).active.frame = a.frame :=
  a.raise_frame callers fault

@[simp] theorem ofFault_callers (callers : List Frame) (fault : Fault) (a : Active) :
    (ofFault callers fault a).callers = callers :=
  rfl

theorem ofFault_extends (callers : List Frame) (fault : Fault) (a : Active) :
    a.world.Extends Event.OfUnwinding (ofFault callers fault a).active.world :=
  a.raise_extends callers fault

theorem raise_eq (callers : List Frame) (fault : Fault) (a : Active) :
    Machine.raise callers fault a = .passing (ofFault callers fault a) :=
  rfl

/-- A signal leaves its frame. Outside a loop, `break` and `continue` turn into exceptions first. -/
def leave : Passage → Phase
  | ⟨.break, a, callers⟩ => .passing (ofFault callers .breakOutsideLoop a)
  | ⟨.continue _, a, callers⟩ => .passing (ofFault callers .continueOutsideLoop a)
  | ⟨.return value, a, callers⟩ =>
      let a := a.emit (.return (a.frame.depth - 1))
      match callers with
      | [] => .resting (.finished (.ok value) a.world)
      | caller :: rest =>
          .resting (.running ⟨{ a with frame := caller.push value, recovered := none }, rest⟩)
  | ⟨.raise raised, a, callers⟩ =>
      let a := a.emit (.return (a.frame.depth - 1))
      let (raised, heap) := raised.leave a.frame a.world.heap
      match callers with
      | [] => .resting (.finished (.error raised) (a.setHeap heap).world)
      | caller :: rest =>
          .passing ⟨.raise raised, { a.setHeap heap with frame := caller }.announce raised, rest⟩

def step (passage : Passage) : Phase :=
  match passage.active.frame.blocks with
  | [] => passage.leave
  | block :: rest =>
      match passage.active.meet passage.callers block rest passage.signal with
      | .absorbed active => .resting (.running ⟨active, passage.callers⟩)
      | .passed signal active => .passing ⟨signal, active, passage.callers⟩

inductive Advances (passage : Passage) : Phase → Prop where
  | absorbed {block : Block} {rest : List Block} {after : Active}
      (standing : passage.active.frame.blocks = block :: rest)
      (met : passage.active.meet passage.callers block rest passage.signal = .absorbed after) :
      Advances passage (.resting (.running ⟨after, passage.callers⟩))
  | passed {block : Block} {rest : List Block} {onward : Signal} {after : Active}
      (standing : passage.active.frame.blocks = block :: rest)
      (met : passage.active.meet passage.callers block rest passage.signal = .passed onward after) :
      Advances passage (.passing ⟨onward, after, passage.callers⟩)
  | left {phase : Phase} (empty : passage.active.frame.blocks = []) (left : passage.leave = phase) :
      Advances passage phase

theorem step_advances (passage : Passage) : passage.Advances passage.step := by
  cases standing : passage.active.frame.blocks with
  | nil =>
      simp only [step, standing]
      exact .left standing rfl
  | cons block rest =>
      simp only [step, standing]
      split
      · rename_i after met
        exact .absorbed standing met
      · rename_i onward after met
        exact .passed standing met

theorem settle_congr {callers : List Frame} {signal onward : Signal} {a after : Active}
    (same : a.resolve callers signal = after.resolve callers onward) :
    Machine.settle callers signal a = Machine.settle callers onward after := by
  cases callers <;> simp only [Machine.settle, same]

theorem resolve_absorbed {callers : List Frame} {block : Block} {rest : List Block} {signal : Signal}
    {a after : Active} (standing : a.frame.blocks = block :: rest)
    (met : a.meet callers block rest signal = .absorbed after) :
    a.resolve callers signal = .absorbed after := by
  simp only [Active.resolve, standing, Active.drain, met]

theorem resolve_passed {callers : List Frame} {block : Block} {rest : List Block}
    {signal onward : Signal} {a after : Active} (standing : a.frame.blocks = block :: rest)
    (met : a.meet callers block rest signal = .passed onward after) :
    a.resolve callers signal = after.resolve callers onward := by
  simp only [Active.resolve, standing, Active.drain, met, (Active.meet_passed met).1]

theorem leave_settle {signal : Signal} {a : Active} {callers : List Frame} (empty : a.frame.blocks = []) :
    (leave ⟨signal, a, callers⟩).settle = Machine.settle callers signal a := by
  have drained (signal : Signal) : a.drain callers a.frame.blocks signal = .passed signal a := by
    rw [empty, Active.drain]
  have converted (fault : Fault)
      (same : a.resolve callers signal =
        .escaped (.raised (a.raise callers fault).1) (a.raise callers fault).2) :
      (Phase.passing (ofFault callers fault a)).settle = Machine.settle callers signal a := by
    have ended : (a.raise callers fault).2.resolve callers (.raise (a.raise callers fault).1) =
        .escaped (.raised (a.raise callers fault).1) (a.raise callers fault).2 := by
      simp only [Active.resolve, Active.raise_frame, empty, Active.drain]
    exact settle_congr (ended.trans same.symm)
  cases signal with
  | «break» => exact converted .breakOutsideLoop (by simp only [Active.resolve, drained])
  | «continue» target => exact converted .continueOutsideLoop (by simp only [Active.resolve, drained])
  | «return» value =>
      have resolved : a.resolve callers (.return value) = .escaped (.returned value) a := by
        simp only [Active.resolve, drained]
      cases callers <;> simp only [Machine.settle, resolved] <;> rfl
  | «raise» raised =>
      have resolved : a.resolve callers (.raise raised) = .escaped (.raised raised) a := by
        simp only [Active.resolve, drained]
      cases callers <;> simp only [Machine.settle, resolved] <;> rfl

/-- A step does not change where the signal comes to rest. -/
theorem step_settle (passage : Passage) : passage.step.settle = (Phase.passing passage).settle := by
  have advances := passage.step_advances
  obtain ⟨signal, a, callers⟩ := passage
  generalize step _ = next at advances
  cases advances with
  | absorbed standing met =>
      have resolved := resolve_absorbed standing met
      cases callers <;> simp only [Phase.settle, Machine.settle, resolved]
  | passed standing met => exact settle_congr (resolve_passed standing met).symm
  | left empty left => rw [← left, leave_settle empty, Phase.settle]

/-- Steps that `break` and `continue` may need to turn into an exception. -/
def detour : Signal → Nat
  | .break | .continue _ => 1
  | .return _ | .raise _ => 0

/-- The blocks of some frames and the frames themselves. -/
def height (frames : List Frame) : Nat :=
  (frames.map (·.blocks.length + 1)).sum

/-- No signal takes more steps than this. -/
def weight (passage : Passage) : Nat :=
  height (passage.active.frame :: passage.callers) + detour passage.signal

@[simp] theorem height_cons (frame : Frame) (frames : List Frame) :
    height (frame :: frames) = frame.blocks.length + 1 + height frames := by
  simp [height]

theorem ofFault_detour (callers : List Frame) (fault : Fault) (a : Active) :
    detour (ofFault callers fault a).signal = 0 :=
  rfl

theorem detour_of_carried {signal onward : Signal} (carried : signal.Carried onward) :
    detour onward = detour signal := by
  cases carried <;> rfl

theorem leave_weight_lt {passage next : Passage} (left : passage.leave = .passing next) :
    next.weight < passage.weight := by
  obtain ⟨signal, a, callers⟩ := passage
  cases signal with
  | «break» | «continue» target =>
      obtain rfl := Phase.passing.inj left
      simp only [weight, ofFault_frame, ofFault_callers, ofFault_detour]
      exact Nat.lt_succ_self _
  | «return» value => cases callers <;> cases left
  | «raise» raised =>
      cases callers with
      | nil => cases left
      | cons caller rest =>
          obtain rfl := Phase.passing.inj left
          simp only [weight, height_cons, Active.announce_frame, detour]
          omega

theorem step_weight_lt {passage next : Passage} (stepped : passage.step = .passing next) :
    next.weight < passage.weight := by
  have advances := passage.step_advances
  rw [stepped] at advances
  cases advances with
  | passed standing met =>
      obtain ⟨below, _, carried | ⟨raised, rfl, _⟩⟩ := Active.meet_passed met
      · simp only [weight, height_cons, below, standing, List.length_cons, detour_of_carried carried]
        omega
      · simp only [weight, height_cons, below, standing, List.length_cons, detour]
        omega
  | left empty left => exact leave_weight_lt left

end Passage

namespace Phase

/-- The next step of a signal under way; a run at rest stays there. -/
def proceed : Phase → Phase
  | .resting status => .resting status
  | .passing passage => passage.step

theorem proceed_settle (phase : Phase) : phase.proceed.settle = phase.settle := by
  cases phase with
  | resting status => rfl
  | passing passage => exact passage.step_settle

theorem iterate_settle (phase : Phase) (steps : Nat) : (proceed^[steps] phase).settle = phase.settle := by
  induction steps with
  | zero => rfl
  | succ steps ih => rw [Function.iterate_succ_apply', proceed_settle, ih]

end Phase

/-- A signal under way comes to rest within its weight. -/
theorem Passage.exists_resting (passage : Passage) :
    ∃ steps ≤ passage.weight, Phase.proceed^[steps] (.passing passage) =
      .resting (Phase.passing passage).settle := by
  induction weighed : passage.weight using Nat.strongRecOn generalizing passage with
  | ind weight ih =>
      subst weighed
      cases stepped : passage.step with
      | resting status =>
          have settled := passage.step_settle
          rw [stepped] at settled
          refine ⟨1, ?_, ?_⟩
          · simp only [weight, height_cons]
            omega
          · rw [Function.iterate_one, Phase.proceed, stepped, ← settled, Phase.settle]
      | passing next =>
          have lighter := Passage.step_weight_lt stepped
          obtain ⟨steps, bound, rested⟩ := ih next.weight lighter next rfl
          have settled := passage.step_settle
          rw [stepped] at settled
          refine ⟨steps + 1, by omega, ?_⟩
          rw [Function.iterate_succ_apply, Phase.proceed, stepped, rested, settled]

def Phase.world : Phase → World
  | .resting status => status.world
  | .passing passage => passage.active.world

namespace Passage

theorem leave_quiet (passage : Passage) : passage.active.world.Quiet passage.leave.world := by
  obtain ⟨signal, a, callers⟩ := passage
  have noted : a.world.Quiet (a.emit (.return (a.frame.depth - 1))).world := .emit a.world rfl
  cases signal with
  | «break» | «continue» target => exact (ofFault_extends callers _ a).quiet
  | «return» value => cases callers <;> exact noted
  | «raise» raised =>
      cases callers with
      | nil => exact noted.trans (Active.setHeap_extends _ _)
      | cons caller rest =>
          have lifted := noted.trans (Active.setHeap_extends (raised.leave a.frame a.world.heap).2 _)
          exact lifted.trans (Active.announce_extends _ { Active.setHeap _ _ with frame := caller }).quiet

theorem step_quiet (passage : Passage) : passage.active.world.Quiet passage.step.world := by
  have advances := passage.step_advances
  generalize passage.step = next at advances
  cases advances with
  | absorbed standing met => exact (Active.meet_absorbed met).2
  | passed standing met => exact (Active.meet_passed met).2.1.quiet
  | left empty left => exact left ▸ passage.leave_quiet

end Passage

namespace Phase

theorem proceed_quiet (phase : Phase) : phase.world.Quiet phase.proceed.world := by
  cases phase with
  | resting status => exact .refl status.world
  | passing passage => exact passage.step_quiet

theorem iterate_quiet (phase : Phase) (steps : Nat) : phase.world.Quiet (proceed^[steps] phase).world := by
  induction steps with
  | zero => exact .refl phase.world
  | succ steps ih =>
      rw [Function.iterate_succ_apply']
      exact ih.trans (proceed_quiet _)

theorem settle_quiet (phase : Phase) : phase.world.Quiet phase.settle.world := by
  cases phase with
  | resting status => exact .refl status.world
  | passing passage =>
      obtain ⟨steps, _, rested⟩ := passage.exists_resting
      have quiet := iterate_quiet (.passing passage) steps
      rw [rested] at quiet
      exact quiet

end Phase

end BlockVM
