import BlockVM.Proofs.RetrackedRuns
import BlockVM.Proofs.SpentBudgets

namespace BlockVM

/-! Limits decide how far a run may go, and nothing else. Under a budget a run executes what it executes
without one, up to the budget; and a run that stays within its budget cannot tell it from any larger one or
from none. -/

namespace Status

/-- The instructions that the steps of a run execute. -/
def dispatched (fuel : Nat) (status : Status) : List (Instruction Value) :=
  (status.fetched fuel).filterMap Except.toOption

/-- All of a run but its tracker: the outcome or the frames, the namespaces and the rest of the heap, the
printed text and the events. -/
def untracked (status : Status) : Status :=
  status.mapWorld fun world => { world with tracker := .unlimited }

theorem world_mapWorld (change : World → World) (status : Status) :
    (status.mapWorld change).world = change status.world := by
  cases status <;> rfl

theorem untracked_retracking {retracking : Retracking} (fresh : retracking.earlier = #[]) (status : Status) :
    (status.mapWorld retracking.world).untracked = status.untracked := by
  cases status <;> simp [untracked, mapWorld, Retracking.world, fresh]

theorem fetched_length_le (fuel : Nat) (status : Status) : (status.fetched fuel).length ≤ fuel := by
  induction fuel generalizing status with
  | zero => cases status <;> exact Nat.le_refl 0
  | succ fuel ih =>
      cases status with
      | running machine => exact Nat.succ_le_succ (ih machine.step)
      | finished | unending => exact Nat.zero_le _

theorem dispatched_length_le (fuel : Nat) (status : Status) : (status.dispatched fuel).length ≤ fuel :=
  (List.length_filterMap_le _ _).trans (fetched_length_le fuel status)

theorem fetched_add (earlier later : Nat) (status : Status) :
    status.fetched (earlier + later) = status.fetched earlier ++ (status.advance earlier).fetched later := by
  induction earlier generalizing status with
  | zero => rw [Nat.zero_add, advance_zero]; rfl
  | succ earlier ih =>
      rw [Nat.succ_add]
      cases status with
      | running machine => rw [fetched, fetched, ih, advance]; rfl
      | finished | unending => cases later <;> rfl

theorem dispatched_add (earlier later : Nat) (status : Status) :
    status.dispatched (earlier + later) =
      status.dispatched earlier ++ (status.advance earlier).dispatched later := by
  rw [dispatched, fetched_add, List.filterMap_append]
  rfl

theorem fetched_length_of_running {fuel : Nat} {status : Status} {machine : Machine}
    (reached : status.advance fuel = .running machine) : (status.fetched (fuel + 1)).length = fuel + 1 := by
  induction fuel generalizing status with
  | zero =>
      rw [advance_zero] at reached
      rw [reached]
      rfl
  | succ fuel ih =>
      cases status with
      | running first => exact congrArg Nat.succ (ih reached)
      | finished | unending => cases reached

theorem fetched_of_ended {status : Status} (ended : ∀ machine, status ≠ .running machine) (fuel : Nat) :
    status.fetched fuel = [] := by
  cases status with
  | running machine => exact absurd rfl (ended machine)
  | finished | unending => cases fuel <;> rfl

theorem fetched_length_le_of_ended {steps : Nat} {status : Status}
    (ended : ∀ machine, status.advance steps ≠ .running machine) (fuel : Nat) :
    (status.fetched fuel).length ≤ steps := by
  rcases Nat.le_total fuel steps with few | many
  · exact (fetched_length_le fuel status).trans few
  · obtain ⟨more, rfl⟩ := Nat.exists_eq_add_of_le many
    rw [fetched_add, fetched_of_ended ended, List.append_nil]
    exact fetched_length_le steps status

/-- A step that executes nothing is the last one. -/
theorem dispatched_of_refused {machine : Machine} {fault : Fault} {a : Active} (fuel : Nat)
    (refused : Machine.fetch machine.active = (.error fault, a)) : (Status.running machine).dispatched fuel = [] := by
  obtain ⟨final, world, stepped⟩ := Machine.step_refused refused
  cases fuel with
  | zero => rfl
  | succ fuel =>
      have stopped : ∀ machine, Status.finished (.error final) world ≠ .running machine := nofun
      rw [dispatched, fetched, refused, stepped, fetched_of_ended stopped]
      rfl

/-- Either each of the first steps executes an instruction, or none is left to execute after them. -/
theorem dispatched_full_or_over (fuel : Nat) (status : Status) :
    (status.dispatched fuel).length = fuel ∨ ∀ more, (status.advance fuel).dispatched more = [] := by
  induction fuel generalizing status with
  | zero => exact .inl rfl
  | succ fuel ih =>
      cases status with
      | finished outcome world =>
          refine .inr fun more => ?_
          cases more <;> rfl
      | unending world =>
          refine .inr fun more => ?_
          cases more <;> rfl
      | running machine =>
          rcases fetched : Machine.fetch machine.active with ⟨fault | instruction, a⟩
          · refine .inr fun more => ?_
            have whole := dispatched_of_refused (fuel + 1 + more) fetched
            rw [dispatched_add] at whole
            exact (List.append_eq_nil_iff.mp whole).2
          · rcases ih machine.step with full | stopped
            · left
              have executed : (Status.running machine).dispatched (fuel + 1) =
                  instruction :: machine.step.dispatched fuel := by
                rw [dispatched, Status.fetched, fetched]
                rfl
              rw [executed, List.length_cons, full]
            · exact .inr stopped

theorem take_dispatched (bound more : Nat) (status : Status) :
    (status.dispatched (bound + more)).take bound = status.dispatched bound := by
  rw [dispatched_add]
  rcases dispatched_full_or_over bound status with full | stopped
  · rw [List.take_append_of_le_length (Nat.le_of_eq full.symm)]
    exact List.take_of_length_le (Nat.le_of_eq full)
  · rw [stopped more, List.append_nil]
    exact List.take_of_length_le (dispatched_length_le bound status)

end Status

namespace Tracker

def withBudget (budget : Option Nat) : Tracker → Tracker
  | .unlimited => .unlimited
  | .limited limits instructions elapsed => .limited { limits with maxOperations := budget } instructions elapsed

/-- Forgets limits that are not set. -/
def relaxed : Tracker → Tracker
  | .unlimited => .unlimited
  | .limited limits instructions elapsed =>
      if limits.maxRecursionDepth = none ∧ limits.maxResultBytes = none then .unlimited
      else .limited limits instructions elapsed

theorem count_iterate (k : Nat) (limits : Limits) (instructions : Nat) (elapsed : Duration) :
    count^[k] (.limited limits instructions elapsed) = .limited limits (instructions + k) elapsed := by
  induction k generalizing instructions with
  | zero => rfl
  | succ k ih =>
      rw [Function.iterate_succ_apply, count, ih]
      congr 1
      omega

/-- Without a budget and a deadline every instruction is admitted. -/
theorem refusal?_of_free {limits : Limits} (budget : limits.maxOperations = none)
    (deadline : limits.maxDuration = none) (instructions : Nat) (elapsed : Duration) :
    (limited limits instructions elapsed).refusal? = none := by
  simp [refusal?, refusal?.overdue, budget, deadline]

theorem refusal?_of_within {limits : Limits} {budget instructions : Nat} (elapsed : Duration)
    (budgeted : limits.maxOperations = some budget) (deadline : limits.maxDuration = none)
    (within : instructions ≤ budget) : (limited limits instructions elapsed).refusal? = none := by
  simp [refusal?, refusal?.overdue, budgeted, deadline, Nat.not_lt.mpr within]

end Tracker

namespace Retracking

def budget (budget : Option Nat) : Retracking where
  tracker := .withBudget budget
  earlier := #[]
  depth tracker := by cases tracker <;> rfl
  size tracker := by cases tracker <;> rfl
  count tracker := by cases tracker <;> rfl

def relaxed : Retracking where
  tracker := .relaxed
  earlier := #[]
  depth tracker := by
    cases tracker with
    | unlimited => rfl
    | limited limits instructions elapsed =>
        simp only [Tracker.relaxed]
        split
        · rename_i unset
          simp [Tracker.limits, Limits.recursionDepth, unset.1]
        · rfl
  size tracker := by
    cases tracker with
    | unlimited => rfl
    | limited limits instructions elapsed =>
        simp only [Tracker.relaxed]
        split
        · rename_i unset
          simp [Tracker.limits, Limits.resultBytes, unset.2]
        · rfl
  count tracker := by
    cases tracker with
    | unlimited => rfl
    | limited limits instructions elapsed =>
        by_cases unset : limits.maxRecursionDepth = none ∧ limits.maxResultBytes = none
        · simp only [Tracker.relaxed, Tracker.count, if_pos unset]
        · simp only [Tracker.relaxed, Tracker.count, if_neg unset]

theorem budget_unnoticed {limits : Limits} {fuel ration : Nat} (free : limits.maxOperations = none)
    (deadline : limits.maxDuration = none) (within : fuel ≤ ration) :
    (budget (some ration)).Unnoticed fuel (.ofLimits limits) := by
  intro k below
  rw [Tracker.ofLimits, Tracker.count_iterate, Tracker.refusal?_of_free free deadline]
  exact Tracker.refusal?_of_within _ rfl deadline (by omega)

theorem relaxed_unnoticed {limits : Limits} (free : limits.maxOperations = none)
    (deadline : limits.maxDuration = none) (fuel : Nat) : relaxed.Unnoticed fuel (.ofLimits limits) := by
  intro k _
  rw [Tracker.ofLimits, Tracker.count_iterate, Tracker.refusal?_of_free free deadline]
  simp only [relaxed, Tracker.relaxed]
  split
  · rfl
  · exact Tracker.refusal?_of_free free deadline _ _

end Retracking

/-- A fresh tracker without a deadline. -/
def Tracker.rationed (depth size budget : Option Nat) : Tracker :=
  .ofLimits { maxOperations := budget, maxRecursionDepth := depth, maxResultBytes := size }

namespace Status

/-- Once as many instructions have been counted as the budget has, no more is executed. -/
theorem dispatched_spent {status : Status} {limits : Limits} {instructions budget : Nat} {elapsed : Duration}
    (limited : status.world.tracker = .limited limits instructions elapsed)
    (budgeted : limits.maxOperations = some budget) (spent : budget ≤ instructions) (fuel : Nat) :
    status.dispatched fuel = [] := by
  cases status with
  | finished | unending => cases fuel <;> rfl
  | running machine =>
      obtain ⟨fault, after, refused⟩ := Machine.fetch_spent limited budgeted spent
      exact dispatched_of_refused fuel refused

theorem tracker_advance {fuel : Nat} {status : Status} {machine : Machine}
    (reached : status.advance fuel = .running machine) :
    machine.active.world.tracker = Tracker.count^[fuel] status.world.tracker := by
  induction fuel generalizing status with
  | zero =>
      rw [advance_zero] at reached
      rw [reached]
      rfl
  | succ fuel ih =>
      cases status with
      | running first =>
          rw [ih reached, first.step_tracker]
          rfl
      | finished | unending => cases reached

theorem dispatched_after_budget {status : Status} {limits : Limits} {budget : Nat}
    (fresh : status.world.tracker = .ofLimits limits) (budgeted : limits.maxOperations = some budget) (fuel : Nat) :
    (status.advance budget).dispatched fuel = [] := by
  cases reached : status.advance budget with
  | finished | unending => cases fuel <;> rfl
  | running machine =>
      have counted := tracker_advance reached
      rw [fresh, Tracker.ofLimits, Tracker.count_iterate, Nat.zero_add] at counted
      exact dispatched_spent (show (Status.running machine).world.tracker = _ from counted) budgeted
        (Nat.le_refl budget) fuel

theorem dispatched_budget {status : Status} {limits : Limits} (fresh : status.world.tracker = .ofLimits limits)
    (free : limits.maxOperations = none) (deadline : limits.maxDuration = none) (budget fuel : Nat) :
    (status.mapWorld (Retracking.budget (some budget)).world).dispatched fuel = (status.dispatched fuel).take budget := by
  have within {steps : Nat} (few : steps ≤ budget) :
      (status.mapWorld (Retracking.budget (some budget)).world).dispatched steps = status.dispatched steps := by
    rw [dispatched, fetched_retracking (by rw [fresh]; exact Retracking.budget_unnoticed free deadline few)]
    rfl
  have rationed : (status.mapWorld (Retracking.budget (some budget)).world).world.tracker =
      .ofLimits { limits with maxOperations := some budget } := by
    rw [world_mapWorld]
    simp only [Retracking.world, fresh]
    rfl
  rcases Nat.le_total fuel budget with few | many
  · rw [within few, List.take_of_length_le ((dispatched_length_le fuel status).trans few)]
  · obtain ⟨more, rfl⟩ := Nat.exists_eq_add_of_le many
    rw [dispatched_add, within (Nat.le_refl budget), dispatched_after_budget rationed rfl, List.append_nil,
      take_dispatched]

theorem advance_of_ended {steps : Nat} {status : Status}
    (ended : ∀ machine, status.advance steps ≠ .running machine) (more : Nat) :
    status.advance (steps + more) = status.advance steps := by
  rw [advance_add]
  cases reached : status.advance steps with
  | running machine => exact absurd reached (ended machine)
  | finished | unending => cases more <;> rfl

theorem advance_budget {status : Status} {limits : Limits} (fresh : status.world.tracker = .ofLimits limits)
    (free : limits.maxOperations = none) (deadline : limits.maxDuration = none) {steps budget : Nat}
    (ended : ∀ machine, status.advance steps ≠ .running machine) (enough : steps ≤ budget) (fuel : Nat) :
    (status.mapWorld (Retracking.budget (some budget)).world).advance fuel =
      (status.advance fuel).mapWorld (Retracking.budget (some budget)).world := by
  have within {taken : Nat} (few : taken ≤ budget) :
      (status.mapWorld (Retracking.budget (some budget)).world).advance taken =
        (status.advance taken).mapWorld (Retracking.budget (some budget)).world :=
    advance_retracking (by rw [fresh]; exact Retracking.budget_unnoticed free deadline few)
  rcases Nat.le_total fuel steps with few | many
  · exact within (few.trans enough)
  · -- By then both runs have come to their end, so they stay as they are.
    obtain ⟨more, rfl⟩ := Nat.exists_eq_add_of_le many
    have stopped : ∀ machine, (status.mapWorld (Retracking.budget (some budget)).world).advance steps ≠ .running machine := by
      intro machine reached
      rw [within enough] at reached
      cases last : status.advance steps with
      | running machine => exact ended machine last
      | finished outcome world => rw [last] at reached; cases reached
      | unending world => rw [last] at reached; cases reached
    rw [advance_of_ended stopped, advance_of_ended ended, within enough]

end Status

/-- Fix a code object, an environment, arguments and limits on calls and results. A run under a budget
executes the first instructions of the run without one, as many as the budget admits. If the run without a
budget fetches at most `bound` instructions, it comes to an end, and under every budget from `bound` on the
run is the same at every point in all but its tracker. Where the limits on calls and results are not set, it
is also the same under a tracker that counts nothing. -/
theorem limits_only_cut (code : Code Value) (environment : Environment) (arguments : List Value)
    (world : World) (depth size : Option Nat) :
    let run (tracker : Tracker) := ({ world with tracker } : World).launch code environment arguments
    let free := run (.rationed depth size none)
    (∀ budget fuel, (run (.rationed depth size (some budget))).dispatched fuel =
      (free.dispatched fuel).take budget) ∧
    (∀ bound, (∀ fuel, (free.fetched fuel).length ≤ bound) →
      (∀ machine, free.advance bound ≠ .running machine) ∧
      ∀ budget ≥ bound, ∀ fuel,
        ((run (.rationed depth size (some budget))).advance fuel).untracked = (free.advance fuel).untracked) ∧
    (depth = none → size = none →
      ∀ fuel, ((run .unlimited).advance fuel).untracked = (free.advance fuel).untracked) := by
  intro run free
  have fresh : free.world.tracker = .rationed depth size none := World.launch_tracker ..
  have rationed (budget : Nat) :
      run (.rationed depth size (some budget)) = free.mapWorld (Retracking.budget (some budget)).world := by
    rw [← World.launch_retracking]
    simp only [run, Retracking.world, Retracking.budget, Array.empty_append]
    rfl
  refine ⟨?_, ?_, ?_⟩
  · intro budget fuel
    rw [rationed, Status.dispatched_budget fresh rfl rfl]
  · intro bound few
    have ended : ∀ machine, free.advance bound ≠ .running machine := by
      intro machine reached
      have fetched := Status.fetched_length_of_running reached
      have most := few (bound + 1)
      omega
    refine ⟨ended, fun budget enough fuel => ?_⟩
    rw [rationed, Status.advance_budget fresh rfl rfl ended enough, Status.untracked_retracking rfl]
  · rintro rfl rfl fuel
    have relaxed : run .unlimited = free.mapWorld Retracking.relaxed.world := by
      rw [← World.launch_retracking]
      simp only [run, Retracking.world, Retracking.relaxed, Array.empty_append]
      rfl
    have unnoticed : Retracking.relaxed.Unnoticed fuel free.world.tracker := by
      rw [fresh]
      exact Retracking.relaxed_unnoticed rfl rfl fuel
    rw [relaxed, Status.advance_retracking unnoticed, Status.untracked_retracking rfl]

/-- Of a jump over one instruction and a `return`, with three instructions in all, a budget of two leaves the
first two. A budget of three is as good as none. -/
theorem limits_only_cut_return :
    let code : Code Value :=
      { name := "short", instructions := #[110, 1, 0, 9, 100, 0, 0, 83], constants := [.int 7], names := []
        localSlots := [], argCount := 0 }
    let run (tracker : Tracker) := ({ (default : World) with tracker } : World).launch code default []
    let free := run (.rationed none none none)
    ((run (.rationed none none (some 2))).dispatched 4).map (·.offset) = [0, 4] ∧
      (∀ fuel, (free.fetched fuel).length ≤ 3) ∧
      (∀ fuel, ((run (.rationed none none (some 3))).advance fuel).untracked = (free.advance fuel).untracked) ∧
      ∀ fuel, ((run .unlimited).advance fuel).untracked = (free.advance fuel).untracked := by
  intro code run free
  obtain ⟨cut, same, plain⟩ := limits_only_cut code default [] default none none
  have first : (free.dispatched 4).map (·.offset) = [0, 4, 7] := by decide +kernel
  have few : ∀ fuel, (free.fetched fuel).length ≤ 3 := by
    refine Status.fetched_length_le_of_ended fun machine reached => ?_
    have most : (free.fetched 4).length = 3 := by decide +kernel
    exact absurd (most.symm.trans (Status.fetched_length_of_running reached)) (by decide)
  refine ⟨?_, few, (same 3 few).2 3 (Nat.le_refl 3), plain rfl rfl⟩
  rw [cut 2 4, List.map_take]
  exact congrArg (List.take 2) first

end BlockVM
