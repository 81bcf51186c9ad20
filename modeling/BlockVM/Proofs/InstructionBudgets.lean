import BlockVM.Proofs.FatalExceptions

namespace BlockVM

/-! Runs under a budget of instructions. Each step counts one instruction, and one that is refused or
cannot be decoded is the last. -/

namespace Machine

theorem fetch_tracker {a after : Active} {result : Except Fault (Instruction Value)}
    (fetched : fetch a = (result, after)) : after.world.tracker = a.world.tracker.count := by
  have fetches := fetch_fetches a
  rw [fetched] at fetches
  cases fetches with
  | refused fatal => rfl
  | decoded decoded counted => exact counted

theorem Leads.quiet {callers : List Frame} {a : Active} {phase : Phase} (leads : Leads callers a phase) :
    a.world.Quiet phase.world := by
  cases leads with
  | onward => exact .refl a.world
  | interrupted _ _ quiet _ => exact quiet

theorem dispatch_tracker (machine : Machine) :
    machine.dispatch.world.tracker = machine.active.world.tracker.count := by
  have dispatches := machine.dispatch_dispatches
  generalize machine.dispatch = reached at dispatches
  cases dispatches with
  | refused fetched => exact (Passage.ofFault_extends machine.callers _ _).tracker.trans (fetch_tracker fetched)
  | unending fetched works => exact works.world.tracker.trans (fetch_tracker fetched)
  | executed fetched works leads =>
      exact (leads.quiet.tracker.trans works.world.tracker).trans (fetch_tracker fetched)
  | called fetched works _ _ _ => exact works.world.tracker.trans (fetch_tracker fetched)

/-- A step counts one instruction, whatever becomes of it. -/
theorem step_tracker (machine : Machine) :
    machine.step.world.tracker = machine.active.world.tracker.count :=
  machine.dispatch.settle_quiet.tracker.trans machine.dispatch_tracker

theorem step_refused {machine : Machine} {fault : Fault} {a : Active}
    (fetched : fetch machine.active = (.error fault, a)) :
    ∃ final world, machine.step = .finished (.error final) world := by
  have fetches := fetch_fetches machine.active
  rw [fetched] at fetches
  have fatal : (Passage.ofFault machine.callers fault a).signal.Fatal := by
    rw [Passage.ofFault, Signal.Fatal, Active.raise_kind]
    cases fetches
    assumption
  obtain ⟨final, world, _, settled⟩ := Passage.settle_doomed fatal
  have dispatched : machine.dispatch = .passing (.ofFault machine.callers fault a) := by
    simp only [dispatch, fetched, Passage.raise_eq]
  exact ⟨final, world, by rw [step, dispatched, settled]⟩

theorem fetch_spent {a : Active} {limits : Limits} {count budget : Nat} {elapsed : Duration}
    (limited : a.world.tracker = .limited limits count elapsed)
    (budgeted : limits.maxOperations = some budget) (spent : budget ≤ count) :
    ∃ fault after, fetch a = (.error fault, after) := by
  obtain ⟨⟨heap, sink, tracker, events⟩, frame, recovered⟩ := a
  cases limited
  have refused : (Tracker.limited limits (count + 1) elapsed).refusal? = some (.instructionBudget budget) := by
    simp only [Tracker.refusal?, budgeted, if_pos (Nat.lt_succ_of_le spent)]
  refine ⟨.limit (.instructionBudget budget),
    ⟨⟨heap, sink, .limited limits (count + 1) elapsed, events⟩, frame, recovered⟩, ?_⟩
  simp only [fetch, Tracker.count, refused]

end Machine

namespace Status

/-- What the steps of a run fetch. -/
def fetched : Nat → Status → List (Except Fault (Instruction Value))
  | fuel + 1, .running machine => (Machine.fetch machine.active).1 :: fetched fuel machine.step
  | _, _ => []

/-- Within `fuel` steps a run comes to an end. It has executed the instructions `dispatched`, and then
may have been ended by one that is refused or cannot be decoded. -/
structure Ends (status : Status) (fuel : Nat) (dispatched : List (Instruction Value))
    (refused : Option Fault) : Prop where
  ended : (∃ outcome world, status.advance fuel = .finished outcome world) ∨
    ∃ world, status.advance fuel = .unending world
  fetched : status.fetched fuel = dispatched.map .ok ++ (refused.map .error).toList
  stopped : refused.isSome = true → ∃ final world, status.advance fuel = .finished (.error final) world

namespace Ends

theorem last {machine : Machine} {fault : Fault} {a : Active}
    (fetched : Machine.fetch machine.active = (.error fault, a)) :
    (Status.running machine).Ends 1 [] (some fault) := by
  obtain ⟨final, world, stepped⟩ := Machine.step_refused fetched
  have failed : (Status.running machine).advance 1 = .finished (.error final) world := by
    rw [advance, stepped]
    rfl
  refine ⟨.inl ⟨.error final, world, failed⟩, ?_, fun _ => ⟨final, world, failed⟩⟩
  rw [Status.fetched, fetched, stepped]
  rfl

theorem cons {machine : Machine} {instruction : Instruction Value} {a : Active} {fuel : Nat}
    {dispatched : List (Instruction Value)} {refused : Option Fault}
    (fetched : Machine.fetch machine.active = (.ok instruction, a))
    (rest : machine.step.Ends fuel dispatched refused) :
    (Status.running machine).Ends (fuel + 1) (instruction :: dispatched) refused := by
  refine ⟨rest.ended, ?_, rest.stopped⟩
  rw [Status.fetched, fetched, rest.fetched]
  rfl

end Ends

/-- A run under a budget ends within it, with each of its instructions counted once. -/
theorem ends_of_budget {status : Status} {limits : Limits} {count budget : Nat} {elapsed : Duration}
    (limited : status.world.tracker = .limited limits count elapsed)
    (budgeted : limits.maxOperations = some budget) :
    ∃ fuel ≤ budget - count + 1, ∃ dispatched refused,
      status.Ends fuel dispatched refused ∧ dispatched.length ≤ budget - count ∧
      (status.advance fuel).world.tracker =
        .limited limits (count + dispatched.length + if refused.isSome then 1 else 0) elapsed := by
  cases status with
  | finished outcome world =>
      exact ⟨0, Nat.zero_le _, [], none, ⟨.inl ⟨outcome, world, rfl⟩, rfl, nofun⟩, Nat.zero_le _, limited⟩
  | unending world =>
      exact ⟨0, Nat.zero_le _, [], none, ⟨.inr ⟨world, rfl⟩, rfl, nofun⟩, Nat.zero_le _, limited⟩
  | running machine =>
      have counted : machine.step.world.tracker = .limited limits (count + 1) elapsed := by
        rw [machine.step_tracker, show machine.active.world.tracker = _ from limited, Tracker.count]
      rcases fetched : Machine.fetch machine.active with ⟨fault | instruction, a⟩
      · exact ⟨1, Nat.le_add_left 1 _, [], some fault, .last fetched, Nat.zero_le _, by
          rw [advance, advance_zero]; exact counted⟩
      · have room : count < budget := by
          rcases Nat.lt_or_ge count budget with room | spent
          · exact room
          · obtain ⟨fault, after, refused⟩ := Machine.fetch_spent limited budgeted spent
            rw [fetched] at refused
            cases refused
        obtain ⟨fuel, short, dispatched, refused, ends, bounded, tracked⟩ := ends_of_budget counted budgeted
        refine ⟨fuel + 1, by omega, instruction :: dispatched, refused, .cons fetched ends, ?_, ?_⟩
        · rw [List.length_cons]
          omega
        · rw [advance, tracked, List.length_cons]
          congr 1
          omega
termination_by budget - count
decreasing_by omega

end Status

theorem World.launch_tracker (code : Code Value) (environment : Environment) (arguments : List Value)
    (world : World) : (world.launch code environment arguments).world.tracker = world.tracker := by
  unfold launch
  split
  · rfl
  · dsimp only
    split <;> rfl

/-- A run under a budget of instructions ends within what is left of it, and the tracker counts each
instruction that was executed and the one that ended the run, if it was refused or could not be
decoded. Whether there is a budget or not, a signal under way comes to rest. -/
theorem budget_bounds_run (code : Code Value) (environment : Environment) (arguments : List Value)
    {world : World} {limits : Limits} {count budget : Nat} {elapsed : Duration}
    (limited : world.tracker = .limited limits count elapsed)
    (budgeted : limits.maxOperations = some budget) :
    (∃ fuel ≤ budget - count + 1, ∃ dispatched refused,
      (world.launch code environment arguments).Ends fuel dispatched refused ∧
      dispatched.length ≤ budget - count ∧
      ((world.launch code environment arguments).advance fuel).world.tracker =
        .limited limits (count + dispatched.length + if refused.isSome then 1 else 0) elapsed) ∧
    ∀ passage : Passage, ∃ steps ≤ passage.weight,
      Phase.proceed^[steps] (.passing passage) = .resting (Phase.passing passage).settle :=
  ⟨Status.ends_of_budget ((world.launch_tracker code environment arguments).trans limited) budgeted,
    Passage.exists_resting⟩

/-- A jump to itself, with two instructions left of a budget of three. -/
theorem budget_bounds_run_endless :
    let code : Code Value :=
      { name := "endless", instructions := #[113, 0, 0], constants := [], names := [], localSlots := []
        argCount := 0 }
    let world : World := { (default : World) with tracker := .limited { maxOperations := some 3 } 1 ⟨0⟩ }
    ∃ fuel ≤ 3, ∃ dispatched refused, (world.launch code default []).Ends fuel dispatched refused ∧
      dispatched.length ≤ 2 := by
  intro code world
  have limited : world.tracker = .limited { maxOperations := some 3 } 1 ⟨0⟩ := rfl
  obtain ⟨⟨fuel, short, dispatched, refused, ends, bounded, _⟩, _⟩ :=
    budget_bounds_run code default [] limited rfl
  exact ⟨fuel, short, dispatched, refused, ends, bounded⟩

end BlockVM
