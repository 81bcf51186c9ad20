import BlockVM.Machine.Run

namespace BlockVM

/-! What a run cannot see of the world around it: the events noted before it, and all of its tracker but
the limits on calls and results. A retracking changes these alone. -/

section

variable {ε σ α β : Type} {change : σ → σ}

def mapState (change : σ → σ) : EStateM.Result ε σ α → EStateM.Result ε σ α
  | .ok value after => .ok value (change after)
  | .error error after => .error error (change after)

/-- From a changed state an operation does what it does from the state itself, and leaves the change. -/
def Commutes (change : σ → σ) (operation : EStateM ε σ α) : Prop :=
  ∀ before, operation (change before) = mapState change (operation before)

namespace Commutes

theorem pure (value : α) : Commutes change (Pure.pure value : EStateM ε σ α) :=
  fun _ => rfl

theorem throw (error : ε) : Commutes change (MonadExcept.throw error : EStateM ε σ α) :=
  fun _ => rfl

theorem modify {update : σ → σ} (same : ∀ before, update (change before) = change (update before)) :
    Commutes change (modify update : EStateM ε σ PUnit) := by
  intro before
  exact congrArg (EStateM.Result.ok PUnit.unit) (same before)

theorem bind {operation : EStateM ε σ α} {next : α → EStateM ε σ β} (first : Commutes change operation)
    (second : ∀ value, Commutes change (next value)) : Commutes change (operation >>= next) := by
  intro before
  change EStateM.bind operation next _ = mapState _ (EStateM.bind operation next before)
  unfold EStateM.bind
  rw [first before]
  cases operation before with
  | ok value after => exact second value after
  | error error after => rfl

/-- What is read of the state is the same before and after the change. -/
theorem get {next : σ → EStateM ε σ α} (same : ∀ before, next (change before) = next before)
    (second : ∀ before, Commutes change (next before)) : Commutes change (MonadState.get >>= next) := by
  intro before
  have unchanged : next (change before) (change before) = next before (change before) :=
    congrFun (same before) (change before)
  exact unchanged.trans (second before before)

theorem transform {property : α → Prop} {view : σ → α × σ} {next : α → EStateM ε σ β}
    (sort : ∀ before, property (view before).1)
    (same : ∀ before, view (change before) = ((view before).1, change (view before).2))
    (second : ∀ value, property value → Commutes change (next value)) :
    Commutes change (do
      let (value, after) := view (← MonadState.get)
      set after
      next value) := by
  intro before
  have viewed : next (view (change before)).1 (view (change before)).2 =
      next (view before).1 (change (view before).2) := by
    rw [same before]
  exact viewed.trans (second (view before).1 (sort before) (view before).2)

end Commutes

end

/-- Another tracker that sets the same limits on calls and results, and events from before. -/
structure Retracking where
  tracker : Tracker → Tracker
  earlier : Array Event
  depth (before : Tracker) : (tracker before).limits.recursionDepth = before.limits.recursionDepth
  size (before : Tracker) : (tracker before).limits.resultBytes = before.limits.resultBytes
  count (before : Tracker) : (tracker before).count = tracker before.count

namespace Retracking

variable (retracking : Retracking)

theorem checkCall (tracker : Tracker) (depth : Nat) :
    (retracking.tracker tracker).checkCall depth = tracker.checkCall depth := by
  simp only [Tracker.checkCall, retracking.depth]

theorem checkResult (tracker : Tracker) (bytes : Nat) :
    (retracking.tracker tracker).checkResult bytes = tracker.checkResult bytes := by
  simp only [Tracker.checkResult, Tracker.checkLargeResult, retracking.size]

def world (w : World) : World :=
  { w with tracker := retracking.tracker w.tracker, events := retracking.earlier ++ w.events }

def active (a : Active) : Active :=
  { a with world := retracking.world a.world }

def machine (m : Machine) : Machine :=
  { m with active := retracking.active m.active }

theorem world_emit (event : Event) (w : World) : (retracking.world w).emit event = retracking.world (w.emit event) := by
  simp [world, World.emit]

end Retracking

end BlockVM
