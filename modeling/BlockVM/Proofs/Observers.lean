import BlockVM.Proofs.ObserverStates
import BlockVM.Proofs.RetrackedRuns

namespace BlockVM

/-! Observers watch a run and never take part in it. A host lets a run go on for a while, shows its
observer what happened, and forgets the events; between two such moves it may tell the time and take out
what was printed. However it goes about this, the run is the one that nobody watches, and the observer has
seen exactly the events of that run. -/

/-- What a host does with a run. -/
inductive HostMove where
  | advance (fuel : Nat)
  | setElapsed (elapsed : Duration)
  | takePrinted

namespace Retracking

/-- More events from before. -/
def after (earlier : Array Event) : Retracking where
  tracker := id
  earlier
  depth _ := rfl
  size _ := rfl
  count _ := rfl

theorem after_unnoticed (earlier : Array Event) (fuel : Nat) (tracker : Tracker) :
    (after earlier).Unnoticed fuel tracker :=
  fun _ _ => rfl

end Retracking

namespace Status

/-- A move with a run that nobody watches. -/
def move (status : Status) : HostMove → Status
  | .advance fuel => status.advance fuel
  | .setElapsed elapsed => status.mapWorld fun world => { world with tracker := world.tracker.setElapsed elapsed }
  | .takePrinted => status.mapWorld fun world => { world with sink := { world.sink with text := "" } }

theorem mapWorld_mapWorld (first second : World → World) (status : Status) :
    (status.mapWorld first).mapWorld second = status.mapWorld (second ∘ first) := by
  cases status <;> rfl

end Status

namespace Run

def move (run : Run) : HostMove → Run
  | .advance fuel => run.advance fuel
  | .setElapsed elapsed => run.setElapsed elapsed
  | .takePrinted => run.takePrinted.2

/-- A run and the same run without an observer: the events that the observer has seen are those that the
watched run has forgotten. -/
structure Watches (tracer : Tracer) (seen : Array Event) (run : Run) (status : Status) : Prop where
  status : status = run.status.mapWorld (Retracking.after seen).world
  tracer : run.tracer = tracer.observeAll seen

variable {tracer : Tracer} {seen : Array Event} {run : Run} {status : Status}

theorem Watches.advanced (watches : run.Watches tracer seen status) (fuel : Nat) :
    status.advance fuel = (run.status.advance fuel).mapWorld (Retracking.after seen).world := by
  rw [watches.status, Status.advance_retracking (Retracking.after_unnoticed seen fuel _)]

theorem Watches.advance (watches : run.Watches tracer seen status) (fuel : Nat) :
    (run.advance fuel).Watches tracer (status.advance fuel).world.events (status.advance fuel) := by
  have events : (status.advance fuel).world.events = seen ++ (run.status.advance fuel).world.events := by
    rw [watches.advanced]
    cases run.status.advance fuel <;> rfl
  refine ⟨?_, ?_⟩
  · rw [events, watches.advanced]
    simp only [Run.advance, Status.mapWorld_mapWorld]
    cases run.status.advance fuel <;> simp [Status.mapWorld, Retracking.world, Retracking.after, Status.world]
  · rw [events]
    simp only [Run.advance, watches.tracer, Tracer.observeAll, Array.foldl_append]

/-- The two runs differ only in the events that were shown to the observer. -/
theorem Watches.advance_status (watches : run.Watches tracer seen status) (fuel : Nat) :
    (run.advance fuel).status = (status.advance fuel).mapWorld fun world => { world with events := #[] } := by
  rw [watches.advanced, Status.mapWorld_mapWorld]
  rfl

theorem Watches.move (watches : run.Watches tracer seen status) (move : HostMove) :
    ∃ later, (run.move move).Watches tracer later (status.move move) := by
  obtain ⟨same, told⟩ := id watches
  cases move with
  | advance fuel => exact ⟨_, watches.advance fuel⟩
  | setElapsed elapsed =>
      refine ⟨seen, ?_, told⟩
      rw [same]
      simp only [Status.move, Run.move, Run.setElapsed, Status.mapWorld_mapWorld]
      rfl
  | takePrinted =>
      refine ⟨seen, ?_, told⟩
      rw [same]
      simp only [Status.move, Run.move, Run.takePrinted, Status.mapWorld_mapWorld]
      rfl

theorem Watches.moves (watches : run.Watches tracer seen status) (moves : List HostMove) :
    ∃ later, (moves.foldl Run.move run).Watches tracer later (moves.foldl Status.move status) := by
  induction moves generalizing run status seen with
  | nil => exact ⟨seen, watches⟩
  | cons move moves ih =>
      obtain ⟨later, onward⟩ := watches.move move
      exact ih onward

theorem watches_start (tracer : Tracer) (status : Status) : (⟨status, tracer⟩ : Run).Watches tracer #[] status := by
  refine ⟨?_, rfl⟩
  cases status <;> simp [Status.mapWorld, Retracking.world, Retracking.after]

/-- A tracer that is shown the events in portions ends as one that is shown them all at once. -/
theorem advance_add (steps fuel : Nat) (run : Run) : run.advance (steps + fuel) = (run.advance steps).advance fuel := by
  have whole := watches_start run.tracer run.status
  have part := whole.advance steps
  have same : (run.advance (steps + fuel)).status = ((run.advance steps).advance fuel).status := by
    rw [whole.advance_status, part.advance_status, Status.advance_add]
  have told : (run.advance (steps + fuel)).tracer = ((run.advance steps).advance fuel).tracer := by
    rw [(whole.advance _).tracer, (part.advance fuel).tracer, Status.advance_add]
  have both := congr (congrArg Run.mk same) told
  exact both

end Run

theorem Tracer.observeAll_eq {α : Type} (wrap : α → Tracer) {observe : α → Event → α}
    (same : ∀ state event, (wrap state).observe event = wrap (observe state event)) (state : α)
    (events : Array Event) : (wrap state).observeAll events = wrap (events.toList.foldl observe state) := by
  rw [observeAll, ← Array.foldl_toList]
  exact List.foldl_hom wrap same

/-- Whatever its observer and however the host goes about it, a run takes the course of the run that nobody
watches: the outcome, the namespaces, the printed text and the count of instructions are the same. A recording
without a limit holds the events of that run and one with a limit the first of them; a profile reports them,
and coverage is the set of the offsets of their instructions. -/
theorem observers_agree (code : Code Value) (environment : Environment) (arguments : List Value) (world : World)
    (moves : List HostMove) (fuel : Nat) :
    let start := world.launch code environment arguments
    let unwatched := (moves.foldl Status.move start).advance fuel
    let watched (tracer : Tracer) := (moves.foldl Run.move ⟨start, tracer⟩).advance fuel
    let events := unwatched.world.events.toList.map Event.recorded
    (∀ tracer, (watched tracer).status = unwatched.mapWorld fun world => { world with events := #[] }) ∧
    (watched (.recording {})).tracer = .recording { events := events.toArray } ∧
    (∀ limit, (watched (.recording { limit := some limit })).tracer =
      .recording { limit := some limit, events := (events.take limit).toArray }) ∧
    (∃ profile, (watched (.profile {})).tracer = .profile profile ∧ profile.Reports events) ∧
    ∃ coverage, (watched (.coverage {})).tracer = .coverage coverage ∧ coverage.Covers events := by
  intro start unwatched watched events
  have moved (tracer : Tracer) := (Run.watches_start tracer start).moves moves
  have watches (tracer : Tracer) : (watched tracer).Watches tracer unwatched.world.events unwatched := by
    obtain ⟨seen, sees⟩ := moved tracer
    exact sees.advance fuel
  refine ⟨?_, ?_, ?_, ?_, ?_⟩
  · intro tracer
    obtain ⟨seen, sees⟩ := moved tracer
    exact sees.advance_status fuel
  · rw [(watches _).tracer, Tracer.observeAll_eq .recording fun _ _ => rfl, Recording.foldl_observe_unlimited]
  · intro limit
    rw [(watches _).tracer, Tracer.observeAll_eq .recording fun _ _ => rfl, Recording.foldl_observe_limited]
  · exact ⟨_, by rw [(watches _).tracer, Tracer.observeAll_eq .profile fun _ _ => rfl], (Profile.counted _).reports.recorded⟩
  · exact ⟨_, by rw [(watches _).tracer, Tracer.observeAll_eq .coverage fun _ _ => rfl], (Coverage.foldl_observe _).recorded⟩

end BlockVM
