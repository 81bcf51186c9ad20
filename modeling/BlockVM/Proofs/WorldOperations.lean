import BlockVM.Proofs.Faults
import BlockVM.Proofs.FramePreservation
import BlockVM.Proofs.Retracking

namespace BlockVM

/-! Operations on the world: which events they note, what they leave alone and how they fail. Operations are put
together by `bind`, so each fact goes from the parts to the whole. -/

section

variable {ε σ α β : Type} {relation : σ → σ → Prop}

/-- An outcome leaves a state of the given sort, and a failure is an ordinary one. -/
def Leaves (holds : σ → Prop) : EStateM.Result Failure σ α → Prop
  | .ok _ after => holds after
  | .error failure after => failure.Ordinary ∧ holds after

theorem Leaves.mono {narrow wide : σ → Prop} {outcome : EStateM.Result Failure σ α}
    (leaves : Leaves narrow outcome) (admits : ∀ after, narrow after → wide after) : Leaves wide outcome := by
  cases outcome with
  | ok value after => exact admits after leaves
  | error failure after => exact ⟨leaves.1, admits after leaves.2⟩

/-- Whatever the outcome of an operation, it relates the state before to the state after. -/
def Keeps (relation : σ → σ → Prop) (operation : EStateM Failure σ α) : Prop :=
  ∀ before, Leaves (relation before) (operation before)

namespace Keeps

theorem compose {first second whole : σ → σ → Prop} {operation : EStateM Failure σ α}
    {next : α → EStateM Failure σ β} (kept : Keeps first operation)
    (continued : ∀ value, Keeps second (next value))
    (stops : ∀ before after, first before after → whole before after)
    (joins : ∀ before middle after, first before middle → second middle after → whole before after) :
    Keeps whole (operation >>= next) := by
  intro before
  have earlier := kept before
  change Leaves (whole before) (EStateM.bind operation next before)
  unfold EStateM.bind
  cases run : operation before with
  | ok value middle =>
      rw [run] at earlier
      exact (continued value middle).mono fun after => joins before middle after earlier
  | error failure after =>
      rw [run] at earlier
      exact ⟨earlier.1, stops _ _ earlier.2⟩

theorem mono {narrow wide : σ → σ → Prop} {operation : EStateM Failure σ α} (kept : Keeps narrow operation)
    (admits : ∀ before after, narrow before after → wide before after) : Keeps wide operation :=
  fun before => (kept before).mono (admits before)

variable [IsPreorder σ relation]

theorem pure (value : α) : Keeps relation (Pure.pure value : EStateM Failure σ α) :=
  fun before => refl_of relation before

theorem throw {failure : Failure} (ordinary : failure.Ordinary) :
    Keeps relation (MonadExcept.throw failure : EStateM Failure σ α) :=
  fun before => ⟨ordinary, refl_of relation before⟩

theorem get : Keeps relation (MonadState.get : EStateM Failure σ σ) :=
  fun before => refl_of relation before

theorem bind {operation : EStateM Failure σ α} {next : α → EStateM Failure σ β}
    (first : Keeps relation operation) (second : ∀ value, Keeps relation (next value)) :
    Keeps relation (operation >>= next) :=
  first.compose second (fun _ _ => id) fun _ _ _ => trans_of relation

theorem transform {property : α → Prop} {change : σ → α × σ} {next : α → EStateM Failure σ β}
    (sort : ∀ before, property (change before).1) (related : ∀ before, relation before (change before).2)
    (kept : ∀ value, property value → Keeps relation (next value)) :
    Keeps relation (do
      let (value, after) := change (← MonadState.get)
      set after
      next value) :=
  fun before => (kept _ (sort before) (change before).2).mono fun _ => trans_of relation (related before)

end Keeps

theorem run_bind {operation : EStateM ε σ α} {next : α → EStateM ε σ β} {before after : σ} {value : β}
    (run : (operation >>= next) before = .ok value after) :
    ∃ produced middle, operation before = .ok produced middle ∧ next produced middle = .ok value after := by
  change EStateM.bind operation next before = .ok value after at run
  unfold EStateM.bind at run
  split at run
  · exact ⟨_, _, by assumption, run⟩
  · cases run

/-- Every result of an operation has a property. -/
def Delivers (property : α → Prop) (operation : EStateM ε σ α) : Prop :=
  ∀ before value after, operation before = .ok value after → property value

namespace Delivers

variable {property : β → Prop}

theorem pure {value : β} (holds : property value) :
    Delivers property (Pure.pure value : EStateM ε σ β) := by
  intro before delivered after run
  cases run
  exact holds

theorem throw (error : ε) : Delivers property (MonadExcept.throw error : EStateM ε σ β) := by
  intro before delivered after run
  cases run

theorem bind {operation : EStateM ε σ α} {next : α → EStateM ε σ β}
    (second : ∀ value, Delivers property (next value)) : Delivers property (operation >>= next) := by
  intro before delivered after run
  obtain ⟨value, middle, _, rest⟩ := run_bind run
  exact second value middle delivered after rest

end Delivers

end

namespace Heap

@[simp] theorem place_namespaces (draft : Draft) (heap : Heap) :
    (heap.place draft).2.namespaces = heap.namespaces := by
  cases draft <;> rfl

@[simp] theorem placeAll_namespaces (placed : List Value) (drafts : List Draft) (heap : Heap) :
    (heap.placeAll placed drafts).2.namespaces = heap.namespaces := by
  induction drafts generalizing placed heap with
  | nil => rfl
  | cons draft drafts ih =>
      rw [placeAll]
      dsimp only
      rw [ih, place_namespaces]

end Heap

namespace Sink

/-- The piece handed over last was refused with this exception. -/
def Refused (sink : Sink) (error : WriteError) : Prop :=
  ∃ piece earlier, sink.pieces = piece :: earlier ∧ sink.policy.answer earlier piece = some error

theorem refused_write {sink : Sink} {piece : Piece} {error : WriteError}
    (answered : (sink.write piece).1 = some error) : (sink.write piece).2.Refused error := by
  unfold write at answered ⊢
  dsimp only at answered ⊢
  cases answer : sink.policy.answer sink.pieces piece with
  | some given =>
      rw [answer] at answered
      cases answered
      exact ⟨piece, sink.pieces, rfl, answer⟩
  | none =>
      rw [answer] at answered
      cases answered

end Sink

namespace World

/-- Only events of an allowed sort are added, and no namespace is touched. -/
structure Discreet (allowed : Event → Prop) (before after : World) : Prop where
  world : before.Extends allowed after
  namespaces : after.heap.namespaces = before.heap.namespaces

instance (allowed : Event → Prop) : IsPreorder World (Discreet allowed) where
  refl world := ⟨.refl world, rfl⟩
  trans _ _ _ earlier later :=
    ⟨earlier.world.trans later.world, later.namespaces.trans earlier.namespaces⟩

end World

namespace Act

open World

variable {α β : Type} {allowed : Event → Prop}

/-- A failure that has nothing to do with the data stack: the sink has refused what it was handed last, or the
fault is another one. -/
inductive Fails (after : World) : Failure → Prop where
  | offStack {failure : Failure} (off : failure.OffStack) : Fails after failure
  | sink {error : WriteError} (refused : after.sink.Refused error) : Fails after (.raised (.sink error))

theorem Fails.ordinary {failure : Failure} {after : World} (fails : Fails after failure) : failure.Ordinary := by
  cases fails with
  | offStack off => exact off.ordinary
  | sink refused => rfl

/-- The operation is discreet, it does the same under another tracker, and the data stack, of which it knows
nothing, is no reason for it to fail. -/
structure Behaves (allowed : Event → Prop) (operation : Act α) : Prop where
  keeps : Keeps (Discreet allowed) operation
  fails : ∀ before failure after, operation before = .error failure after → Fails after failure
  commutes : ∀ retracking : Retracking, Commutes retracking.world operation

namespace Behaves

theorem pure (value : α) : Behaves allowed (Pure.pure value : Act α) :=
  ⟨.pure value, fun _ _ _ run => (nomatch run), fun _ => .pure value⟩

theorem throw {failure : Failure} (off : failure.OffStack) :
    Behaves allowed (MonadExcept.throw failure : Act α) := by
  refine ⟨.throw off.ordinary, fun before other after run => ?_, fun _ => .throw failure⟩
  cases run
  exact .offStack off

theorem bind {operation : Act α} {next : α → Act β} (first : Behaves allowed operation)
    (second : ∀ value, Behaves allowed (next value)) : Behaves allowed (operation >>= next) := by
  refine ⟨first.keeps.bind fun value => (second value).keeps, fun before failure after run => ?_,
    fun retracking => (first.commutes retracking).bind fun value => (second value).commutes retracking⟩
  change EStateM.bind operation next before = _ at run
  unfold EStateM.bind at run
  split at run
  · exact (second _).fails _ _ _ run
  · rename_i failed
    cases run
    exact first.fails _ _ _ failed

/-- Only what no retracking changes is read of the world. -/
theorem read {next : World → Act α}
    (blind : ∀ (retracking : Retracking) (world : World), next (retracking.world world) = next world)
    (second : ∀ world, Behaves allowed (next world)) : Behaves allowed (MonadState.get >>= next) :=
  ⟨.bind .get fun world => (second world).keeps, fun before => (second before).fails before,
    fun retracking => .get (blind retracking) fun world => (second world).commutes retracking⟩

end Behaves

theorem behaves_raise {fault : Fault} (off : fault.OffStack) :
    Behaves allowed (Act.raise fault : Act α) :=
  .throw off

theorem behaves_ofExcept {result : Except Fault α} (errs : Errs Fault.OffStack result) :
    Behaves allowed (ofExcept result) := by
  cases result with
  | ok value => exact .pure value
  | error fault => exact behaves_raise errs

theorem behaves_ofFailing {result : Except Failure α} (errs : Errs Failure.OffStack result) :
    Behaves allowed (ofFailing result) := by
  cases result with
  | ok value => exact .pure value
  | error failure => exact .throw errs

theorem behaves_ofLimit (result : Except LimitError α) : Behaves allowed (ofLimit result) := by
  cases result with
  | ok value => exact .pure value
  | error error => exact behaves_raise rfl

theorem behaves_heap : Behaves allowed heap :=
  .read (fun _ _ => rfl) fun world => .pure world.heap

theorem behaves_allocate {create : Heap → α × Heap}
    (spares : ∀ heap, (create heap).2.namespaces = heap.namespaces) : Behaves allowed (allocate create) :=
  ⟨fun before => ⟨World.Extends.heap before (create before.heap).2, spares before.heap⟩,
    fun _ _ _ run => (nomatch run), fun _ _ => rfl⟩

theorem behaves_place (draft : Draft) : Behaves allowed (place draft) :=
  behaves_allocate (Heap.place_namespaces draft)

theorem behaves_changeHeap {change : Heap → Heap} (spares : ∀ heap, (change heap).namespaces = heap.namespaces) :
    Behaves allowed (changeHeap change) :=
  behaves_allocate spares

theorem behaves_newException (kind : ExceptionKind) (message : Option String) :
    Behaves allowed (newException kind message) :=
  behaves_allocate fun _ => rfl

theorem behaves_emit {event : Event} (admitted : allowed event) : Behaves allowed (emit event) :=
  ⟨fun before => ⟨World.Extends.emit before admitted, rfl⟩, fun _ _ _ run => (nomatch run),
    fun retracking => .modify (retracking.world_emit event)⟩

theorem print_eq (piece : Piece) (world : World) :
    print piece world =
      match (world.sink.write piece).1 with
      | some error => .error (.raised (.sink error)) { world with sink := (world.sink.write piece).2 }
      | none => .ok () { world with sink := (world.sink.write piece).2 } := by
  change (match (world.sink.write piece).1 with
    | some error => raise (.sink error)
    | none => Pure.pure () : Act Unit) { world with sink := (world.sink.write piece).2 } = _
  cases (world.sink.write piece).1 <;> rfl

theorem behaves_print (piece : Piece) : Behaves allowed (print piece) := by
  have discreet (world : World) : Discreet allowed world { world with sink := (world.sink.write piece).2 } :=
    ⟨⟨rfl, [], by simp, by simp⟩, rfl⟩
  refine ⟨fun world => ?_, fun world failure after run => ?_, fun retracking => .get (fun _ => rfl) fun world => ?_⟩
  · rw [print_eq]
    cases (world.sink.write piece).1 with
    | some error => exact ⟨rfl, discreet world⟩
    | none => exact discreet world
  · rw [print_eq] at run
    cases answered : (world.sink.write piece).1 with
    | some error =>
        rw [answered] at run
        cases run
        exact .sink (Sink.refused_write answered)
    | none =>
        rw [answered] at run
        cases run
  · obtain ⟨refusal, sink⟩ := world.sink.write piece
    refine .bind (.modify fun _ => rfl) fun _ => ?_
    cases refusal with
    | some error => exact .throw _
    | none => exact .pure _

theorem behaves_checkResult (bytes : Nat) : Behaves allowed (checkResult bytes) :=
  .read (fun retracking world => congrArg ofLimit (retracking.checkResult world.tracker bytes)) fun _ =>
    behaves_ofLimit _

theorem behaves_iterate (value : Value) : Behaves allowed (iterate value) := by
  unfold iterate
  split
  · exact .pure _
  · refine .bind behaves_heap fun heap => ?_
    split
    · exact behaves_allocate fun _ => rfl
    · exact behaves_raise rfl

theorem behaves_next (iterator : Value) : Behaves allowed (next iterator) := by
  unfold next
  split
  · refine .bind behaves_heap fun before => ?_
    split
    · exact .bind (behaves_changeHeap fun _ => rfl) fun _ => .bind (behaves_place _) fun _ => .pure _
    · exact .pure _
  · exact behaves_raise rfl

section

variable {world : World} {ref : CursorRef}

theorem heap_bind {next : Heap → Act α} : (heap >>= next) world = next world.heap world := rfl

theorem next_none (spent : (world.heap.cursor ref).next? world.heap = none) :
    next (.iterator ref) world = .ok none world := by
  rw [next, heap_bind, spent]
  rfl

theorem next_some {item : Draft} {behind : Cursor}
    (found : (world.heap.cursor ref).next? world.heap = some (item, behind)) :
    next (.iterator ref) world =
      .ok (some ((world.heap.setCursor ref behind).place item).1)
        { world with heap := ((world.heap.setCursor ref behind).place item).2 } := by
  rw [next, heap_bind, found]
  rfl

end

theorem behaves_drain (value : Value) : Behaves allowed (drain value) := by
  refine .bind behaves_heap fun before => ?_
  split
  · exact behaves_raise rfl
  · rename_i cursor _
    refine .bind (behaves_checkResult _) fun _ => ?_
    obtain ⟨drafts, behind⟩ := cursor.take before (cursor.remaining before) []
    have placed : Behaves allowed (allocate (Heap.placeAll [] drafts)) :=
      behaves_allocate (Heap.placeAll_namespaces [] drafts)
    dsimp only
    split
    · refine .bind (behaves_raise rfl) fun _ => ?_
      split
      · exact .bind (behaves_changeHeap fun _ => rfl) fun _ => placed
      · exact placed
    · split
      · exact .bind (behaves_changeHeap fun _ => rfl) fun _ => placed
      · exact placed

end Act

namespace Builtin

open Act World

variable {allowed : Event → Prop}

theorem behaves_exactlyOne (function : Builtin) (arguments : List Value) :
    Behaves allowed (exactlyOne function arguments) := by
  unfold exactlyOne
  split
  · exact .pure _
  · exact behaves_raise rfl

theorem behaves_atMostOne (function : Builtin) (arguments : List Value) :
    Behaves allowed (atMostOne function arguments) := by
  unfold atMostOne
  split
  · exact .pure _
  · exact .pure _
  · exact behaves_raise rfl

theorem behaves_extreme (function : Builtin) (keep : Ordering) (symbol : String) (items : List Value) :
    Behaves allowed (match items with
      | [] => Act.raise (.emptySequence function.name)
      | first :: rest => do
          Act.ofFailing (extreme (Value.compare? (← Act.heap) symbol) keep first rest)) := by
  cases items with
  | nil => exact behaves_raise rfl
  | cons first rest =>
      exact .bind behaves_heap fun heap =>
        behaves_ofFailing (extreme_errs (Value.compare?_errs heap symbol) keep first rest)

theorem behaves_callExtreme (function : Builtin) (keep : Ordering) (symbol : String)
    (arguments : List Value) : Behaves allowed (callExtreme function keep symbol arguments) := by
  have chosen := @behaves_extreme allowed function keep symbol
  unfold callExtreme
  cases arguments with
  | nil => exact .bind (behaves_raise rfl) chosen
  | cons first rest =>
      cases rest with
      | nil => exact .bind (behaves_drain first) chosen
      | cons second rest => exact .bind (.pure _) chosen

theorem behaves_addItem (total item : Value) : Behaves allowed (addItem total item) := by
  refine .bind behaves_heap fun heap => .bind (behaves_ofExcept (Value.add_errs heap total item)) fun sum => ?_
  cases sum with
  | some draft => exact behaves_place draft
  | none => exact behaves_raise rfl

theorem behaves_foldlM_addItem (items : List Value) (start : Value) :
    Behaves allowed (items.foldlM addItem start) := by
  induction items generalizing start with
  | nil => exact .pure start
  | cons item items ih =>
      rw [List.foldlM_cons]
      exact .bind (behaves_addItem start item) ih

theorem behaves_callSum (arguments : List Value) : Behaves allowed (callSum arguments) := by
  have summed (iterable start : Value) :
      Behaves allowed (do (← Act.drain iterable).foldlM addItem start) :=
    .bind (behaves_drain iterable) fun items => behaves_foldlM_addItem items start
  unfold callSum
  dsimp only
  split
  · exact summed _ _
  · rename_i iterable start
    cases start with
    | str id text => exact behaves_raise rfl
    | _ => exact summed _ _
  · exact behaves_raise rfl

theorem behaves_printAll (texts : List String) : Behaves allowed (printAll texts) := by
  induction texts with
  | nil => exact behaves_print _
  | cons text texts ih =>
      cases texts with
      | nil => exact .bind (behaves_print _) fun _ => behaves_print _
      | cons next texts => exact .bind (behaves_print _) fun _ => .bind (behaves_print _) fun _ => ih

theorem behaves_call (function : Builtin) (arguments : List Value) :
    Behaves allowed (function.call arguments) := by
  have optional {next : Option Value → Act Value} (absent : Behaves allowed (next none))
      (present : ∀ argument, Behaves allowed (next (some argument))) :
      Behaves allowed (atMostOne function arguments >>= next) :=
    .bind (behaves_atMostOne function arguments) fun argument => by
      cases argument with
      | none => exact absent
      | some argument => exact present argument
  cases function with
  | abs => exact .bind (behaves_exactlyOne _ _) fun argument => behaves_ofExcept (callAbs_errs argument)
  | bool => exact optional (.pure _) fun _ => .bind behaves_heap fun _ => .pure _
  | float => exact optional (.pure _) fun argument => behaves_ofExcept (callFloat_errs argument)
  | int => exact optional (.pure _) fun argument => behaves_ofExcept (callInt_errs argument)
  | len =>
      refine .bind (behaves_exactlyOne _ _) fun argument => .bind behaves_heap fun heap => ?_
      split
      · exact .pure _
      · exact behaves_raise rfl
  | list => exact optional (behaves_place _) fun _ => .bind (behaves_drain _) fun _ => behaves_place _
  | tuple =>
      refine optional (behaves_place _) fun argument => ?_
      cases argument with
      | tuple id items => exact .pure _
      | _ => exact .bind (behaves_drain _) fun _ => behaves_place _
  | max | min => exact behaves_callExtreme _ _ _ _
  | print => exact .bind behaves_heap fun _ => .bind (behaves_printAll _) fun _ => .pure _
  | range => exact behaves_ofExcept (callRange_errs arguments)
  | repr => exact .bind (behaves_exactlyOne _ _) fun _ => .bind behaves_heap fun _ => behaves_place _
  | str => exact optional (behaves_place _) fun _ => .bind behaves_heap fun _ => behaves_place _
  | sum => exact behaves_callSum arguments

end Builtin

end BlockVM
