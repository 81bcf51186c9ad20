import BlockVM.Engine.Step
import BlockVM.Proofs.TransparentHandlers

namespace BlockVM

/-! # The engine does what the machine does

A state of the machine is a state of the engine in which no slot is empty that is needed. From such a state the engine
takes the same turn as the machine, so it never comes to any other. -/

def Block.embed (block : Block) : Engine.Block :=
  ⟨block.kind, block.target?, block.depth⟩

def Frame.embed (caller : Option Nat) (frame : Frame) : Engine.Frame where
  code := frame.code
  globals := frame.globals
  locals := frame.locals
  builtins := .standard
  stack := frame.stack
  blocks := frame.blocks.map Block.embed
  ip := frame.ip
  lastOffset := frame.lastOffset
  caller := caller

/-- The number of the frame next below, if there is one. -/
def callerOf : List Frame → Option Nat
  | [] => none
  | _ :: rest => some rest.length

def embedFrames : List Frame → List Engine.Frame
  | [] => []
  | frame :: below => frame.embed (callerOf below) :: embedFrames below

/-- The engine with the given return value in its slot. -/
def Active.embed (callers : List Frame) (returned : Option Value) (a : Active) : Engine :=
  ⟨embedFrames (a.frame :: callers), a.recovered, returned, a.world⟩

/-- The signal as the engine has it; its exception and its return value are in slots. -/
def Signal.why : Signal → Interruption
  | .return _ => .returning
  | .break => .breaking
  | .continue target => .continuing target
  | .raise _ => .raising

/-- The slot for the return value. It may hold a value that a frame did not come to return. -/
def Signal.returned (stale : Option Value) : Signal → Option Value
  | .return value => some value
  | _ => stale

/-- The slot for the exception. -/
def Active.under (signal : Signal) (a : Active) : Active :=
  match signal with
  | .raise raised => { a with recovered := some raised }
  | _ => a

/-- Where the engine stands. -/
def Phase.embed (stale : Option Value) : Phase → Engine.Phase
  | .resting (.running machine) => .stepping (machine.active.embed machine.callers stale)
  | .resting (.finished outcome world) => .finished outcome world
  | .resting (.unending world) => .unending world
  | .passing ⟨signal, a, callers⟩ => .draining signal.why ((a.under signal).embed callers (signal.returned stale))

@[simp] theorem Block.view?_embed (block : Block) : block.embed.view? = some block := by
  cases block <;> rfl

@[simp] theorem Block.filterMap_view?_embed (blocks : List Block) :
    (blocks.map Block.embed).filterMap Engine.Block.view? = blocks := by
  rw [List.filterMap_map, show Engine.Block.view? ∘ embed = some from funext view?_embed, List.filterMap_some]

@[simp] theorem Frame.view_embed (caller : Option Nat) (frame : Frame) :
    (frame.embed caller).view frame.depth = frame := by
  rw [Engine.Frame.view, embed]
  simp only [Block.filterMap_view?_embed]

@[simp] theorem embedFrames_length (frames : List Frame) : (embedFrames frames).length = frames.length := by
  induction frames with
  | nil => rfl
  | cons frame below ih => rw [embedFrames, List.length_cons, ih, List.length_cons]

theorem callChain_embed (frames : List Frame) : Engine.callChain 0 (embedFrames frames) = embedFrames frames := by
  induction frames with
  | nil => rfl
  | cons frame below ih =>
      cases below with
      | nil => rfl
      | cons caller rest =>
          have skipped : (embedFrames (caller :: rest)).length - (rest.length + 1) = 0 := by simp
          rw [embedFrames, Engine.callChain]
          simp only [Frame.embed, callerOf, skipped, ih]

theorem Frame.handler?_embed (caller : Option Nat) (frame : Frame) :
    (frame.embed caller).handler? = frame.handlerDepth?.map fun depth => (Block.exceptHandler depth).embed := by
  rw [Engine.Frame.handler?, handlerDepth?, embed]
  dsimp only
  induction frame.blocks with
  | nil => rfl
  | cons block blocks ih =>
      cases block with
      | exceptHandler depth => rfl
      | loop exit depth | setupExcept handler depth | «finally» handler depth => exact ih

theorem Frame.lowest?_embed (caller : Option Nat) (keep : Nat) (frame : Frame) :
    (frame.embed caller).lowest? keep = (frame.trim? keep).map Frame.stack := by
  unfold Engine.Frame.lowest? trim? embed
  dsimp only
  split <;> rfl

theorem handledIn?_embed (heap : Heap) (frames : List Frame) :
    Engine.handledIn? heap (embedFrames frames) = handled? heap frames := by
  induction frames with
  | nil => rfl
  | cons frame below ih =>
      rw [embedFrames, Engine.handledIn?, handled?, Frame.handler?_embed]
      cases frame.handlerDepth? with
      | none => exact ih
      | some depth =>
          have found := frame.lowest?_embed (callerOf below) (depth + 3)
          dsimp only [Option.map_some, Block.embed, Block.depth]
          rw [found]
          cases frame.trim? (depth + 3) with
          | none => rfl
          | some saved =>
              obtain ⟨_, _, _, stack, _, _, _, _⟩ := saved
              rcases stack with _ | ⟨kind, _ | ⟨value, _ | ⟨trace, rest⟩⟩⟩ <;> rfl

namespace Active

variable {callers : List Frame} {returned : Option Value} {a : Active}

theorem embed_handled? : (a.embed callers returned).handled? = handled? a.world.heap (a.frame :: callers) := by
  rw [Engine.handled?, embed, callChain_embed, handledIn?_embed]

/-- An exception is under way in the engine. -/
theorem setPending_embed (raised : Raised) (depth : a.frame.depth = callers.length + 1) :
    (a.embed callers returned).setPending raised =
      { (a.announce raised).embed callers returned with pending := some raised } := by
  have counted : (a.embed callers returned).frames.length = a.frame.depth := by
    rw [embed, embedFrames_length, List.length_cons, depth]
  rw [Engine.setPending, counted]
  rfl

theorem throw_embed (exception : ExceptionObject) (depth : a.frame.depth = callers.length + 1) :
    (a.embed callers returned).throw exception =
      { (a.throw callers exception).2.embed callers returned with pending := some (a.throw callers exception).1 } := by
  rw [Engine.throw, Active.throw, embed_handled?]
  cases handled? a.world.heap (a.frame :: callers) with
  | none => exact setPending_embed _ depth
  | some found =>
      obtain ⟨handled, heap⟩ := found
      dsimp only
      split
      · exact setPending_embed (a := a.setHeap heap) _ depth
      · exact setPending_embed (a := (a.setHeap heap).setHeap heap.fresh.2) _ depth

theorem raise_embed (fault : Fault) (depth : a.frame.depth = callers.length + 1) :
    (a.embed callers returned).raise fault =
      { (a.raise callers fault).2.embed callers returned with pending := some (a.raise callers fault).1 } :=
  throw_embed (a := a.setHeap a.world.heap.fresh.2) _ depth

end Active

theorem BuiltinTable.standard_get? (name : String) : standard.get? name = builtinNamed? name := by
  have lookup_map {α : Type} (label : α → String) (wrap : α → Value) (table : List α) (rest : List (String × Value)) :
      (table.map (fun entry => (label entry, wrap entry)) ++ rest).lookup name =
        ((table.find? (label · == name)).map wrap).or (rest.lookup name) := by
    induction table with
    | nil => rfl
    | cons entry table ih =>
        rw [List.map_cons, List.cons_append, List.lookup_cons, List.find?_cons, BEq.comm]
        cases label entry == name with
        | true => rfl
        | false => exact ih
  have kinds := lookup_map ExceptionKind.name .exceptionKind ExceptionKind.all []
  rw [List.append_nil] at kinds
  rw [get?, standard, lookup_map, kinds, builtinNamed?, Builtin.ofName?, ExceptionKind.ofName?]
  cases Builtin.all.find? (·.name == name) with
  | some function => rfl
  | none => cases ExceptionKind.all.find? (·.name == name) <;> rfl

/-- The block of a handler gives an exception back, or fails. -/
theorem Active.release_restores (depth : Nat) (a : Active) : (a.release (.exceptHandler depth)).1 ≠ .ok none := by
  rcases Nat.lt_or_ge a.frame.stack.length (depth + 3) with short | enough
  · simp [release, Frame.trim?_of_lt short]
  · obtain ⟨kind, value, trace, slots⟩ := rtake_handler enough
    rw [release_handler enough slots]
    cases Raised.ofValues kind value trace a.world.heap <;> simp

namespace Engine

variable {α β : Type} {callers : List BlockVM.Frame} {returned : Option Value}

/-- The outcome of an operation of the machine, as the engine has it. -/
def embedResult (callers : List BlockVM.Frame) (returned : Option Value) :
    EStateM.Result Failure Active α → EStateM.Result Failure Engine α
  | .ok value a => .ok value (a.embed callers returned)
  | .error failure a => .error failure (a.embed callers returned)

/-- The answer of a function of the machine, as an operation of the engine has it. -/
def embedAnswer (callers : List BlockVM.Frame) (returned : Option Value) :
    Except Fault α × Active → EStateM.Result Failure Engine α
  | (.ok value, a) => .ok value (a.embed callers returned)
  | (.error fault, a) => .error (.raised fault) (a.embed callers returned)

theorem get_bind {next : Engine → Exec α} {engine : Engine} : (MonadState.get >>= next) engine = next engine engine :=
  rfl

theorem modify_bind {change : Engine → Engine} {next : PUnit → Exec α} {engine : Engine} :
    (modify change >>= next) engine = next ⟨⟩ (change engine) := rfl

theorem frame_bind {next : Frame → Exec α} {a : Active} :
    (Exec.frame >>= next) (a.embed callers returned) =
      next (a.frame.embed (callerOf callers)) (a.embed callers returned) := rfl

/-- An operation of the engine does what one of the machine does, and raises ordinary faults only. -/
def Mirrors (callers : List BlockVM.Frame) (returned : Option Value) (machine : BlockVM.Exec α) (engine : Exec α) :
    Prop :=
  ∀ a : Active, a.frame.depth = callers.length + 1 →
    engine (a.embed callers returned) = embedResult callers returned (machine a) ∧
      Leaves (fun b => b.frame.depth = callers.length + 1) (machine a)

namespace Mirrors

theorem pure (value : α) : Mirrors callers returned (Pure.pure value) (Pure.pure value) :=
  fun _ depth => ⟨rfl, depth⟩

theorem raise {fault : Fault} (ordinary : fault.Ordinary) :
    Mirrors callers returned (BlockVM.Exec.raise fault : BlockVM.Exec α) (Exec.raise fault) :=
  fun _ depth => ⟨rfl, ordinary, depth⟩

theorem bind {machine : BlockVM.Exec α} {engine : Exec α} {next : α → BlockVM.Exec β} {onward : α → Exec β}
    (first : Mirrors callers returned machine engine)
    (second : ∀ value, Mirrors callers returned (next value) (onward value)) :
    Mirrors callers returned (machine >>= next) (engine >>= onward) := by
  intro a depth
  obtain ⟨same, kept⟩ := first a depth
  change EStateM.bind engine onward _ = embedResult callers returned (EStateM.bind machine next a) ∧
    Leaves _ (EStateM.bind machine next a)
  unfold EStateM.bind
  rw [same]
  cases run : machine a with
  | ok value b =>
      rw [run] at kept
      exact second value b kept
  | error failure b =>
      rw [run] at kept
      exact ⟨rfl, kept⟩

theorem get {next : Active → BlockVM.Exec β} {onward : Engine → Exec β}
    (second : ∀ a, Mirrors callers returned (next a) (onward (a.embed callers returned))) :
    Mirrors callers returned (MonadState.get >>= next) (MonadState.get >>= onward) :=
  fun a depth => second a a depth

theorem frame {next : BlockVM.Frame → BlockVM.Exec β} {onward : Frame → Exec β}
    (second : ∀ frame, Mirrors callers returned (next frame) (onward (frame.embed (callerOf callers)))) :
    Mirrors callers returned (BlockVM.Exec.frame >>= next) (Exec.frame >>= onward) :=
  fun a depth => second a.frame a depth

theorem act {operation : Act α} (behaves : Act.Behaves (fun _ => True) operation) :
    Mirrors callers returned (BlockVM.Exec.act operation) (Exec.act operation) := by
  intro a depth
  have kept := (BlockVM.Exec.Handles.act behaves).keeps a
  refine ⟨?_, kept.mono fun _ steady => steady.anchored.depth.trans depth⟩
  simp only [BlockVM.Exec.act, Exec.act, Active.embed]
  cases operation a.world <;> rfl

theorem onData {operation : BlockVM.Exec α} (kept : Keeps (Active.Steady fun _ => True) operation) :
    Mirrors callers returned operation (Exec.onData operation) := by
  intro a depth
  have left := kept a
  have viewed : (a.frame.embed (callerOf callers)).view ((embedFrames callers).length + 1) = a.frame := by
    rw [embedFrames_length, ← depth, Frame.view_embed]
  have resumed {b : Active} (steady : a.Steady (fun _ => True) b) :
      (⟨(a.frame.embed (callerOf callers)).resumed b :: embedFrames callers, b.recovered, returned, b.world⟩ : Engine) =
        b.embed callers returned := by
    obtain ⟨stack, ip, same⟩ := steady.frame
    rw [Active.embed, embedFrames, Frame.resumed, same]
    rfl
  have run : Exec.onData operation (a.embed callers returned) =
      match operation ⟨a.world, (a.frame.embed (callerOf callers)).view ((embedFrames callers).length + 1), a.recovered⟩ with
      | .ok result b =>
          .ok result ⟨(a.frame.embed (callerOf callers)).resumed b :: embedFrames callers, b.recovered, returned, b.world⟩
      | .error failure b =>
          .error failure
            ⟨(a.frame.embed (callerOf callers)).resumed b :: embedFrames callers, b.recovered, returned, b.world⟩ := rfl
  refine ⟨?_, left.mono fun _ steady => steady.anchored.depth.trans depth⟩
  rw [run, viewed]
  cases ran : operation a with
  | ok result b =>
      rw [ran] at left
      exact congrArg (EStateM.Result.ok result) (resumed left)
  | error failure b =>
      rw [ran] at left
      exact congrArg (EStateM.Result.error failure) (resumed left.2)

end Mirrors

end Engine

/-- What the outcome of an instruction leads to. -/
def Machine.conclude (callers : List Frame) : EStateM.Result Failure Active Effect → Phase
  | .ok effect a => follow callers effect a
  | .error (.raised fault) a => raise callers fault a
  | .error .unending a => .resting (.unending a.world)

theorem Machine.dispatch_conclude {callers : List Frame} {a b : Active} {instruction : Instruction Value}
    (read : fetch a = (.ok instruction, b)) :
    dispatch ⟨a, callers⟩ = conclude callers (execute instruction.opcode instruction.operand b) := by
  rw [dispatch, read]
  dsimp only
  rcases execute instruction.opcode instruction.operand b with _ | ⟨_ | _, _⟩ <;> rfl

namespace Engine

variable {α : Type} {callers : List BlockVM.Frame} {returned : Option Value}

/-- What the signal of an instruction leads to. -/
def Phase.ofSignal : EStateM.Result Failure Engine (Option Interruption) → Phase
  | .ok signal engine => ofResult (.ok (.ofSignal signal) engine)
  | .error failure engine => ofResult (.error failure engine)

/-- An instruction of the engine leads to where one of the machine leads to, and raises ordinary faults only. -/
def Agrees (callers : List BlockVM.Frame) (returned : Option Value) (machine : BlockVM.Exec Effect)
    (engine : Exec (Option Interruption)) : Prop :=
  ∀ a : Active, a.frame.depth = callers.length + 1 →
    Phase.ofSignal (engine (a.embed callers returned)) = (Machine.conclude callers (machine a)).embed returned ∧
      Leaves (fun _ => True) (engine (a.embed callers returned))

theorem ofSignal_error {a : Active} (failure : Failure) (depth : a.frame.depth = callers.length + 1) :
    Phase.ofSignal (.error failure (a.embed callers returned)) =
      (Machine.conclude callers (.error failure a)).embed returned := by
  cases failure with
  | raised fault =>
      change Phase.draining .raising ((a.embed callers returned).raise fault) = _
      rw [Active.raise_embed fault depth]
      rfl
  | unending => rfl

namespace Agrees

theorem raise {fault : Fault} (ordinary : fault.Ordinary) :
    Agrees callers returned (BlockVM.Exec.raise fault) (Exec.raise fault) :=
  fun _ depth => ⟨ofSignal_error (.raised fault) depth, ordinary, trivial⟩

theorem bind {machine : BlockVM.Exec α} {engine : Exec α} {next : α → BlockVM.Exec Effect}
    {onward : α → Exec (Option Interruption)} (first : Mirrors callers returned machine engine)
    (second : ∀ value, Agrees callers returned (next value) (onward value)) :
    Agrees callers returned (machine >>= next) (engine >>= onward) := by
  intro a depth
  obtain ⟨same, kept⟩ := first a depth
  change Phase.ofSignal (EStateM.bind engine onward _) =
    (Machine.conclude callers (EStateM.bind machine next a)).embed returned ∧ Leaves _ (EStateM.bind engine onward _)
  unfold EStateM.bind
  rw [same]
  cases run : machine a with
  | ok value b =>
      rw [run] at kept
      exact second value b kept
  | error failure b =>
      rw [run] at kept
      exact ⟨ofSignal_error failure kept.2, kept.1, trivial⟩

theorem get {next : Active → BlockVM.Exec Effect} {onward : Engine → Exec (Option Interruption)}
    (second : ∀ a, Agrees callers returned (next a) (onward (a.embed callers returned))) :
    Agrees callers returned (MonadState.get >>= next) (MonadState.get >>= onward) :=
  fun a depth => second a a depth

theorem next : Agrees callers returned (pure .next) (pure none) :=
  fun _ _ => ⟨rfl, trivial⟩

theorem thenNext {machine : BlockVM.Exec Unit} {engine : Exec Unit} (mirrors : Mirrors callers returned machine engine) :
    Agrees callers returned (BlockVM.Exec.thenNext machine) (do engine; return none) :=
  .bind mirrors fun _ => .next

theorem throw (exception : ExceptionObject) :
    Agrees callers returned (pure (.throw exception)) (Exec.raiseException exception) := by
  intro a depth
  refine ⟨?_, trivial⟩
  change Phase.draining .raising ((a.embed callers returned).throw exception) = _
  rw [Active.throw_embed exception depth]
  rfl

theorem propagate (raised : Raised) :
    Agrees callers returned (pure (.propagate raised)) (Exec.raiseAgain raised) := by
  intro a depth
  refine ⟨?_, trivial⟩
  change Phase.draining .raising ((a.embed callers returned).setPending raised) = _
  rw [Active.setPending_embed raised depth]
  rfl

theorem returns : Agrees callers returned (do return .interrupt (.return (← BlockVM.Exec.pop))) Exec.returnValue :=
  .bind (.onData BlockVM.Exec.handles_pop.keeps) fun _ _ _ => ⟨rfl, trivial⟩

theorem rethrow : Agrees callers returned (pure .rethrow) (Exec.raiseVarargs 0) := by
  intro a depth
  have followed : Machine.conclude callers ((pure .rethrow : BlockVM.Exec Effect) a) =
      Machine.follow callers .rethrow a := rfl
  rw [Exec.raiseVarargs, get_bind, Active.embed_handled?, followed, Machine.follow]
  cases BlockVM.handled? a.world.heap (a.frame :: callers) with
  | some found =>
      obtain ⟨raised, heap⟩ := found
      exact propagate raised (a.setHeap heap) depth
  | none =>
      dsimp only
      rw [get_bind, show (a.embed callers returned).pending = a.recovered from rfl]
      cases a.recovered with
      | some raised => exact propagate raised a depth
      | none => exact @raise _ _ .noActiveException rfl a depth

end Agrees

namespace Mirrors

theorem push (value : Value) : Mirrors callers returned (BlockVM.Exec.push value) (Exec.push value) :=
  .onData (BlockVM.Exec.handles_push value).keeps

theorem pop : Mirrors callers returned BlockVM.Exec.pop Exec.pop :=
  .onData BlockVM.Exec.handles_pop.keeps

theorem instance? (value : Value) :
    Mirrors callers returned (BlockVM.Exec.instance? value) (Exec.onData (BlockVM.Exec.instance? value)) :=
  .onData (BlockVM.Exec.handles_instance? value).keeps

theorem setHeap (heap : Heap) : Mirrors callers returned (modify (Active.setHeap heap)) (modify (Engine.setHeap heap)) :=
  fun _ depth => ⟨rfl, depth⟩

/-- The frame with one more block. -/
theorem putBlock (block : Nat → BlockVM.Block) {kind : BlockKind} {target : Nat}
    (same : ∀ depth, (block depth).embed = ⟨kind, some target, depth⟩) :
    Mirrors callers returned (BlockVM.Exec.pushBlock block) (Exec.putBlock kind (some target)) := by
  intro a depth
  have named : (block a.frame.stack.length).kind = kind := congrArg Block.kind (same a.frame.stack.length)
  have put : Exec.putBlock kind (some target) (a.embed callers returned) = .ok ()
      (Active.embed callers returned
        ({ a with frame := a.frame.pushBlock (block a.frame.stack.length) }.emit
          (.blockPush kind ((a.frame.blocks.map BlockVM.Block.embed).length + 1)))) := by
    simp only [Active.embed, Active.emit, embedFrames, Frame.embed, BlockVM.Frame.pushBlock, List.map_cons, same]
    rfl
  rw [put, List.length_map, ← named]
  exact ⟨rfl, depth⟩

theorem lookup? (space : NamespaceRef) (name : String) :
    Mirrors callers returned (BlockVM.Exec.lookup? space name) (Exec.lookup? space name) :=
  .get fun _ => .pure _

theorem globalValue (name : String) :
    Mirrors callers returned (BlockVM.Exec.globalValue name) (Exec.globalValue name) := by
  refine .frame fun frame => .bind (.lookup? _ name) fun found => ?_
  cases found with
  | some value => exact .pure value
  | none =>
      rw [show (frame.embed (callerOf callers)).builtins.get? name = builtinNamed? name from
        BuiltinTable.standard_get? name]
      cases builtinNamed? name with
      | some value => exact .pure value
      | none => exact .raise rfl

theorem nameValue (name : String) : Mirrors callers returned (BlockVM.Exec.nameValue name) (Exec.nameValue name) := by
  refine .frame fun frame => .bind (.lookup? _ name) fun found => ?_
  cases found with
  | some value => exact .pure value
  | none => exact .globalValue name

end Mirrors

namespace Agrees

theorem throwFresh (exception : ExceptionObject) (cause : Option ExceptionObject) : Agrees callers returned (do
      let (id, heap) := (← MonadState.get).world.heap.fresh
      modify (Active.setHeap heap)
      return .throw { exception with id, cause }) (do
      let (id, heap) := (← MonadState.get).world.heap.fresh
      modify (setHeap heap)
      Exec.raiseException { exception with id, cause }) :=
  .get fun _ => .bind (.setHeap _) fun _ => .throw _

theorem raiseVarargs (form : Nat) :
    Agrees callers returned (BlockVM.Exec.raiseVarargs form) (Exec.raiseVarargs form) := by
  match form with
  | 0 => exact .rethrow
  | 1 =>
      refine .bind .pop fun value => .bind (.instance? value) fun found => ?_
      cases found with
      | some exception => exact .throw exception
      | none => exact .raise rfl
  | 2 =>
      refine .bind (.onData BlockVM.Exec.handles_popTwo.keeps) fun (value, origin) => .bind (.instance? value) fun found => ?_
      cases found with
      | none => exact .raise rfl
      | some exception =>
          cases origin with
          | nothing => exact .bind (.pure _) fun _ => .throwFresh exception _
          | _ =>
              refine .bind (.instance? _) fun cause => ?_
              cases cause with
              | some cause => exact .bind (.pure _) fun _ => .throwFresh exception _
              | none => exact .bind (.raise rfl) fun _ => .throwFresh exception _
  | form + 3 => exact .raise rfl

theorem endFinally : Agrees callers returned BlockVM.Exec.endFinally Exec.endFinally := by
  refine .bind .pop fun value => ?_
  cases value with
  | nothing => exact .next
  | signal interruption =>
      cases interruption with
      | returning => exact .returns
      | breaking => exact fun _ _ => ⟨rfl, trivial⟩
      | continuing target =>
          refine .bind .pop fun payload => ?_
          cases payload.int? with
          | none => exact .raise rfl
          | some i =>
              dsimp only
              split
              · exact .raise rfl
              · exact fun _ _ => ⟨rfl, trivial⟩
      | raising => exact .raise rfl
  | exceptionKind kind =>
      exact .bind .pop fun value => .bind .pop fun trace => .get fun a =>
        .bind (.act (Act.behaves_ofExcept (Raised.ofValues_errs _ value trace a.world.heap))) fun pair =>
        .bind (.setHeap pair.2) fun _ => .propagate pair.1
  | _ => exact .raise rfl

theorem enter (code : Code Value) (arguments defaults : List Value) :
    Agrees callers returned (BlockVM.Exec.enter code arguments defaults) (Exec.enter code arguments defaults) := by
  intro a depth
  have counted : (embedFrames (a.frame :: callers)).length = a.frame.depth := by
    rw [embedFrames_length, List.length_cons, depth]
  have errs := code.bindArguments_errs arguments defaults
  have entered : Exec.enter code arguments defaults (a.embed callers returned) =
      EStateM.bind (Exec.act (Act.ofExcept (code.bindArguments arguments defaults))) _ (a.embed callers returned) := rfl
  rw [entered, BlockVM.Exec.enter_eq]
  cases bound : code.bindArguments arguments defaults with
  | error fault =>
      rw [bound] at errs
      exact ⟨ofSignal_error (.raised fault) depth, Fault.OffStack.ordinary errs, trivial⟩
  | ok bindings =>
      let limited := Exec.act (Act.ofLimit (a.world.tracker.checkCall (embedFrames (a.frame :: callers)).length))
      change Phase.ofSignal (EStateM.bind limited _ (a.embed callers returned)) = _ ∧
        Leaves _ (EStateM.bind limited _ (a.embed callers returned))
      dsimp only [limited]
      rw [counted]
      cases a.world.tracker.checkCall a.frame.depth with
      | error error => exact ⟨ofSignal_error (.raised (.limit error)) depth, rfl, trivial⟩
      | ok admitted =>
          rw [depth]
          exact ⟨rfl, trivial⟩

theorem callFunction (count : Nat) :
    Agrees callers returned (BlockVM.Exec.callFunction count) (Exec.callFunction count) := by
  refine .bind (.onData (BlockVM.Exec.handles_popMany count).keeps) fun arguments => .bind .pop fun callee => ?_
  cases callee with
  | function id name code defaults => exact .enter code arguments defaults
  | builtin function => exact .bind (.act (function.behaves_call arguments)) fun value => .bind (.push value) fun _ => .next
  | exceptionKind kind =>
      exact .get fun _ => .bind (.act (Act.behaves_newException _ _)) fun _ => .bind (.push _) fun _ => .next
  | _ => exact .raise rfl

end Agrees

/-- The block that has been taken off gives back what it gives back in the machine. -/
theorem unwindBlock_embed (block : BlockVM.Block) (a : Active) :
    Exec.unwindBlock block.embed (a.embed callers returned) = embedAnswer callers returned (a.release block) := by
  cases block with
  | exceptHandler depth =>
      have lowest := a.frame.lowest?_embed (callerOf callers) (depth + 3)
      rw [Exec.unwindBlock, frame_bind]
      dsimp only [BlockVM.Block.embed, BlockVM.Block.kind, BlockVM.Block.depth]
      rw [lowest]
      rcases Nat.lt_or_ge a.frame.stack.length (depth + 3) with short | enough
      · rw [Frame.trim?_of_lt short, Active.release, Frame.trim?_of_lt short]
        rfl
      · obtain ⟨kind, value, trace, slots⟩ := Active.rtake_handler enough
        rw [Frame.trim?_of_le enough, Active.release_handler enough slots, Option.map_some, slots]
        cases built : Raised.ofValues kind value trace a.world.heap with
        | error fault =>
            change EStateM.bind (Exec.act (Act.ofExcept (Raised.ofValues kind value trace a.world.heap))) _ _ = _
            rw [built]
            rfl
        | ok pair =>
            change EStateM.bind (Exec.act (Act.ofExcept (Raised.ofValues kind value trace a.world.heap))) _ _ = _
            rw [built]
            rfl
  | loop exit depth | setupExcept handler depth | «finally» handler depth =>
      have lowest := a.frame.lowest?_embed (callerOf callers) depth
      rw [Exec.unwindBlock, frame_bind]
      dsimp only [BlockVM.Block.embed, BlockVM.Block.kind, BlockVM.Block.depth]
      rw [lowest]
      unfold Active.release
      dsimp only [BlockVM.Block.depth]
      rcases Nat.lt_or_ge a.frame.stack.length depth with short | enough
      · rw [Frame.trim?_of_lt short]
        rfl
      · rw [Frame.trim?_of_le enough]
        rfl

namespace Mirrors

theorem popBlock : Mirrors callers returned BlockVM.Exec.popBlock Exec.popBlock := by
  rintro ⟨world, ⟨code, globals, locals, stack, blocks, ip, last, level⟩, recovered⟩ depth
  cases blocks with
  | nil => exact ⟨rfl, rfl, depth⟩
  | cons block rest =>
      refine ⟨?_, depth⟩
      have counted : (rest.map BlockVM.Block.embed).length = rest.length := List.length_map _
      have popped : Exec.popBlock (Active.embed callers returned
          ⟨world, ⟨code, globals, locals, stack, block :: rest, ip, last, level⟩, recovered⟩) =
          .ok () (Active.embed callers returned ⟨world.emit (.blockPop block.kind (rest.map BlockVM.Block.embed).length),
            ⟨code, globals, locals, stack, rest, ip, last, level⟩, recovered⟩) := rfl
      rw [popped, counted]
      rfl

theorem popExcept : Mirrors callers returned BlockVM.Exec.popExcept Exec.popExcept := by
  rintro ⟨world, ⟨code, globals, locals, stack, blocks, ip, last, level⟩, recovered⟩ depth
  cases blocks with
  | nil => exact ⟨rfl, rfl, depth⟩
  | cons block rest =>
      cases block with
      | loop exit height | setupExcept handler height | «finally» handler height => exact ⟨rfl, rfl, depth⟩
      | exceptHandler height =>
          let lowered : Active := ⟨world, ⟨code, globals, locals, stack, rest, ip, last, level⟩, recovered⟩
          have unwound := @unwindBlock_embed callers returned (.exceptHandler height) lowered
          have kept := (lowered.release_anchored (.exceptHandler height)).depth
          have errs := lowered.release_errs (.exceptHandler height)
          have restores := Active.release_restores height lowered
          have ran : BlockVM.Exec.popExcept
              ⟨world, ⟨code, globals, locals, stack, .exceptHandler height :: rest, ip, last, level⟩, recovered⟩ =
              BlockVM.Exec.recover (lowered.release (.exceptHandler height)).1
                (lowered.release (.exceptHandler height)).2 := rfl
          rw [ran]
          change EStateM.bind (Exec.unwindBlock (Block.exceptHandler height).embed) _ (lowered.embed callers returned) =
            _ ∧ _
          unfold EStateM.bind
          rw [unwound]
          rcases release : lowered.release (.exceptHandler height) with ⟨fault | _ | restored, b⟩
          · rw [release] at kept errs
            exact ⟨rfl, errs, kept.trans depth⟩
          · rw [release] at restores
            exact absurd rfl restores
          · rw [release] at kept
            have counted : (b.frame.blocks.map BlockVM.Block.embed).length = b.frame.blocks.length := List.length_map _
            have popped : (do
                Exec.act (Act.emit (.blockPop .exceptHandler (← Exec.frame).blocks.length))
                Exec.restoreException restored false : Exec Unit) (b.embed callers returned) =
                .ok () (Active.embed callers returned { b.emit (.blockPop .exceptHandler
                  (b.frame.blocks.map BlockVM.Block.embed).length) with recovered := some restored }) := rfl
            rw [counted] at popped
            exact ⟨popped, kept.trans depth⟩

end Mirrors

/-- Instructions that go on with the next one. -/
theorem operate_mirrors {opcode : Opcode} {operand : Operand Value} (fits : operand.Fits opcode.operandClass) :
    Mirrors callers returned (BlockVM.operate opcode operand) (Exec.operate opcode operand) := by
  have aimed {next : Nat → BlockVM.Exec Unit} {onward : Nat → Exec Unit}
      (fits : operand.Fits .jumpRelative) (second : ∀ target, Mirrors callers returned (next target) (onward target)) :
      Mirrors callers returned (BlockVM.Exec.target operand >>= next)
        (Exec.onData (BlockVM.Exec.target operand) >>= onward) :=
    .bind (.onData (BlockVM.Exec.handles_target (.inl fits)).keeps) second
  have named {next : String → BlockVM.Exec Unit} {onward : String → Exec Unit}
      (fits : operand.Fits .name) (second : ∀ name, Mirrors callers returned (next name) (onward name)) :
      Mirrors callers returned (BlockVM.Exec.name operand >>= next)
        (Exec.onData (BlockVM.Exec.name operand) >>= onward) :=
    .bind (.onData (BlockVM.Exec.handles_name (.inl fits)).keeps) second
  cases opcode with
  | setupLoop => exact aimed fits fun target => .putBlock (.loop target) fun _ => rfl
  | setupExcept => exact aimed fits fun target => .putBlock (.setupExcept target) fun _ => rfl
  | setupFinally => exact aimed fits fun target => .putBlock (.finally target) fun _ => rfl
  | popBlock => exact .popBlock
  | popExcept => exact .popExcept
  | loadName => exact named fits fun name => .bind (.nameValue name) fun value => .push value
  | loadGlobal => exact named fits fun name => .bind (.globalValue name) fun value => .push value
  | _ => exact .onData (operate_conforms fits rfl fun _ _ => trivial).keeps

theorem execute_agrees {opcode : Opcode} {operand : Operand Value} (fits : operand.Fits opcode.operandClass) :
    Agrees callers returned (BlockVM.execute opcode operand) (Exec.execute opcode operand) := by
  have counted : operand.Fits .int → Mirrors callers returned (BlockVM.Exec.number operand)
      (Exec.onData (BlockVM.Exec.number operand)) :=
    fun fits => .onData (BlockVM.Exec.handles_number fits).keeps
  cases opcode with
  | breakLoop => exact fun _ _ => ⟨rfl, trivial⟩
  | continueLoop => exact .bind (.onData (BlockVM.Exec.handles_target (.inr fits)).keeps) fun _ _ _ => ⟨rfl, trivial⟩
  | returnValue => exact .returns
  | endFinally => exact .endFinally
  | raiseVarargs => exact .bind (counted fits) .raiseVarargs
  | callFunction => exact .bind (counted fits) .callFunction
  | _ => exact .thenNext (operate_mirrors fits)

theorem fetch_embed {a : Active} (depth : a.frame.depth = callers.length + 1) :
    Exec.fetch (a.embed callers returned) = embedAnswer callers returned (Machine.fetch a) := by
  obtain ⟨world, frame, recovered⟩ := a
  have counted : (embedFrames (frame :: callers)).length = frame.depth := by
    rw [embedFrames_length, List.length_cons, depth]
  rw [Exec.fetch, modify_bind, get_bind, Machine.fetch]
  dsimp only [Active.embed]
  cases world.tracker.count.refusal? with
  | some error => rfl
  | none =>
      change EStateM.bind (Exec.act (Act.ofExcept (frame.code.decodeAt frame.ip))) _ _ = _
      cases frame.code.decodeAt frame.ip with
      | error fault => rfl
      | ok instruction =>
          dsimp only
          rw [← counted]
          rfl

/-- The engine executes the instruction that the machine executes. -/
theorem step_embed {machine : Machine} (depth : machine.active.frame.depth = machine.callers.length + 1) :
    Phase.ofResult (Exec.step (machine.active.embed machine.callers returned)) = machine.dispatch.embed returned ∧
      Leaves (fun _ => True) (Exec.step (machine.active.embed machine.callers returned)) := by
  obtain ⟨a, callers⟩ := machine
  change Phase.ofResult (EStateM.bind Exec.fetch _ (a.embed callers returned)) = _ ∧
    Leaves _ (EStateM.bind Exec.fetch _ (a.embed callers returned))
  unfold EStateM.bind
  rw [fetch_embed depth]
  rcases read : Machine.fetch a with ⟨fault | instruction, b⟩
  · have refused := @ofSignal_error callers returned b (.raised fault) ((Machine.fetch_anchored read).depth.trans depth)
    have errs := Machine.fetch_errs a
    rw [read] at errs
    rw [Machine.dispatch, read]
    exact ⟨refused, errs, trivial⟩
  · obtain ⟨agrees, leaves⟩ := @execute_agrees callers returned _ _ (Machine.fetch_fits read) b
      ((Machine.fetch_anchored read).depth.trans depth)
    rw [Machine.dispatch_conclude read, ← agrees]
    change Phase.ofResult (EStateM.bind (Exec.execute instruction.opcode instruction.operand)
      (fun signal => pure (Outcome.ofSignal signal)) (b.embed callers returned)) = _ ∧
      Leaves _ (EStateM.bind (Exec.execute instruction.opcode instruction.operand)
        (fun signal => pure (Outcome.ofSignal signal)) (b.embed callers returned))
    unfold EStateM.bind
    cases ran : Exec.execute instruction.opcode instruction.operand (b.embed callers returned) with
    | ok signal engine => exact ⟨rfl, trivial⟩
    | error failure engine =>
        rw [ran] at leaves
        exact ⟨rfl, leaves⟩

end Engine

end BlockVM
