import BlockVM.Engine.State

namespace BlockVM.Engine

/-! Instructions and signals on the engine. Instructions that work on data only are those of the machine; the ones that
read or write a slot of the engine are given here. -/

/-- Operations on the engine. One that fails leaves it as it had become by then. -/
abbrev Exec := EStateM Failure Engine

namespace Exec

variable {α : Type}

def raise (fault : Fault) : Exec α :=
  MonadExcept.throw (.raised fault)

def act (operation : Act α) : Exec α :=
  fun ⟨frames, pending, returned, world⟩ =>
    match operation world with
    | .ok result world => .ok result ⟨frames, pending, returned, world⟩
    | .error failure world => .error failure ⟨frames, pending, returned, world⟩

/-- Goes on with the outcome of an operation, also if it fails. -/
def attempt (operation : Exec α) : Exec (Except Failure α) := fun engine =>
  match operation engine with
  | .ok result engine => .ok (.ok result) engine
  | .error failure engine => .ok (.error failure) engine

def ofAttempt : Except Failure α → Exec α
  | .ok result => pure result
  | .error failure => MonadExcept.throw failure

/-- The running frame. -/
def frame : Exec Frame := do
  match (← get).frames with
  | frame :: _ => return frame
  | [] => raise .noFrame

def changeFrame (change : Frame → Frame) : Exec Unit := do
  match (← get).frames with
  | frame :: below => modify fun engine => { engine with frames := change frame :: below }
  | [] => raise .noFrame

/-- An instruction on data, in the running frame. -/
def onData (operation : BlockVM.Exec α) : Exec α := fun ⟨frames, pending, returned, world⟩ =>
  match frames with
  | [] => .error (.raised .noFrame) ⟨frames, pending, returned, world⟩
  | frame :: below =>
      match operation ⟨world, frame.view frames.length, pending⟩ with
      | .ok result a => .ok result ⟨frame.resumed a :: below, a.recovered, returned, a.world⟩
      | .error failure a => .error failure ⟨frame.resumed a :: below, a.recovered, returned, a.world⟩

def push (value : Value) : Exec Unit :=
  onData (BlockVM.Exec.push value)

def pop : Exec Value :=
  onData BlockVM.Exec.pop

def jump (target : Nat) : Exec Unit :=
  onData (BlockVM.Exec.jump target)

/-- Puts up a block at the depth of the data stack. -/
def putBlock (kind : BlockKind) (target : Option Nat) : Exec Unit := do
  changeFrame fun frame => { frame with blocks := ⟨kind, target, frame.stack.length⟩ :: frame.blocks }
  act (Act.emit (.blockPush kind (← frame).blocks.length))

def takeBlock : Exec Block := do
  match (← frame).blocks with
  | block :: rest =>
      changeFrame fun frame => { frame with blocks := rest }
      return block
  | [] => raise .emptyBlockStack

def handlerTarget (block : Block) : Exec Nat :=
  match block.target with
  | some target => pure target
  | none => raise (.missingTarget block.kind.name)

/-- Trims the data stack to the depth of a block that has been taken off. A handler's block gives its saved exception
back. -/
def unwindBlock (block : Block) : Exec (Option Raised) := do
  let keep := match block.kind with
    | .exceptHandler => block.depth + 3
    | _ => block.depth
  match (← frame).lowest? keep with
  | none => raise .stackUnderflow
  | some stack =>
      match block.kind, stack with
      | .exceptHandler, kind :: value :: trace :: rest =>
          changeFrame fun frame => { frame with stack := rest }
          let (raised, heap) ← act (Act.ofExcept (Raised.ofValues kind value trace (← get).world.heap))
          modify (setHeap heap)
          return some raised
      | .exceptHandler, _ => raise .stackUnderflow
      | _, stack =>
          changeFrame fun frame => { frame with stack }
          return none

/-- Puts a saved exception back into effect. While another one is under way it becomes the context of that one, unless
there is one already; otherwise it waits for a bare `raise`. -/
def restoreException (restored : Raised) (raising : Bool) : Exec Unit := do
  if raising then
    match (← get).pending with
    | some raised =>
        if raised.exception.context.isNone ∧ raised.exception.id ≠ restored.exception.id then
          let (exception, engine) := (← get).withContext restored.exception raised.exception
          set { engine with pending := some { raised with exception } }
    | none => pure ()
  else modify fun engine => { engine with pending := some restored }

/-- Whether the exception under way may be absorbed by a block. -/
def pendingIsCatchable : Exec Bool :=
  return match (← get).pending with
    | some raised => !raised.kind.isFatal
    | none => false

/-- Enters a handler for the exception under way, which is put on the data stack twice. -/
def enterHandler (block : Block) : Exec Unit := do
  let target ← handlerTarget block
  match (← get).pending with
  | none => raise .missingException
  | some raised =>
      modify fun engine => { engine with pending := none }
      let values := raised.toValues
      changeFrame fun frame =>
        { frame with
          blocks := ⟨.exceptHandler, none, frame.stack.length⟩ :: frame.blocks
          stack := values ++ (values ++ frame.stack)
          ip := target }
      act (Act.emit (.blockPush .exceptHandler (← frame).blocks.length))

def popBlock : Exec Unit := do
  let block ← takeBlock
  act (Act.emit (.blockPop block.kind (← frame).blocks.length))

def popExcept : Exec Unit := do
  let block ← takeBlock
  if block.kind ≠ .exceptHandler then raise (.poppedBlock block.kind.name)
  let restored ← unwindBlock block
  act (Act.emit (.blockPop block.kind (← frame).blocks.length))
  match restored with
  | some restored => restoreException restored false
  | none => pure ()

def lookup? (space : NamespaceRef) (name : String) : Exec (Option Value) :=
  return ((← get).world.heap.space space).get? name

/-- Globals first, then the table of built-in names. -/
def globalValue (name : String) : Exec Value := do
  let frame ← frame
  match ← lookup? frame.globals name with
  | some value => return value
  | none =>
      match frame.builtins.get? name with
      | some value => return value
      | none => raise (.undefinedName name)

/-- Locals first, then globals, then the table of built-in names. -/
def nameValue (name : String) : Exec Value := do
  match ← lookup? (← frame).locals name with
  | some value => return value
  | none => globalValue name

/-- A frame returns a value. -/
def returnValue : Exec (Option Interruption) := do
  let value ← pop
  modify fun engine => { engine with returned := some value }
  return some .returning

/-- An exception is raised. -/
def raiseException (exception : ExceptionObject) : Exec (Option Interruption) := do
  modify (throw exception)
  return some .raising

/-- An exception goes on as it is. -/
def raiseAgain (raised : Raised) : Exec (Option Interruption) := do
  modify (setPending raised)
  return some .raising

def raiseVarargs (form : Nat) : Exec (Option Interruption) := do
  match form with
  | 0 =>
      match (← get).handled? with
      | some (raised, heap) =>
          modify (setHeap heap)
          raiseAgain raised
      | none =>
          match (← get).pending with
          | some raised => raiseAgain raised
          | none => raise .noActiveException
  | 1 =>
      match ← onData (BlockVM.Exec.instance? (← pop)) with
      | some exception => raiseException exception
      | none => raise .notException
  | 2 =>
      let (value, origin) ← onData BlockVM.Exec.popTwo
      match ← onData (BlockVM.Exec.instance? value) with
      | none => raise .notException
      | some exception =>
          let cause ← match origin with
            | .nothing => pure none
            | other =>
                match ← onData (BlockVM.Exec.instance? other) with
                | some cause => pure (some cause)
                | none => raise .causeNotException
          let (id, heap) := (← get).world.heap.fresh
          modify (setHeap heap)
          raiseException { exception with id, cause }
  | other => raise (.badRaiseForm other)

/-- Takes up again what a `finally` body or an unmatched handler interrupted. -/
def endFinally : Exec (Option Interruption) := do
  match ← pop with
  | .nothing => return none
  | .signal .returning => returnValue
  | .signal .breaking => return some .breaking
  | .signal (.continuing _) =>
      match (← pop).int? with
      | some i => if i < 0 then raise .badContinueTarget else return some (.continuing i.toInt.toNat)
      | none => raise .badContinueTarget
  | .exceptionKind kind =>
      let value ← pop
      let trace ← pop
      let (raised, heap) ←
        act (Act.ofExcept (Raised.ofValues (.exceptionKind kind) value trace (← get).world.heap))
      modify (setHeap heap)
      raiseAgain raised
  | other => raise (.endFinallyFound other.typeName)

/-- A new frame runs first, with globals and built-in names of its caller. -/
def enter (code : Code Value) (arguments defaults : List Value) : Exec (Option Interruption) := do
  let caller ← frame
  let bindings ← act (Act.ofExcept (code.bindArguments arguments defaults))
  let depth := (← get).frames.length
  act (Act.ofLimit ((← get).world.tracker.checkCall depth))
  let locals ← act (Act.allocate (Heap.newNamespace (Namespace.ofList bindings)))
  let callee : Frame :=
    { code, globals := caller.globals, locals, builtins := caller.builtins, caller := some (depth - 1) }
  modify fun engine => { engine with frames := callee :: engine.frames }
  act (Act.emit (.call code.name (depth + 1)))
  return none

def callFunction (count : Nat) : Exec (Option Interruption) := do
  let arguments ← onData (BlockVM.Exec.popMany count)
  match ← pop with
  | .function _ _ code defaults => enter code arguments defaults
  | .builtin function =>
      push (← act (function.call arguments))
      return none
  | .exceptionKind kind =>
      let message := BlockVM.Exec.exceptionMessage (← get).world.heap arguments
      push (.exception (← act (Act.newException kind message)))
      return none
  | other => raise (.notCallable other.typeName)

/-- Instructions that go on with the next one. -/
def operate (opcode : Opcode) (operand : Operand Value) : Exec Unit := do
  match opcode with
  | .setupLoop => putBlock .loop (some (← onData (BlockVM.Exec.target operand)))
  | .setupExcept => putBlock .setupExcept (some (← onData (BlockVM.Exec.target operand)))
  | .setupFinally => putBlock .finally (some (← onData (BlockVM.Exec.target operand)))
  | .popBlock => popBlock
  | .popExcept => popExcept
  | .loadName => push (← nameValue (← onData (BlockVM.Exec.name operand)))
  | .loadGlobal => push (← globalValue (← onData (BlockVM.Exec.name operand)))
  | other => onData (BlockVM.operate other operand)

/-- Executes one instruction. -/
def execute (opcode : Opcode) (operand : Operand Value) : Exec (Option Interruption) := do
  match opcode with
  | .breakLoop => return some .breaking
  | .continueLoop => return some (.continuing (← onData (BlockVM.Exec.target operand)))
  | .returnValue => returnValue
  | .endFinally => endFinally
  | .raiseVarargs => raiseVarargs (← onData (BlockVM.Exec.number operand))
  | .callFunction => callFunction (← onData (BlockVM.Exec.number operand))
  | other =>
      operate other operand
      return none

end Exec

/-- What an instruction, or a signal that has met a block or left a frame, comes to. -/
inductive Outcome where
  /-- The running frame goes on with the next instruction. -/
  | resumed
  | signalled (why : Interruption)
  /-- The root frame has ended. -/
  | ended (outcome : Except Raised Value)

def Outcome.ofSignal : Option Interruption → Outcome
  | none => .resumed
  | some why => .signalled why

namespace Exec

/-- Counts the next instruction and decodes it, if the tracker admits it. -/
def fetch : Exec (Instruction Value) := do
  modify fun engine => { engine with world := { engine.world with tracker := engine.world.tracker.count } }
  match (← get).world.tracker.refusal? with
  | some error => raise (.limit error)
  | none => pure ()
  let running ← frame
  let instruction ← act (Act.ofExcept (running.code.decodeAt running.ip))
  changeFrame fun frame => { frame with lastOffset := instruction.offset, ip := instruction.next }
  act (Act.emit
    (.instruction instruction.offset instruction.opcode (← frame).stack.length (← get).frames.length))
  return instruction

def step : Exec Outcome := do
  let instruction ← fetch
  return .ofSignal (← execute instruction.opcode instruction.operand)

/-- Enters the body of a `finally` block, which finds the signal on the data stack with its payload below it. -/
def enterFinally (target : Nat) (why : Interruption) : Exec Unit := do
  match why with
  | .returning =>
      let value := (← get).returned.getD .nothing
      modify fun engine => { engine with returned := none }
      push value
  | .continuing head =>
      if head ≤ Word.greatest then push (.int (Int64.ofNat head)) else raise .continueTooFar
  | .breaking | .raising => pure ()
  push (.signal why)
  jump target

/-- What a block that has been taken off does with a signal. -/
def absorb (block : Block) (why : Interruption) : Exec Outcome := do
  match block.kind, why with
  | .loop, .breaking =>
      jump (← handlerTarget block)
      return .resumed
  | .setupExcept, .raising | .finally, .raising =>
      if ← pendingIsCatchable then
        enterHandler block
        return .resumed
      else return .signalled why
  | .finally, why =>
      enterFinally (← handlerTarget block) why
      return .resumed
  | _, _ => return .signalled why

/-- The frame that a signal escaped from ends: with its value, or with the exception, which notes that it leaves it. -/
def popFrame (why : Interruption) : Exec (Except Raised Value) := do
  let ended := (← get).frames.head?
  modify fun engine => { engine with frames := engine.frames.tail }
  act (Act.emit (.return (← get).frames.length))
  if why = .returning then
    let value := (← get).returned.getD .nothing
    modify fun engine => { engine with pending := none, returned := none }
    return .ok value
  else
    let raised ← match (← get).pending with
      | some raised => pure raised
      | none =>
          let fault := Fault.endedWithoutException
          pure { exception := ← act (Act.newException fault.kind fault.message?), trace := none }
    modify fun engine => { engine with pending := none }
    match ended with
    | none => return .error raised
    | some frame =>
        let entry := { code := frame.code.name, offset := frame.lastOffset }
        return .error (← act (Act.allocate (raised.note entry)))

/-- A signal leaves a frame that has no block left. -/
def leave (why : Interruption) : Exec Outcome := do
  match why with
  | .breaking => raise .breakOutsideLoop
  | .continuing _ => raise .continueOutsideLoop
  | .returning | .raising =>
      let outcome ← popFrame why
      if (← get).frames.isEmpty then return .ended outcome
      match outcome with
      | .ok value =>
          push value
          return .resumed
      | .error raised =>
          modify (setPending raised)
          return .signalled .raising

/-- Takes the top block of the running frame off against a signal; `rest` are the blocks below it. -/
def unwind (block : Block) (rest : List Block) (why : Interruption) : Exec Outcome := do
  changeFrame fun frame => { frame with blocks := rest }
  let released ← attempt (unwindBlock block)
  act (Act.emit (.blockPop block.kind rest.length))
  match ← ofAttempt released with
  | some restored => restoreException restored (why = .raising)
  | none => pure ()
  absorb block why

/-- A signal meets the top block of the running frame. -/
def drain (why : Interruption) : Exec Outcome := do
  match (← frame).blocks with
  | [] => leave why
  | block :: rest =>
      match block.kind, why with
      | .loop, .continuing target =>
          jump target
          return .resumed
      | _, _ => unwind block rest why

end Exec

/-- Where a run of the engine stands: before an instruction, with a signal under way, or at its end. -/
inductive Phase where
  | stepping (engine : Engine)
  | draining (why : Interruption) (engine : Engine)
  | finished (outcome : Except Raised Value) (world : World)
  | unending (world : World)

namespace Phase

/-- The next instruction, or the next block or frame that a signal meets. -/
def attempt? : Phase → Option (EStateM.Result Failure Engine Outcome)
  | .stepping engine => some (Exec.step engine)
  | .draining why engine => some (Exec.drain why engine)
  | .finished .. | .unending _ => none

/-- Where an attempt leads. A fault is raised in the running frame. -/
def ofResult : EStateM.Result Failure Engine Outcome → Phase
  | .ok .resumed engine => .stepping engine
  | .ok (.signalled why) engine => .draining why engine
  | .ok (.ended outcome) engine => .finished outcome engine.world
  | .error (.raised fault) engine => .draining .raising (engine.raise fault)
  | .error .unending engine => .unending engine.world

def turn (phase : Phase) : Phase :=
  match phase.attempt? with
  | some result => ofResult result
  | none => phase

end Phase

end BlockVM.Engine

namespace BlockVM.World

/-- Starts a code object as a root frame. The arguments are bound before the depth of calls is checked. -/
def boot (code : Code Value) (environment : Environment) (arguments : List Value) (world : World) : Engine.Phase :=
  match code.bindArguments arguments [] with
  | .error fault => refused fault world
  | .ok bindings =>
      let bind (space : Namespace) : Namespace :=
        bindings.foldl (fun space (name, value) => space.set name value) space
      let world := { world with heap := world.heap.updateSpace environment.locals bind }
      match world.tracker.checkCall 0 with
      | .error error => refused (.limit error) world
      | .ok () =>
          let frame : Engine.Frame :=
            { code, globals := environment.globals, locals := environment.locals, builtins := .standard, caller := none }
          .stepping ⟨[frame], none, none, world.emit (.call code.name 1)⟩
where
  refused (fault : Fault) (world : World) : Engine.Phase :=
    let (id, heap) := world.heap.fresh
    let exception := { id, kind := fault.kind, message := fault.message?, context := none, cause := none }
    .finished (.error { exception, trace := none }) { world with heap }

end BlockVM.World
