import BlockVM.Machine.Run

namespace BlockVM

/-! # The engine

The states of `Machine` are in good order by construction: something runs, a signal has its value or its exception with
it, and a block has a place to go on at if it can absorb anything. The engine has the same parts in slots that may be
empty. It keeps all frames in one list, the exception and the return value of a signal apart from it, and the target of
a block as an option; what it does when one of them is missing is an internal fault. A frame knows the number of its
caller and the table of built-in names that it falls back to. -/

/-- The names that every frame falls back to. -/
structure BuiltinTable where
  entries : List (String × Value)

namespace BuiltinTable

/-- The functions first, then the exception classes. -/
def standard : BuiltinTable :=
  ⟨Builtin.all.map (fun function => (function.name, .builtin function)) ++
    ExceptionKind.all.map fun kind => (kind.name, .exceptionKind kind)⟩

def get? (table : BuiltinTable) (name : String) : Option Value :=
  table.entries.lookup name

end BuiltinTable

namespace Engine

structure Block where
  kind : BlockKind
  target : Option Nat
  /-- The depth of the data stack when the block was put up. -/
  depth : Nat

structure Frame where
  code : Code Value
  globals : NamespaceRef
  locals : NamespaceRef
  builtins : BuiltinTable
  stack : List Value := []
  blocks : List Block := []
  ip : Nat := 0
  lastOffset : Nat := 0
  /-- The number of the calling frame, counted from the root; the root itself has none. -/
  caller : Option Nat

end Engine

structure Engine where
  /-- The running frame first. The root has the number zero. -/
  frames : List Engine.Frame
  /-- The exception under way, or the one that a finished handler gave back last. -/
  pending : Option Raised
  /-- The value that a frame is about to return. -/
  returned : Option Value
  world : World

namespace Engine

namespace Block

/-- The block as instructions on data see it. -/
def view? : Block → Option BlockVM.Block
  | ⟨.loop, some exit, depth⟩ => some (.loop exit depth)
  | ⟨.setupExcept, some handler, depth⟩ => some (.setupExcept handler depth)
  | ⟨.finally, some handler, depth⟩ => some (.finally handler depth)
  | ⟨.exceptHandler, none, depth⟩ => some (.exceptHandler depth)
  | _ => none

end Block

namespace Frame

/-- The frame as instructions on data see it; they leave its blocks alone. -/
def view (depth : Nat) (frame : Frame) : BlockVM.Frame where
  code := frame.code
  globals := frame.globals
  locals := frame.locals
  stack := frame.stack
  blocks := frame.blocks.filterMap Block.view?
  ip := frame.ip
  lastOffset := frame.lastOffset
  depth := depth

/-- What an instruction on data has left of the frame. -/
def resumed (a : Active) (frame : Frame) : Frame :=
  { frame with stack := a.frame.stack, ip := a.frame.ip }

/-- The lowest `keep` slots of the data stack, if there are so many. -/
def lowest? (keep : Nat) (frame : Frame) : Option (List Value) :=
  if keep ≤ frame.stack.length then some (frame.stack.drop (frame.stack.length - keep)) else none

/-- The block of the innermost running handler. -/
def handler? (frame : Frame) : Option Block :=
  frame.blocks.find? (·.kind == .exceptHandler)

end Frame

/-- The frames from the given one outward, each by the number that its callee has for it. The first `skip` frames are
passed over. -/
def callChain : Nat → List Frame → List Frame
  | _, [] => []
  | skip + 1, _ :: below => callChain skip below
  | 0, frame :: below =>
      match frame.caller with
      | none => [frame]
      | some number => frame :: callChain (below.length - (number + 1)) below

/-- The exception of the innermost running handler among some frames. If its saved values are damaged there is none. -/
def handledIn? (heap : Heap) : List Frame → Option (Raised × Heap)
  | [] => none
  | frame :: outward =>
      match frame.handler? with
      | none => handledIn? heap outward
      | some block =>
          match frame.lowest? (block.depth + 3) with
          | some (kind :: value :: trace :: _) => (Raised.ofValues kind value trace heap).toOption
          | _ => none

/-- The exception being handled, following the chain of callers outward. -/
def handled? (engine : Engine) : Option (Raised × Heap) :=
  handledIn? engine.world.heap (callChain 0 engine.frames)

def setHeap (heap : Heap) (engine : Engine) : Engine :=
  { engine with world := { engine.world with heap } }

def emit (event : Event) (engine : Engine) : Engine :=
  { engine with world := engine.world.emit event }

/-- An exception is under way from now on. -/
def setPending (raised : Raised) (engine : Engine) : Engine :=
  { engine.emit (.exception raised.kind engine.frames.length) with pending := some raised }

/-- A copy of an exception with the given context. -/
def withContext (context exception : ExceptionObject) (engine : Engine) : ExceptionObject × Engine :=
  let (id, heap) := engine.world.heap.fresh
  ({ exception with id, context := some context }, engine.setHeap heap)

/-- Raises an exception. The exception being handled becomes its context, unless it is the same one. -/
def throw (exception : ExceptionObject) (engine : Engine) : Engine :=
  let (exception, engine) :=
    match engine.handled? with
    | none => (exception, engine)
    | some (handled, heap) =>
        if handled.exception.id = exception.id then (exception, engine.setHeap heap)
        else (engine.setHeap heap).withContext handled.exception exception
  engine.setPending { exception, trace := none }

/-- Raises the exception of a fault. -/
def raise (fault : Fault) (engine : Engine) : Engine :=
  let (id, heap) := engine.world.heap.fresh
  (engine.setHeap heap).throw
    { id, kind := fault.kind, message := fault.message?, context := none, cause := none }

end Engine

end BlockVM
