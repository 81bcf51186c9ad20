import BlockVM.Machine.World

namespace BlockVM

/-! Frames: the code being run, its namespaces, a data stack and a block stack. The top of a
stack is the head of its list. -/

/-- A block guards a region of code. Each notes the depth of the data stack at its start. -/
inductive Block where
  | loop (exit depth : Nat)
  | setupExcept (handler depth : Nat)
  | finally (handler depth : Nat)
  /-- A handler is running; the exception it handles is saved on the data stack from the depth
  on. -/
  | exceptHandler (depth : Nat)
deriving Repr, DecidableEq, Inhabited

namespace Block

def kind : Block → BlockKind
  | .loop .. => .loop
  | .setupExcept .. => .setupExcept
  | .finally .. => .finally
  | .exceptHandler _ => .exceptHandler

def depth : Block → Nat
  | .loop _ depth => depth
  | .setupExcept _ depth => depth
  | .finally _ depth => depth
  | .exceptHandler depth => depth

end Block

/-- What one call works on. Two things that a frame holds are left out, since they follow from where it stands:
its caller is the next frame below, and the built-in names are the same for all frames. `Engine.Frame` has them. -/
structure Frame where
  code : Code Value
  globals : NamespaceRef
  locals : NamespaceRef
  stack : List Value := []
  blocks : List Block := []
  /-- Where the next instruction starts. -/
  ip : Nat := 0
  /-- Where the last instruction started. -/
  lastOffset : Nat := 0
  /-- The number of frames up to this one; the root's is one. -/
  depth : Nat
deriving Inhabited

namespace Frame

def push (value : Value) (frame : Frame) : Frame :=
  { frame with stack := value :: frame.stack }

def jump (target : Nat) (frame : Frame) : Frame :=
  { frame with ip := target }

def pushBlock (block : Block) (frame : Frame) : Frame :=
  { frame with blocks := block :: frame.blocks }

/-- The lowest `keep` slots of the data stack, if there are so many. -/
def trim? (keep : Nat) (frame : Frame) : Option Frame :=
  if keep ≤ frame.stack.length then
    some { frame with stack := frame.stack.drop (frame.stack.length - keep) }
  else none

/-- The depth of the innermost running handler. -/
def handlerDepth? (frame : Frame) : Option Nat :=
  frame.blocks.findSome? fun
    | .exceptHandler depth => some depth
    | _ => none

end Frame

/-- An exception under way, with the frames it has left. -/
structure Raised where
  exception : ExceptionObject
  trace : Option Traceback

namespace Raised

def kind (raised : Raised) : ExceptionKind :=
  raised.exception.kind

/-- The values that stand for an exception on the data stack, top first. -/
def toValues (raised : Raised) : List Value :=
  [.exceptionKind raised.kind, .exception raised.exception,
    match raised.trace with
    | some trace => .traceback trace
    | none => .nothing]

/-- The exception that such values stand for. A class without an instance stands for a new
one. -/
def ofValues (kind value trace : Value) (heap : Heap) : Except Fault (Raised × Heap) := do
  let kind ← match kind with
    | .exceptionKind kind => pure kind
    | _ => throw .savedKindMissing
  let (exception, heap) ← match value with
    | .exception object => pure (object, heap)
    | .nothing =>
        let (id, heap) := heap.fresh
        pure ({ id, kind, message := none, context := none, cause := none }, heap)
    | other => throw (.savedExceptionMissing other.typeName)
  let trace ← match trace with
    | .traceback trace => pure (some trace)
    | .nothing => pure none
    | other => throw (.savedTracebackMissing other.typeName)
  return ({ exception, trace }, heap)

/-- Adds an entry to the traceback. -/
def note (entry : TracebackEntry) (raised : Raised) (heap : Heap) : Raised × Heap :=
  let (id, heap) := heap.fresh
  let entries := match raised.trace with
    | some trace => trace.entries
    | none => []
  ({ raised with trace := some { id, entries := entries ++ [entry] } }, heap)

/-- Notes that the exception leaves a frame. -/
def leave (frame : Frame) (raised : Raised) (heap : Heap) : Raised × Heap :=
  raised.note { code := frame.code.name, offset := frame.lastOffset } heap

end Raised

/-- The exception of the innermost running handler, looked for from the first frame on. If its
saved values are damaged there is none. -/
def handled? (heap : Heap) : List Frame → Option (Raised × Heap)
  | [] => none
  | frame :: callers =>
      match frame.handlerDepth? with
      | none => handled? heap callers
      | some depth =>
          match frame.trim? (depth + 3) with
          | none => none
          | some saved =>
              match saved.stack with
              | kind :: value :: trace :: _ => (Raised.ofValues kind value trace heap).toOption
              | _ => none

/-- Why a frame does not go on with the next instruction. -/
inductive Signal where
  | return (value : Value)
  | break
  | continue (target : Nat)
  | raise (raised : Raised)

end BlockVM
