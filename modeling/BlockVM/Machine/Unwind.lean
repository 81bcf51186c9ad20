import BlockVM.Machine.Frame

namespace BlockVM

/-! Signals and the blocks that absorb them. A signal takes the blocks of its frame off one by
one until a block absorbs it: a loop absorbs `break` and `continue`, an `except` block an
exception, a `finally` block both and `return` as well. Fatal exceptions are not absorbed. -/

/-- The running frame with the world around it. -/
structure Active where
  world : World
  frame : Frame
  /-- The exception that a finished handler gave back last, for a bare `raise` to take up. -/
  recovered : Option Raised

namespace Active

def emit (event : Event) (a : Active) : Active :=
  { a with world := a.world.emit event }

def setHeap (heap : Heap) (a : Active) : Active :=
  { a with world := { a.world with heap } }

/-- An exception starts to propagate in the running frame. -/
def announce (raised : Raised) (a : Active) : Active :=
  { a.emit (.exception raised.kind a.frame.depth) with recovered := none }

/-- A copy of an exception with the given context. -/
def withContext (context : ExceptionObject) (exception : ExceptionObject) (a : Active) :
    ExceptionObject × Active :=
  let (id, heap) := a.world.heap.fresh
  ({ exception with id, context := some context }, a.setHeap heap)

/-- Raises an exception. The exception being handled becomes its context, unless it is the same
one. -/
def throw (callers : List Frame) (exception : ExceptionObject) (a : Active) : Raised × Active :=
  let (exception, a) :=
    match handled? a.world.heap (a.frame :: callers) with
    | none => (exception, a)
    | some (handled, heap) =>
        if handled.exception.id = exception.id then (exception, a.setHeap heap)
        else withContext handled.exception exception (a.setHeap heap)
  let raised := { exception, trace := none }
  (raised, a.announce raised)

/-- Raises the exception of a fault. -/
def raise (callers : List Frame) (fault : Fault) (a : Active) : Raised × Active :=
  let (id, heap) := a.world.heap.fresh
  throw callers { id, kind := fault.kind, message := fault.message?, context := none, cause := none }
    (a.setHeap heap)

/-- Trims the data stack to the depth of a block that has been taken off. A handler's block gives
its saved exception back. -/
def release (block : Block) (a : Active) : Except Fault (Option Raised) × Active :=
  match block with
  | .exceptHandler depth =>
      match a.frame.trim? (depth + 3) with
      | none => (.error .stackUnderflow, a)
      | some frame =>
          match frame.stack with
          | kind :: value :: trace :: rest =>
              let a := { a with frame := { frame with stack := rest } }
              match Raised.ofValues kind value trace a.world.heap with
              | .ok (raised, heap) => (.ok (some raised), a.setHeap heap)
              | .error fault => (.error fault, a)
          | _ => (.error .stackUnderflow, a)
  | block =>
      match a.frame.trim? block.depth with
      | none => (.error .stackUnderflow, a)
      | some frame => (.ok none, { a with frame })

/-- Puts a saved exception back into effect. While another one propagates it becomes the context
of that one, unless there is one already; otherwise it waits for a bare `raise`. -/
def restore (restored : Raised) (signal : Signal) (a : Active) : Signal × Active :=
  match signal with
  | .raise raised =>
      if raised.exception.context.isNone ∧ raised.exception.id ≠ restored.exception.id then
        let (exception, a) := withContext restored.exception raised.exception a
        (.raise { raised with exception }, a)
      else (.raise raised, a)
  | other => (other, { a with recovered := some restored })

/-- Enters a handler for an exception. The exception is put on the data stack twice: the lower
copy is given back when the handler ends, the upper one is for the handler to look at. -/
def enterHandler (handler : Nat) (raised : Raised) (a : Active) : Active :=
  let values := raised.toValues
  let frame :=
    { a.frame with
      blocks := .exceptHandler a.frame.stack.length :: a.frame.blocks
      stack := values ++ (values ++ a.frame.stack)
      ip := handler }
  { a with frame }.emit (.blockPush .exceptHandler frame.blocks.length)

/-- Enters a `finally` body with values to resume from, top first. -/
def enterFinally (handler : Nat) (values : List Value) (a : Active) : Active :=
  { a with frame := { a.frame with stack := values ++ a.frame.stack, ip := handler } }

/-- Enters a `finally` body that interrupts a `continue`; its target has to fit a word. -/
def enterContinue (handler target : Nat) (a : Active) : Except Fault Active :=
  if target ≤ Word.greatest then
    .ok (a.enterFinally handler [.signal (.continuing target), .int (Int64.ofNat target)])
  else .error .continueTooFar

end Active

/-- What becomes of a signal on its way through the blocks of a frame. -/
inductive Encounter where
  /-- A block absorbed it, and the frame goes on. -/
  | absorbed (active : Active)
  /-- The blocks met so far are gone, and this signal is left. -/
  | passed (signal : Signal) (active : Active)

namespace Active

/-- What a block that has been taken off does with a signal; `none` if it lets it pass. -/
def absorb (block : Block) (signal : Signal) (a : Active) : Option (Except Fault Active) :=
  match block, signal with
  | .loop exit _, .break => some (.ok { a with frame := a.frame.jump exit })
  | .setupExcept handler _, .raise raised =>
      if raised.kind.isFatal then none else some (.ok (a.enterHandler handler raised))
  | .finally handler _, .raise raised =>
      if raised.kind.isFatal then none else some (.ok (a.enterHandler handler raised))
  | .finally handler _, .return value =>
      some (.ok (a.enterFinally handler [.signal .returning, value]))
  | .finally handler _, .break => some (.ok (a.enterFinally handler [.signal .breaking]))
  | .finally handler _, .continue target => some (a.enterContinue handler target)
  | _, _ => none

/-- A fault takes the place of the signal under way. -/
def supplant (callers : List Frame) (fault : Fault) (a : Active) : Encounter :=
  let (raised, a) := a.raise callers fault
  .passed (.raise raised) a

/-- Takes the top block of the running frame off against a signal; `rest` are the blocks below it.
A block whose data is damaged raises in turn. -/
def meet (callers : List Frame) (block : Block) (rest : List Block) (signal : Signal) (a : Active) :
    Encounter :=
  match block, signal with
  | .loop .., .continue target =>
      .absorbed { a with frame := { a.frame with blocks := block :: rest, ip := target } }
  | _, _ =>
      let a := { a with frame := { a.frame with blocks := rest } }
      let (released, a) := a.release block
      let a := a.emit (.blockPop block.kind rest.length)
      match released with
      | .error fault => a.supplant callers fault
      | .ok restored =>
          let (signal, a) := match restored with
            | some saved => a.restore saved signal
            | none => (signal, a)
          match a.absorb block signal with
          | some (.ok a) => .absorbed a
          | some (.error fault) => a.supplant callers fault
          | none => .passed signal a

/-- Takes `blocks`, the block stack of the running frame, off one by one until one of them absorbs
the signal. -/
def drain (callers : List Frame) : List Block → Signal → Active → Encounter
  | [], signal, a => .passed signal a
  | block :: rest, signal, a =>
      match a.meet callers block rest signal with
      | .absorbed a => .absorbed a
      | .passed signal a => drain callers rest signal a

end Active

/-- How a frame ends. -/
inductive Exit where
  | returned (value : Value)
  | raised (raised : Raised)

/-- What becomes of a signal in its frame. -/
inductive Resolution where
  /-- A block absorbed it, and the frame goes on. -/
  | absorbed (active : Active)
  /-- No block is left, and the frame ends. -/
  | escaped (exit : Exit) (active : Active)

namespace Active

/-- Resolves a signal in the running frame. -/
def resolve (callers : List Frame) (signal : Signal) (a : Active) : Resolution :=
  match a.drain callers a.frame.blocks signal with
  | .absorbed a => .absorbed a
  | .passed signal a =>
      match signal with
      | .return value => .escaped (.returned value) a
      | .raise raised => .escaped (.raised raised) a
      | .break =>
          let (raised, a) := a.raise callers .breakOutsideLoop
          .escaped (.raised raised) a
      | .continue _ =>
          let (raised, a) := a.raise callers .continueOutsideLoop
          .escaped (.raised raised) a

end Active

end BlockVM
