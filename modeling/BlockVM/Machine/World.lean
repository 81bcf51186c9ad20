import BlockVM.Trace.Event
import BlockVM.Value.Order
import BlockVM.Value.Sequence

namespace BlockVM

/-- What is handed to a sink: the text of a value, or a blank or line feed between the texts. -/
inductive Piece where
  | value (text : String)
  | mark (character : Char)
deriving Repr, DecidableEq

def Piece.text : Piece → String
  | .value text => text
  | .mark character => character.toString

/-- How a sink takes what is printed. It answers each piece by what it was handed before, the latest first,
and may refuse it with any exception. -/
structure SinkPolicy where
  /-- Whether the text that is taken is kept. -/
  keeps : Bool := true
  answer : List Piece → Piece → Option WriteError := fun _ _ => none
deriving Inhabited

namespace SinkPolicy

def collect : SinkPolicy := {}

def discard : SinkPolicy := { keeps := false }

/-- Takes so many pieces and then is closed. -/
def closing (room : Nat) : SinkPolicy :=
  { answer := fun earlier _ =>
      if earlier.length < room then none else some { kind := .runtimeError, message := some "sink closed" } }

end SinkPolicy

/-- Where printed text goes. That the text on its way to a terminal waits in a buffer, and is lost when the
terminal fails, is left out: such a sink refuses the line feed that would have emptied the buffer. -/
structure Sink where
  policy : SinkPolicy := .collect
  /-- The pieces that were handed over, the latest first. -/
  pieces : List Piece := []
  /-- The text that was kept. -/
  text : String := ""
deriving Inhabited

namespace Sink

/-- Hands over a piece. One that is refused has been handed over too, but no text of it is kept. -/
def write (sink : Sink) (piece : Piece) : Option WriteError × Sink :=
  let handed := { sink with pieces := piece :: sink.pieces }
  match sink.policy.answer sink.pieces piece with
  | some error => (some error, handed)
  | none => (none, if sink.policy.keeps then { handed with text := sink.text ++ piece.text } else handed)

end Sink

/-- All that the frames of a run share. -/
structure World where
  heap : Heap
  sink : Sink
  tracker : Tracker
  /-- The events so far. -/
  events : Array Event
deriving Inhabited

namespace World

def start (tracker : Tracker) (sink : Sink) (platform : Platform := default) : World :=
  { heap := .empty platform, sink, tracker, events := #[] }

def emit (event : Event) (world : World) : World :=
  { world with events := world.events.push event }

end World

/-- Operations on the world. One that fails leaves the world as it had become by then. -/
abbrev Act := EStateM Failure World

namespace Act

variable {α : Type}

def raise (fault : Fault) : Act α :=
  throw (.raised fault)

def ofExcept : Except Fault α → Act α
  | .ok result => pure result
  | .error fault => raise fault

def ofFailing : Except Failure α → Act α
  | .ok result => pure result
  | .error failure => throw failure

def ofLimit : Except LimitError α → Act α
  | .ok result => pure result
  | .error error => raise (.limit error)

def heap : Act Heap :=
  return (← get).heap

/-- Creates something in the heap. -/
def allocate (create : Heap → α × Heap) : Act α :=
  fun ⟨heap, sink, tracker, events⟩ =>
    let (created, heap) := create heap
    .ok created ⟨heap, sink, tracker, events⟩

def changeHeap (change : Heap → Heap) : Act Unit :=
  allocate fun heap => ((), change heap)

def place (draft : Draft) : Act Value :=
  allocate (Heap.place draft)

def emit (event : Event) : Act Unit :=
  modify (World.emit event)

def print (piece : Piece) : Act Unit := do
  let (refusal, sink) := (← get).sink.write piece
  modify fun world => { world with sink }
  match refusal with
  | some error => raise (.sink error)
  | none => pure ()

/-- Asks whether a result of so many bytes may be built. -/
def checkResult (bytes : Nat) : Act Unit := do
  ofLimit ((← get).tracker.checkResult bytes)

/-- An iterator over a value; an iterator is its own. -/
def iterate (value : Value) : Act Value := do
  match value with
  | .iterator ref => return .iterator ref
  | other =>
      match other.cursor? (← heap) with
      | some cursor => allocate (Heap.newIterator cursor)
      | none => raise (.notIterable other.typeName)

/-- The next item of an iterator, if there is one. -/
def next (iterator : Value) : Act (Option Value) := do
  match iterator with
  | .iterator ref =>
      let before ← heap
      match (before.cursor ref).next? before with
      | some (item, behind) =>
          changeHeap (Heap.setCursor ref behind)
          return some (← place item)
      | none => return none
  | other => raise (.notIterator other.typeName)

/-- All items that an iterable still has. Their number is known beforehand, so a result that is
too large is refused before anything changes. -/
def drain (value : Value) : Act (List Value) := do
  let before ← heap
  match value.cursor? before with
  | none => raise (.notIterable value.typeName)
  | some cursor =>
      let count := cursor.remaining before
      checkResult (Size.mul count Size.slot)
      if before.platform.addressable < count * Size.slot then raise .resultTooLarge
      let (drafts, behind) := cursor.take before count []
      match value with
      | .iterator ref => changeHeap (Heap.setCursor ref behind)
      | _ => pure ()
      allocate (Heap.placeAll [] drafts)

/-- An exception instance with the given message. -/
def newException (kind : ExceptionKind) (message : Option String) : Act ExceptionObject :=
  allocate fun heap =>
    let (id, heap) := heap.fresh
    ({ id, kind, message, context := none, cause := none }, heap)

end Act

end BlockVM
