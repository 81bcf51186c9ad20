import BlockVM.Machine.Step
import BlockVM.Trace.Tracer

namespace BlockVM

/-- The namespaces of a root frame. -/
structure Environment where
  globals : NamespaceRef
  locals : NamespaceRef
deriving Repr, DecidableEq, Inhabited

namespace Heap

/-- The bindings that a module starts with. -/
def newModule (heap : Heap) : NamespaceRef × Heap :=
  let (name, heap) := heap.newStr "__main__"
  heap.newNamespace
    (.ofList [("__name__", name), ("__doc__", .nothing), ("__package__", .nothing)])

end Heap

namespace Environment

/-- The environment of a module: locals and globals are one namespace. -/
def newModule (heap : Heap) : Environment × Heap :=
  let (space, heap) := heap.newModule
  (⟨space, space⟩, heap)

end Environment

namespace World

/-- A run that ends before its root frame is there. -/
def refuse (fault : Fault) (world : World) : Status :=
  let (id, heap) := world.heap.fresh
  let exception :=
    { id, kind := fault.kind, message := fault.message?, context := none, cause := none }
  .finished (.error { exception, trace := none }) { world with heap }

/-- Starts a code object as a root frame. The arguments are bound before the depth of calls is
checked. -/
def launch (code : Code Value) (environment : Environment) (arguments : List Value) (world : World) :
    Status :=
  match code.bindArguments arguments [] with
  | .error fault => world.refuse fault
  | .ok bindings =>
      let bind (space : Namespace) : Namespace :=
        bindings.foldl (fun space (name, value) => space.set name value) space
      let world := { world with heap := world.heap.updateSpace environment.locals bind }
      match world.tracker.checkCall 0 with
      | .error error => world.refuse (.limit error)
      | .ok () =>
          let world := world.emit (.call code.name 1)
          let frame := { code, globals := environment.globals, locals := environment.locals, depth := 1 }
          .running ⟨⟨world, frame, none⟩, []⟩

end World

/-- A run under observation. -/
structure Run where
  status : Status
  tracer : Tracer

namespace Run

/-- Takes at most `fuel` steps and then shows the tracer what happened. It might as well be shown each event at
once: a tracer takes no part in the run, and by `Run.advance_add` the portions in which it is shown the events make
no difference. -/
def advance (fuel : Nat) (run : Run) : Run :=
  let status := run.status.advance fuel
  { status := status.mapWorld fun world => { world with events := #[] }
    tracer := run.tracer.observeAll status.world.events }

/-- Tells the tracker how much time has passed. -/
def setElapsed (elapsed : Duration) (run : Run) : Run :=
  { run with
    status := run.status.mapWorld fun world => { world with tracker := world.tracker.setElapsed elapsed } }

/-- Takes out the text printed so far. -/
def takePrinted (run : Run) : String × Run :=
  (run.status.world.sink.text,
    { run with
      status := run.status.mapWorld fun world => { world with sink := { world.sink with text := "" } } })

end Run

namespace Raised

def tracebackEntries (raised : Raised) : List TracebackEntry :=
  match raised.trace with
  | some trace => trace.entries
  | none => []

/-- The text of an exception that escaped a run: the exception it came from, the frames it left
with the outermost first, and the exception itself. -/
def render (raised : Raised) : String :=
  let origin :=
    match raised.exception.cause, raised.exception.context with
    | some cause, _ =>
        cause.render ++
          "\n\nThe above exception was the direct cause of the following exception:\n\n"
    | none, some context =>
        context.render ++
          "\n\nDuring handling of the above exception, another exception occurred:\n\n"
    | none, none => ""
  let entries := raised.tracebackEntries
  let header := if entries.isEmpty then "" else "Traceback (most recent call last):\n"
  let lines := entries.reverse.map fun entry => s!"  in {entry.code}, offset {entry.offset}\n"
  origin ++ header ++ String.join lines ++ raised.exception.render

end Raised

end BlockVM
