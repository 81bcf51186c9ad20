import BlockVM.CommandLine

namespace BlockVM

/-- What is found at a path. -/
def readContent (path : String) : IO FileContent := do
  try
    return .text (← IO.FS.readFile path)
  catch error =>
    match error with
    | .noFileOrDirectory .. => return .absent
    | .inappropriateType .. => return .notAFile
    | .userError _ => return .unreadable "stream did not contain valid UTF-8"
    | other => return .unreadable (toString other)

/-- Writes a report and gives its exit code. -/
def deliver (report : Report) : IO UInt32 := do
  (← IO.getStderr).putStr report.errors
  (← IO.getStdout).putStr report.output
  (← IO.getStdout).flush
  return report.exitCode.toUInt32

/-- Writes what a run has printed so far. -/
def forward (run : Run) : IO Run := do
  let (printed, run) := run.takePrinted
  (← IO.getStdout).putStr printed
  match run.tracer with
  | .log log =>
      (← IO.getStderr).putStr log.text
      return { run with tracer := .log { log with lines := #[] } }
  | _ => return run

/-- Goes on until the run ends, looking at the clock every `stride` steps. -/
partial def carryOn (began stride : Nat) (run : Run) : IO Run := do
  match run.status with
  | .running _ =>
      let now ← IO.monoNanosNow
      carryOn began stride (← forward ((run.setElapsed ⟨now - began⟩).advance stride))
  | _ => return run

/-- The program with its arguments; gives the exit code. -/
def perform (arguments : List String) : IO UInt32 := do
  match Invocation.ofArguments arguments with
  | .error error => deliver (.ofUsageError error)
  | .ok invocation =>
      match invocation.load (← readContent invocation.path) with
      | .error error => deliver (.ofLoadError "the text does not describe one" error)
      | .ok code =>
          (← IO.getStdout).putStr (invocation.preamble code)
          let began ← IO.monoNanosNow
          let stride := if invocation.limits.maxDuration.isSome then 1 else 4096
          let run ← carryOn began stride (invocation.start code)
          let elapsed : Duration := ⟨(← IO.monoNanosNow) - began⟩
          match Invocation.conclude? elapsed.render run with
          | some report => deliver report
          | none => return 1

end BlockVM

def main (arguments : List String) : IO UInt32 :=
  BlockVM.perform arguments
