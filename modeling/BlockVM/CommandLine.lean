import BlockVM.Code.Listing
import BlockVM.Constant.Encoding
import BlockVM.Machine.Run
import BlockVM.Text.Printable

namespace BlockVM

/-- What a command line asks for. -/
structure Invocation where
  path : String
  /-- Print the listing of the code object first. -/
  listing : Bool := false
  trace : Bool := false
  profile : Bool := false
  limits : Limits := {}
deriving Inhabited

inductive UsageError where
  | valueMissing (option : String)
  | notANumber (option value : String)
  | unknownOption (option : String)
  | unexpectedArgument (argument : String)
  | fileMissing
deriving Repr, DecidableEq

namespace UsageError

def message : UsageError → String
  | .valueMissing option => s!"{option} needs a value"
  | .notANumber option value =>
      s!"{option} expects a non-negative integer, got " ++ Text.Escaped.render value
  | .unknownOption option => s!"unknown option {option}"
  | .unexpectedArgument argument => s!"unexpected argument {argument}"
  | .fileMissing => "missing code file"

end UsageError

/-- An option that takes a number. -/
inductive LimitOption where
  | operations
  | depth
  | resultBytes
  | timeout
deriving Repr, DecidableEq

namespace LimitOption

def ofFlag? : String → Option LimitOption
  | "--max-ops" => some .operations
  | "--max-depth" => some .depth
  | "--max-result-bytes" => some .resultBytes
  | "--timeout-ms" => some .timeout
  | _ => none

/-- Sets a limit; an earlier setting is overridden. -/
def apply (option : LimitOption) (number : Nat) (limits : Limits) : Limits :=
  match option with
  | .operations => { limits with maxOperations := some number }
  | .depth => { limits with maxRecursionDepth := some number }
  | .resultBytes => { limits with maxResultBytes := some number }
  | .timeout => { limits with maxDuration := some (.ofMilliseconds number) }

end LimitOption

namespace Invocation

def usage : String :=
  "usage: byterun <code.json> [--dis] [--trace] [--profile] [--max-ops N] [--max-depth N] " ++
    "[--max-result-bytes N] [--timeout-ms N]"

/-- The arguments read so far. -/
structure Draft where
  path : Option String := none
  listing : Bool := false
  trace : Bool := false
  profile : Bool := false
  limits : Limits := {}

/-- Reads the arguments from left to right; the first that is wrong decides. -/
def read (draft : Draft) : List String → Except UsageError Invocation
  | [] =>
      match draft.path with
      | some path =>
          .ok { path, listing := draft.listing, trace := draft.trace, profile := draft.profile,
                limits := draft.limits }
      | none => .error .fileMissing
  | "--dis" :: rest => read { draft with listing := true } rest
  | "--trace" :: rest => read { draft with trace := true } rest
  | "--profile" :: rest => read { draft with profile := true } rest
  | argument :: rest =>
      match LimitOption.ofFlag? argument with
      | some option =>
          match rest with
          | [] => .error (.valueMissing argument)
          | value :: rest =>
              match Size.read? value.toList with
              | some number => read { draft with limits := option.apply number draft.limits } rest
              | none => .error (.notANumber argument value)
      | none =>
          if argument.startsWith "--" then .error (.unknownOption argument)
          else if draft.path.isSome then .error (.unexpectedArgument argument)
          else read { draft with path := some argument } rest

def ofArguments (arguments : List String) : Except UsageError Invocation :=
  read {} arguments

end Invocation

/-- What is found at a path. -/
inductive FileContent where
  | absent
  /-- Something is there, but it is not a file. -/
  | notAFile
  | unreadable (reason : String)
  | text (content : String)

inductive LoadError where
  | unreadable (path reason : String)
  | notAFile (path : String)
  | notCode (path : String)
deriving Repr, DecidableEq

namespace LoadError

/-- The message, where `reason` says why a text is no code object. -/
def message (reason : String) : LoadError → String
  | .unreadable path reason => s!"reading {path}: {reason}"
  | .notAFile path => s!"{path} is not a file"
  | .notCode path => s!"{path} is not a valid code object: {reason}"

end LoadError

/-- What a program leaves behind. -/
structure Report where
  output : String
  errors : String
  exitCode : UInt8
deriving Repr, DecidableEq

namespace Report

def ofUsageError (error : UsageError) : Report :=
  { output := "", errors := "error: " ++ error.message ++ "\n" ++ Invocation.usage ++ "\n", exitCode := 2 }

def ofLoadError (reason : String) (error : LoadError) : Report :=
  { output := "", errors := "error: " ++ error.message reason ++ "\n", exitCode := 1 }

/-- The result of a run that took the time `elapsed`. -/
def ofOutcome (heap : Heap) (elapsed : String) : Except Raised Value → Report
  | .ok value =>
      { output := value.repr heap ++ "\n", errors := "success after: " ++ elapsed ++ "\n", exitCode := 0 }
  | .error raised =>
      { output := "", errors := "error after: " ++ elapsed ++ "\n" ++ raised.render ++ "\n", exitCode := 1 }

/-- A run with an operation that does not end. -/
def unending : Report :=
  { output := "", errors := "error: an operation on values does not end\n", exitCode := 134 }

/-- What was written earlier comes first. -/
def after (output errors : String) (report : Report) : Report :=
  { report with output := output ++ report.output, errors := errors ++ report.errors }

end Report

namespace Invocation

/-- The code object to run. -/
def load (invocation : Invocation) : FileContent → Except LoadError (Code Constant)
  | .absent => .error (.unreadable invocation.path "No such file or directory (os error 2)")
  | .notAFile => .error (.notAFile invocation.path)
  | .unreadable reason => .error (.unreadable invocation.path reason)
  | .text content =>
      match Code.ofText? content with
      | some code => .ok code
      | none => .error (.notCode invocation.path)

/-- What is printed before the run. -/
def preamble (invocation : Invocation) (code : Code Constant) : String :=
  if invocation.listing then code.listing ++ "\n" else ""

/-- A profile is taken rather than a trace. -/
def tracer (invocation : Invocation) : Tracer :=
  if invocation.profile then .profile {}
  else if invocation.trace then .log {}
  else .none

/-- The code object in a fresh module, without arguments. -/
def start (invocation : Invocation) (code : Code Constant) : Run :=
  let (code, heap) := code.load Heap.empty
  let (environment, heap) := Environment.newModule heap
  let world := { World.start (.ofLimits invocation.limits) {} with heap }
  { status := world.launch code environment [], tracer := invocation.tracer }

/-- What a tracer has to say on the error output. -/
def tracerText : Tracer → String
  | .profile profile => profile.report ++ "\n"
  | .log log => log.text
  | _ => ""

/-- The report of a run; there is none before it ends. -/
def conclude? (elapsed : String) (run : Run) : Option Report :=
  match run.status with
  | .running _ => none
  | .finished outcome world =>
      some ((Report.ofOutcome world.heap elapsed outcome).after world.sink.text (tracerText run.tracer))
  | .unending world => some (Report.unending.after world.sink.text (tracerText run.tracer))

end Invocation

end BlockVM
