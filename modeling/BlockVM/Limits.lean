import BlockVM.Duration
import BlockVM.ExceptionKind

namespace BlockVM

/-! Bounds on a run: the number of instructions, the time, the depth of calls and the size of a
single result. -/

/-- A limit that was reached. -/
inductive LimitError where
  | instructionBudget (limit : Nat)
  | deadline (limit elapsed : Duration)
  | callDepth (limit : Nat)
  | resultSize (limit requested : Nat)
deriving Repr, DecidableEq

namespace LimitError

def kind : LimitError → ExceptionKind
  | .instructionBudget _ | .deadline .. => .timeoutError
  | .callDepth _ => .recursionError
  | .resultSize .. => .memoryError

def message : LimitError → String
  | .instructionBudget limit => s!"instruction budget of {limit} exhausted"
  | .deadline limit elapsed => "deadline of " ++ limit.render ++ " passed after " ++ elapsed.render
  | .callDepth limit => s!"maximum recursion depth ({limit}) exceeded"
  | .resultSize limit requested => s!"result of {requested} bytes exceeds the limit of {limit} bytes"

end LimitError

/-- Each limit may be unset. -/
structure Limits where
  maxOperations : Option Nat := none
  maxDuration : Option Duration := none
  maxRecursionDepth : Option Nat := none
  maxResultBytes : Option Nat := none
deriving Repr, DecidableEq, Inhabited

namespace Limits

def defaultRecursionDepth : Nat := 1000

def defaultResultBytes : Nat := 1 <<< 30

/-- Results up to this size are never refused. -/
def freeResultBytes : Nat := 100000

def recursionDepth (limits : Limits) : Nat :=
  limits.maxRecursionDepth.getD defaultRecursionDepth

def resultBytes (limits : Limits) : Nat :=
  limits.maxResultBytes.getD defaultResultBytes

end Limits

/-- What is counted against the limits. An unlimited tracker counts nothing and keeps only the
default depth and size limits. -/
inductive Tracker where
  | unlimited
  | limited (limits : Limits) (instructions : Nat) (elapsed : Duration)
deriving Repr, DecidableEq, Inhabited

namespace Tracker

def ofLimits (limits : Limits) : Tracker :=
  .limited limits 0 ⟨0⟩

def limits : Tracker → Limits
  | .unlimited => {}
  | .limited limits _ _ => limits

/-- Instructions counted so far, refused ones included. -/
def instructions? : Tracker → Option Nat
  | .unlimited => none
  | .limited _ instructions _ => some instructions

/-- The time that has passed, as the host last reported it. -/
def setElapsed (elapsed : Duration) : Tracker → Tracker
  | .unlimited => .unlimited
  | .limited limits instructions _ => .limited limits instructions elapsed

/-- Counts one instruction. -/
def count : Tracker → Tracker
  | .unlimited => .unlimited
  | .limited limits instructions elapsed => .limited limits (instructions + 1) elapsed

/-- Whether the instruction just counted is refused; the budget is asked before the deadline. -/
def refusal? : Tracker → Option LimitError
  | .unlimited => none
  | .limited limits instructions elapsed =>
      match limits.maxOperations with
      | some limit => if limit < instructions then some (.instructionBudget limit) else overdue limits elapsed
      | none => overdue limits elapsed
where
  overdue (limits : Limits) (elapsed : Duration) : Option LimitError :=
    match limits.maxDuration with
    | some limit => if limit < elapsed then some (.deadline limit elapsed) else none
    | none => none

/-- Admits a call made at call depth `depth`. -/
def checkCall (tracker : Tracker) (depth : Nat) : Except LimitError Unit :=
  let limit := tracker.limits.recursionDepth
  if limit ≤ depth then .error (.callDepth limit) else .ok ()

/-- Admits a large result of `bytes` bytes. -/
def checkLargeResult (tracker : Tracker) (bytes : Nat) : Except LimitError Unit :=
  let limit := tracker.limits.resultBytes
  if limit < bytes then .error (.resultSize limit bytes) else .ok ()

/-- Admits a result of `bytes` bytes; only large ones are asked about. -/
def checkResult (tracker : Tracker) (bytes : Nat) : Except LimitError Unit :=
  if Limits.freeResultBytes < bytes then tracker.checkLargeResult bytes else .ok ()

end Tracker

end BlockVM
