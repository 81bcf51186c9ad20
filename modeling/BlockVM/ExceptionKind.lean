namespace BlockVM

/-- The exception classes. -/
inductive ExceptionKind where
  | baseException
  | exception
  | arithmeticError
  | zeroDivisionError
  | overflowError
  | lookupError
  | indexError
  | keyError
  | nameError
  | unboundLocalError
  | typeError
  | argumentCountMismatch
  | runtimeError
  | recursionError
  | valueError
  | stopIteration
  | assertionError
  | memoryError
  | stackUnderflow
  | unsupportedInstruction
  | systemError
  | timeoutError
deriving Repr, DecidableEq, Inhabited

namespace ExceptionKind

def all : List ExceptionKind :=
  [.baseException, .exception, .arithmeticError, .zeroDivisionError, .overflowError, .lookupError,
    .indexError, .keyError, .nameError, .unboundLocalError, .typeError, .argumentCountMismatch,
    .runtimeError, .recursionError, .valueError, .stopIteration, .assertionError, .memoryError,
    .stackUnderflow, .unsupportedInstruction, .systemError, .timeoutError]

def name : ExceptionKind → String
  | .baseException => "BaseException"
  | .exception => "Exception"
  | .arithmeticError => "ArithmeticError"
  | .zeroDivisionError => "ZeroDivisionError"
  | .overflowError => "OverflowError"
  | .lookupError => "LookupError"
  | .indexError => "IndexError"
  | .keyError => "KeyError"
  | .nameError => "NameError"
  | .unboundLocalError => "UnboundLocalError"
  | .typeError => "TypeError"
  | .argumentCountMismatch => "ArgumentCountMismatch"
  | .runtimeError => "RuntimeError"
  | .recursionError => "RecursionError"
  | .valueError => "ValueError"
  | .stopIteration => "StopIteration"
  | .assertionError => "AssertionError"
  | .memoryError => "MemoryError"
  | .stackUnderflow => "StackUnderflow"
  | .unsupportedInstruction => "UnsupportedInstruction"
  | .systemError => "SystemError"
  | .timeoutError => "TimeoutError"

def ofName? (name : String) : Option ExceptionKind :=
  all.find? (·.name == name)

/-- The class just above. -/
def parent? : ExceptionKind → Option ExceptionKind
  | .baseException => none
  | .exception => some .baseException
  | .zeroDivisionError | .overflowError => some .arithmeticError
  | .indexError | .keyError => some .lookupError
  | .unboundLocalError => some .nameError
  | .argumentCountMismatch => some .typeError
  | .recursionError => some .runtimeError
  | _ => some .exception

/-- Whether a handler for `handler` catches exceptions of this class. -/
def isSubclassOf (kind handler : ExceptionKind) : Bool :=
  kind == handler || handler == .baseException || (handler == .exception && kind != .baseException) ||
    kind.parent? == some handler

/-- Fatal exceptions end the run: no block absorbs them. -/
def isFatal : ExceptionKind → Bool
  | .stackUnderflow | .unsupportedInstruction | .systemError | .timeoutError => true
  | _ => false

end ExceptionKind

end BlockVM
