import BlockVM.Limits
import BlockVM.Opcode

namespace BlockVM

/-! The causes of the exceptions that the machine raises itself. Type names, function names and
quoted texts are carried as they are shown. -/

/-- The tables of a code object that operands index. -/
inductive Table where
  | constants
  | names
  | slots
deriving Repr, DecidableEq

def Table.entry : Table → String
  | .constants => "constant"
  | .names => "name"
  | .slots => "local"

/-- What a sink that refuses a piece of text answers: the kind of the exception to raise, and its message
if it has one. -/
structure WriteError where
  kind : ExceptionKind
  message : Option String
deriving Repr, DecidableEq

inductive Fault where
  /-- A value was taken from an empty data stack. -/
  | stackUnderflow
  | unknownOpcode (byte : UInt8) (offset : Nat)
  | unsupported (opcode : Opcode)
  | pastEnd (offset : Nat) (code : String)
  | truncatedOperand (opcode : Opcode) (offset : Nat) (code : String)
  | outsideTable (table : Table) (index : Nat) (code : String) (size : Nat)
  | missingSlots (code : String) (arguments slots : Nat)
  | operandMismatch (expected : String)
  | noFrame
  | missingTarget (kind : String)
  | missingException
  | endedWithoutException
  | emptyBlockStack
  | continueTooFar
  | breakOutsideLoop
  | continueOutsideLoop
  | savedKindMissing
  | savedExceptionMissing (type : String)
  | savedTracebackMissing (type : String)
  | badContinueTarget
  | endFinallyFound (type : String)
  | poppedBlock (kind : String)
  | badRaiseForm (form : Nat)
  | functionWithoutCode (type : String)
  | appendToNonList (type : String)
  | unknownComparison (selector : Nat)
  | undefinedName (name : String)
  | unboundLocal (name : String)
  | divisionByZero
  | integerDivisionByZero
  | floorDivisionByZero
  | moduloByZero
  | zeroToNegativePower
  | integerOverflow
  | floatOutOfRange
  | notANumberToInteger
  | negativeShift
  | unsupportedOperands (symbol left right : String)
  | badOperand (symbol type : String)
  | unordered (symbol left right : String)
  | notIterable (type : String)
  | notContainer (type : String)
  | needleNotString (type : String)
  | notSubscriptable (type : String)
  | noItemAssignment (type : String)
  | indexNotInteger (container type : String)
  | indexOutOfRange (container : String)
  | notIterator (type : String)
  | notCallable (type : String)
  | handlerNotException
  | notException
  | causeNotException
  | noActiveException
  | argumentCount (function : String) (expected given : Nat)
  | exactlyOneArgument (function : String) (given : Nat)
  | atMostOneArgument (function : String) (given : Nat)
  | atMostTwoArguments (function : String) (given : Nat)
  | missingArgument (function : String)
  | rangeArguments (given : Nat)
  | notInteger (type : String)
  | notNumeric (function type : String)
  | noLength (type : String)
  | sumOfStrings
  | emptySequence (function : String)
  | zeroStep
  | badIntegerText (quoted : String)
  | badFloatText (quoted : String)
  | tooFewValues (expected given : Nat)
  | tooManyValues (expected : Nat)
  | resultTooLarge
  | sink (error : WriteError)
  | limit (error : LimitError)
deriving Repr, DecidableEq

namespace Fault

def kind : Fault → ExceptionKind
  | .stackUnderflow => .stackUnderflow
  | .unknownOpcode .. | .unsupported _ => .unsupportedInstruction
  | .pastEnd .. | .truncatedOperand .. | .outsideTable .. | .missingSlots .. | .operandMismatch _
  | .noFrame | .missingTarget _ | .missingException | .endedWithoutException
  | .emptyBlockStack | .continueTooFar | .breakOutsideLoop | .continueOutsideLoop
  | .savedKindMissing | .savedExceptionMissing _ | .savedTracebackMissing _ | .badContinueTarget
  | .endFinallyFound _ | .poppedBlock _ | .badRaiseForm _ | .functionWithoutCode _
  | .appendToNonList _ | .unknownComparison _ => .systemError
  | .undefinedName _ => .nameError
  | .unboundLocal _ => .unboundLocalError
  | .divisionByZero | .integerDivisionByZero | .floorDivisionByZero | .moduloByZero
  | .zeroToNegativePower => .zeroDivisionError
  | .integerOverflow | .floatOutOfRange => .overflowError
  | .notANumberToInteger | .negativeShift | .emptySequence _ | .zeroStep | .badIntegerText _
  | .badFloatText _ | .tooFewValues .. | .tooManyValues _ => .valueError
  | .unsupportedOperands .. | .badOperand .. | .unordered .. | .notIterable _ | .notContainer _
  | .needleNotString _ | .notSubscriptable _ | .noItemAssignment _ | .indexNotInteger ..
  | .notIterator _ | .notCallable _ | .handlerNotException | .notException | .causeNotException
  | .exactlyOneArgument .. | .atMostOneArgument .. | .atMostTwoArguments .. | .missingArgument _
  | .rangeArguments _ | .notInteger _ | .notNumeric .. | .noLength _ | .sumOfStrings => .typeError
  | .indexOutOfRange _ => .indexError
  | .noActiveException => .runtimeError
  | .argumentCount .. => .argumentCountMismatch
  | .resultTooLarge => .memoryError
  | .sink error => error.kind
  | .limit error => error.kind

def message : Fault → String
  | .stackUnderflow => "pop from empty data stack"
  | .unknownOpcode byte offset =>
      let number := byte.toNat
      s!"no handler for instruction <opcode {number}> at offset {offset}"
  | .unsupported opcode => "no handler for instruction " ++ opcode.mnemonic
  | .pastEnd offset code => s!"instruction pointer {offset} ran past the end of '{code}'"
  | .truncatedOperand opcode offset code =>
      let name := opcode.mnemonic
      s!"truncated operand for {name} at offset {offset} in '{code}'"
  | .outsideTable table index code size =>
      let entry := table.entry
      s!"{entry} index {index} out of range in '{code}' (table has {size} entries)"
  | .missingSlots code arguments slots =>
      s!"code object '{code}' declares {arguments} arguments but has {slots} local slots"
  | .operandMismatch expected => s!"expected {expected} operand"
  | .noFrame => "no frame is executing"
  | .missingTarget kind => s!"{kind} block has no handler target"
  | .missingException => "exception signal without a pending exception"
  | .endedWithoutException => "frame ended without a pending exception"
  | .emptyBlockStack => "pop from empty block stack"
  | .continueTooFar => "continue target does not fit an int"
  | .breakOutsideLoop => "'break' outside loop"
  | .continueOutsideLoop => "'continue' not properly in loop"
  | .savedKindMissing => "exception state is missing its type"
  | .savedExceptionMissing type => s!"exception state holds a '{type}' instead of an exception"
  | .savedTracebackMissing type => s!"exception state holds a '{type}' instead of a traceback"
  | .badContinueTarget => "END_FINALLY found a bad continue target"
  | .endFinallyFound type => s!"END_FINALLY found a '{type}' on the stack"
  | .poppedBlock kind => s!"POP_EXCEPT popped a {kind} block"
  | .badRaiseForm form => s!"bad RAISE_VARARGS argument {form}"
  | .functionWithoutCode type => s!"MAKE_FUNCTION expects a code object, got '{type}'"
  | .appendToNonList type => s!"LIST_APPEND target is a '{type}', not a list"
  | .unknownComparison selector => s!"unknown comparison selector {selector}"
  | .undefinedName name => s!"name '{name}' is not defined"
  | .unboundLocal name => s!"local variable '{name}' referenced before assignment"
  | .divisionByZero => "division by zero"
  | .integerDivisionByZero => "integer division or modulo by zero"
  | .floorDivisionByZero => "float floor division by zero"
  | .moduloByZero => "float modulo"
  | .zeroToNegativePower => "0.0 cannot be raised to a negative power"
  | .integerOverflow => "integer overflow"
  | .floatOutOfRange => "cannot convert float to integer"
  | .notANumberToInteger => "cannot convert float NaN to integer"
  | .negativeShift => "negative shift count"
  | .unsupportedOperands symbol left right =>
      s!"unsupported operand type(s) for {symbol}: '{left}' and '{right}'"
  | .badOperand symbol type => s!"bad operand type for {symbol}: '{type}'"
  | .unordered symbol left right =>
      s!"'{symbol}' not supported between instances of '{left}' and '{right}'"
  | .notIterable type => s!"'{type}' object is not iterable"
  | .notContainer type => s!"argument of type '{type}' is not iterable"
  | .needleNotString type => s!"'in <string>' requires string as left operand, not {type}"
  | .notSubscriptable type => s!"'{type}' object is not subscriptable"
  | .noItemAssignment type => s!"'{type}' object does not support item assignment"
  | .indexNotInteger container type => s!"{container} indices must be integers, not {type}"
  | .indexOutOfRange container => s!"{container} index out of range"
  | .notIterator type => s!"'{type}' object is not an iterator"
  | .notCallable type => s!"'{type}' object is not callable"
  | .handlerNotException =>
      "catching classes that do not inherit from BaseException is not allowed"
  | .notException => "exceptions must derive from BaseException"
  | .causeNotException => "exception causes must derive from BaseException"
  | .noActiveException => "No active exception to reraise"
  | .argumentCount function expected given =>
      let plural := if expected = 1 then "" else "s"
      let verb := if given = 1 then "was" else "were"
      s!"{function}() takes {expected} positional argument{plural} but {given} {verb} given"
  | .exactlyOneArgument function given =>
      s!"{function}() takes exactly one argument ({given} given)"
  | .atMostOneArgument function given => s!"{function}() takes at most 1 argument ({given} given)"
  | .atMostTwoArguments function given =>
      s!"{function}() takes at most 2 arguments ({given} given)"
  | .missingArgument function => s!"{function} expected at least 1 argument, got 0"
  | .rangeArguments given => s!"range expected 1 to 3 arguments, got {given}"
  | .notInteger type => s!"'{type}' object cannot be interpreted as an integer"
  | .notNumeric function type =>
      s!"{function}() argument must be a string or a number, not '{type}'"
  | .noLength type => s!"object of type '{type}' has no len()"
  | .sumOfStrings => "sum() can't sum strings [use ''.join(seq) instead]"
  | .emptySequence function => s!"{function}() arg is an empty sequence"
  | .zeroStep => "range() arg 3 must not be zero"
  | .badIntegerText quoted => s!"invalid literal for int() with base 10: {quoted}"
  | .badFloatText quoted => s!"could not convert string to float: {quoted}"
  | .tooFewValues expected given =>
      s!"not enough values to unpack (expected {expected}, got {given})"
  | .tooManyValues expected => s!"too many values to unpack (expected {expected})"
  | .resultTooLarge => "result too large to allocate"
  | .sink error => error.message.getD ""
  | .limit error => error.message

/-- The message of the exception that is raised. Only that of a sink may be missing. -/
def message? : Fault → Option String
  | .sink error => error.message
  | fault => some fault.message

end Fault

/-- Why an operation has no result: it raises an exception, or it never comes to an end. -/
inductive Failure where
  | raised (fault : Fault)
  | unending
deriving Repr, DecidableEq

end BlockVM
