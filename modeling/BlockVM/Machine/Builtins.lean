import BlockVM.Binary64.Reader
import BlockVM.Machine.World

namespace BlockVM

/-- The value of a built-in name: a function or an exception class. -/
def builtinNamed? (name : String) : Option Value :=
  match Builtin.ofName? name with
  | some function => some (.builtin function)
  | none => (ExceptionKind.ofName? name).map .exceptionKind

namespace Builtin

def exactlyOne (function : Builtin) : List Value → Act Value
  | [argument] => pure argument
  | arguments => Act.raise (.exactlyOneArgument function.name arguments.length)

def atMostOne (function : Builtin) : List Value → Act (Option Value)
  | [] => pure none
  | [argument] => pure (some argument)
  | arguments => Act.raise (.atMostOneArgument function.name arguments.length)

def callAbs (argument : Value) : Except Fault Value :=
  match argument with
  | .bool value => .ok (.int (if value then 1 else 0))
  | .int i => (Word.ofInt? i.toInt.natAbs).elim (.error .integerOverflow) fun magnitude => .ok (.int magnitude)
  | .float x => .ok (.float x.abs)
  | other => .error (.badOperand "abs()" other.typeName)

def callFloat (argument : Value) : Except Fault Value :=
  match argument with
  | .float x => .ok (.float x)
  | .str _ text =>
      match Binary64.read? text with
      | some x => .ok (.float x)
      | none => .error (.badFloatText (Text.Quoted.render text))
  | other =>
      match other.int? with
      | some i => .ok (.float i.toFloat)
      | none => .error (.notNumeric "float" other.typeName)

/-- Floats are cut off at the point. -/
def callInt (argument : Value) : Except Fault Value :=
  match argument with
  | .float x =>
      if x.isNaN then .error .notANumberToInteger
      else
        match (Binary64.truncate? x).bind Word.ofInt? with
        | some i => .ok (.int i)
        | none => .error .floatOutOfRange
  | .str _ text =>
      match Word.read? (Text.trimBlanks text.toList) with
      | some i => .ok (.int i)
      | none => .error (.badIntegerText (Text.Quoted.render text))
  | other =>
      match other.int? with
      | some i => .ok (.int i)
      | none => .error (.notNumeric "int" other.typeName)

def rangeBound (argument : Value) : Except Fault Int64 :=
  match argument.int? with
  | some i => .ok i
  | none => .error (.notInteger argument.typeName)

def newRange (start stop step : Int64) : Except Fault Range :=
  if step = 0 then .error .zeroStep else .ok { start, stop, step }

def callRange (arguments : List Value) : Except Fault Value := do
  match ← arguments.mapM rangeBound with
  | [stop] => return .range (← newRange 0 stop 1)
  | [start, stop] => return .range (← newRange start stop 1)
  | [start, stop, step] => return .range (← newRange start stop step)
  | bounds => throw (.rangeArguments bounds.length)

/-- The first of the items that none of the later ones exceeds in the direction `keep`. -/
def extreme (compare? : Value → Value → Except Failure (Option Ordering)) (keep : Ordering)
    (best : Value) : List Value → Except Failure Value
  | [] => .ok best
  | item :: items =>
      match compare? item best with
      | .error failure => .error failure
      | .ok found =>
          if found = some keep then extreme compare? keep item items
          else extreme compare? keep best items

/-- The greatest or the smallest of several arguments, or of the items of one. -/
def callExtreme (function : Builtin) (keep : Ordering) (symbol : String) (arguments : List Value) :
    Act Value := do
  let items ← match arguments with
    | [] => Act.raise (.missingArgument function.name)
    | [iterable] => Act.drain iterable
    | several => pure several
  match items with
  | [] => Act.raise (.emptySequence function.name)
  | first :: rest => Act.ofFailing (extreme (Value.compare? (← Act.heap) symbol) keep first rest)

def addItem (total item : Value) : Act Value := do
  match ← Act.ofExcept (Value.add (← Act.heap) total item) with
  | some draft => Act.place draft
  | none => Act.raise (.unsupportedOperands "+" total.typeName item.typeName)

def callSum (arguments : List Value) : Act Value := do
  let sumFrom (iterable start : Value) : Act Value := do
    match start with
    | .str .. => Act.raise .sumOfStrings
    | start => (← Act.drain iterable).foldlM addItem start
  match arguments with
  | [iterable] => sumFrom iterable (.int 0)
  | [iterable, start] => sumFrom iterable start
  | other => Act.raise (.atMostTwoArguments "sum" other.length)

/-- Prints texts with a blank between each two and a line feed at the end. -/
def printAll : List String → Act Unit
  | [] => Act.print (.mark '\n')
  | [text] => do
      Act.print (.value text)
      Act.print (.mark '\n')
  | text :: texts => do
      Act.print (.value text)
      Act.print (.mark ' ')
      printAll texts

def call (function : Builtin) (arguments : List Value) : Act Value := do
  match function with
  | .abs => Act.ofExcept (callAbs (← exactlyOne .abs arguments))
  | .bool =>
      match ← atMostOne .bool arguments with
      | none => return .bool false
      | some argument => return .bool (argument.truthy (← Act.heap))
  | .float =>
      match ← atMostOne .float arguments with
      | none => return .float 0
      | some argument => Act.ofExcept (callFloat argument)
  | .int =>
      match ← atMostOne .int arguments with
      | none => return .int 0
      | some argument => Act.ofExcept (callInt argument)
  | .len =>
      let argument ← exactlyOne .len arguments
      match argument.length? (← Act.heap) with
      | some length => return .int (Int64.ofNat (Nat.min length Word.greatest))
      | none => Act.raise (.noLength argument.typeName)
  | .list =>
      match ← atMostOne .list arguments with
      | none => Act.place (.list #[])
      | some iterable => Act.place (.list (← Act.drain iterable).toArray)
  | .tuple =>
      match ← atMostOne .tuple arguments with
      | none => Act.place (.tuple [])
      | some (.tuple id items) => return .tuple id items
      | some iterable => Act.place (.tuple (← Act.drain iterable))
  | .max => callExtreme .max .gt ">" arguments
  | .min => callExtreme .min .lt "<" arguments
  | .print =>
      let heap ← Act.heap
      printAll (arguments.map (·.display heap))
      return .nothing
  | .range => Act.ofExcept (callRange arguments)
  | .repr =>
      let argument ← exactlyOne .repr arguments
      Act.place (.str (argument.repr (← Act.heap)))
  | .str =>
      match ← atMostOne .str arguments with
      | none => Act.place (.str "")
      | some argument => Act.place (.str (argument.display (← Act.heap)))
  | .sum => callSum arguments

end Builtin

end BlockVM
