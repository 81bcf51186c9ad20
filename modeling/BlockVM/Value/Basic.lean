import BlockVM.Builtin
import BlockVM.Code.Basic
import BlockVM.Range

namespace BlockVM

/-! Values at run time. A value that can be told apart from an equal one carries an identity. Lists
and iterators change, so they are references into the heap; all other objects never change. -/

/-- An exception instance. `context` is the exception that was being handled when this one was
raised, `cause` the one it was raised from. -/
structure ExceptionObject where
  id : Nat
  kind : ExceptionKind
  message : Option String
  context : Option ExceptionObject
  cause : Option ExceptionObject

/-- Where a frame stood when an exception left it. -/
structure TracebackEntry where
  code : String
  offset : Nat
deriving Repr, DecidableEq, Inhabited

/-- The frames that an exception has left, innermost first. -/
structure Traceback where
  id : Nat
  entries : List TracebackEntry
deriving Repr, DecidableEq, Inhabited

/-- Why a frame does not go on with the next instruction. As a value it says what a `finally` body interrupted; its
payload lies below it on the data stack. -/
inductive Interruption where
  | returning
  | breaking
  | continuing (target : Nat)
  /-- An exception is under way; no run puts this on a data stack. -/
  | raising
deriving Repr, DecidableEq, Inhabited

structure ListRef where
  index : Nat
deriving Repr, DecidableEq, Inhabited

structure CursorRef where
  index : Nat
deriving Repr, DecidableEq, Inhabited

inductive Value where
  | nothing
  | bool (value : Bool)
  | int (value : Int64)
  | float (value : Float)
  | str (id : Nat) (text : String)
  | list (ref : ListRef)
  | tuple (id : Nat) (items : List Value)
  | range (range : Range)
  | iterator (ref : CursorRef)
  | function (id : Nat) (name : String) (code : Code Value) (defaults : List Value)
  | builtin (function : Builtin)
  | exceptionKind (kind : ExceptionKind)
  | exception (object : ExceptionObject)
  | traceback (trace : Traceback)
  | code (id : Nat) (code : Code Value)
  | signal (interruption : Interruption)

instance : Inhabited Value := ⟨.nothing⟩

/-- Levels of nesting that showing and comparing look into. -/
def Value.nestingLimit : Nat := 100

/-- A number as arithmetic sees it. -/
inductive Number where
  | int (value : Int64)
  | float (value : Float)

namespace Number

def toFloat : Number → Float
  | .int value => value.toFloat
  | .float value => value

/-- Two integers compare exactly, all else as floats. -/
def equal : Number → Number → Bool
  | .int a, .int b => a == b
  | a, b => a.toFloat == b.toFloat

/-- A NaN is not ordered against anything. -/
def compare? : Number → Number → Option Ordering
  | .int a, .int b => some (compare a.toInt b.toInt)
  | a, b =>
      let x := a.toFloat
      let y := b.toFloat
      if x < y then some .lt else if x == y then some .eq else if y < x then some .gt else none

end Number

namespace Value

def typeName : Value → String
  | .nothing => "NoneType"
  | .bool _ => "bool"
  | .int _ => "int"
  | .float _ => "float"
  | .str .. => "str"
  | .list _ => "list"
  | .tuple .. => "tuple"
  | .range _ => "range"
  | .iterator _ => "iterator"
  | .function .. => "function"
  | .builtin _ => "builtin_function_or_method"
  | .exceptionKind _ => "type"
  | .exception object => object.kind.name
  | .traceback _ => "traceback"
  | .code .. => "code"
  | .signal _ => "signal"

/-- The integer of an integer or a truth value. -/
def int? : Value → Option Int64
  | .bool value => some (if value then 1 else 0)
  | .int value => some value
  | _ => none

/-- A truth value counts as an integer. -/
def number? : Value → Option Number
  | .bool value => some (.int (if value then 1 else 0))
  | .int value => some (.int value)
  | .float value => some (.float value)
  | _ => none

/-- Identity: objects by their place, plain values by kind and content. -/
def same : Value → Value → Bool
  | .nothing, .nothing => true
  | .bool a, .bool b => a == b
  | .int a, .int b => a == b
  | .float a, .float b => a.toBits == b.toBits
  | .str a _, .str b _ => a == b
  | .list a, .list b => a == b
  | .tuple a _, .tuple b _ => a == b
  | .range a, .range b => a == b
  | .iterator a, .iterator b => a == b
  | .function a .., .function b .. => a == b
  | .builtin a, .builtin b => a == b
  | .exceptionKind a, .exceptionKind b => a == b
  | .exception a, .exception b => a.id == b.id
  | .traceback a, .traceback b => a.id == b.id
  | .code a _, .code b _ => a == b
  | .signal a, .signal b => a == b
  | _, _ => false

end Value

/-- A constant as a code object is written: plain data, without the identity it gets when the
code is loaded. -/
inductive Constant where
  | nothing
  | bool (value : Bool)
  | int (value : Int64)
  | float (value : Float)
  | str (text : String)
  | list (items : List Constant)
  | tuple (items : List Constant)
  | range (range : Range)
  | builtin (function : Builtin)
  | exceptionKind (kind : ExceptionKind)
  | code (code : Code Constant)

instance : Inhabited Constant := ⟨.nothing⟩

end BlockVM
