import BlockVM.Binary64.Layout
import BlockVM.Heap
import BlockVM.Text.Basic

namespace BlockVM

/-- Floats are written with an exponent from `1e16` on and below `1e-4`; the exponent has a sign
and at least two digits. -/
def Value.floatLayout : NumberLayout :=
  { tie := .larger, lowest := -3, highest := 16, exponentWidth := 2 }

def Value.floatRepr (x : Float) : String :=
  match Binary64.ofFloat x with
  | .nan => "nan"
  | .infinite negative => if negative then "-inf" else "inf"
  | .finite negative significand exponent =>
      String.ofList (Value.floatLayout.finite negative significand exponent)

def Interruption.label : Interruption → String
  | .returning => "Return"
  | .breaking => "Break"
  | .continuing target => s!"Continue({target})"
  | .raising => "Exception"

namespace ExceptionObject

/-- The class, and the message in quotes if there is one. -/
def repr (e : ExceptionObject) : String :=
  match e.message with
  | some message => e.kind.name ++ "(" ++ Text.Quoted.render message ++ ")"
  | none => e.kind.name ++ "()"

/-- The class, and the message unless there is none or it is empty. -/
def render (e : ExceptionObject) : String :=
  match e.message with
  | some message => if message.isEmpty then e.kind.name else e.kind.name ++ ": " ++ message
  | none => e.kind.name

end ExceptionObject

namespace Value

/-- The texts with a comma between each two; `shown` is what stands before. -/
def joinComma (shown : String) : List String → String
  | [] => shown
  | [text] => shown ++ text
  | text :: texts => joinComma (shown ++ text ++ ", ") texts

/-- The text of a value in which `room` levels are shown. -/
def reprWithin (heap : Heap) : Nat → Value → String
  | 0, _ => "..."
  | room + 1, value =>
      match value with
      | .nothing => "None"
      | .bool true => "True"
      | .bool false => "False"
      | .int i => toString i.toInt
      | .float x => floatRepr x
      | .str _ text => Text.Quoted.render text
      | .list ref => joinComma "[" ((heap.items ref).toList.map (reprWithin heap room)) ++ "]"
      | .tuple _ items =>
          joinComma "(" (items.map (reprWithin heap room)) ++ (if items.length = 1 then ",)" else ")")
      | .range progression => progression.render
      | .iterator _ => "<iterator>"
      | .function _ name _ _ => "<function " ++ name ++ ">"
      | .builtin f => "<built-in function " ++ f.name ++ ">"
      | .exceptionKind kind => "<class '" ++ kind.name ++ "'>"
      | .exception object => object.repr
      | .traceback _ => "<traceback>"
      | .code _ unit => "<code object " ++ unit.name ++ ">"
      | .signal interruption => "<signal " ++ interruption.label ++ ">"

def repr (heap : Heap) (value : Value) : String :=
  reprWithin heap (nestingLimit + 1) value

/-- A string is itself and an exception its message; all else is shown as by `repr`. -/
def display (heap : Heap) (value : Value) : String :=
  match value with
  | .str _ text => text
  | .exception object => object.message.getD ""
  | other => other.repr heap

end Value

/-- A constant is shown as the value it is loaded as. -/
def Constant.repr (constant : Constant) : String :=
  let (value, heap) := constant.load Heap.empty
  value.repr heap

end BlockVM
