import BlockVM.Json.Parser
import BlockVM.Json.Printer
import BlockVM.Value.Basic

namespace BlockVM

def Range.toJson (r : Range) : Json :=
  .record
    [("start", .number (.ofInt r.start.toInt)), ("stop", .number (.ofInt r.stop.toInt)),
      ("step", .number (.ofInt r.step.toInt))]

mutual

/-- A constant is its variant's name with its content; a float without a numeral is `null`. -/
def Constant.toJson : Constant → Json
  | .nothing => .text "None"
  | .bool value => .record [("Bool", .bool value)]
  | .int value => .record [("Int", .number (.ofInt value.toInt))]
  | .float value =>
      .record [("Float", match Json.Numeral.ofFloat? value with
        | some numeral => .number numeral
        | none => .null)]
  | .str text => .record [("Str", .text text)]
  | .list items => .record [("List", .array (Constant.listToJson items))]
  | .tuple items => .record [("Tuple", .array (Constant.listToJson items))]
  | .range progression => .record [("Range", progression.toJson)]
  | .builtin function => .record [("Builtin", .text function.name)]
  | .exceptionKind kind => .record [("ExcType", .text kind.name)]
  | .code unit => .record [("Code", Constant.codeToJson unit)]

def Constant.listToJson : List Constant → List Json
  | [] => []
  | item :: items => item.toJson :: Constant.listToJson items

def Constant.codeToJson : Code Constant → Json
  | ⟨name, instructions, constants, names, localSlots, argCount⟩ =>
      .record
        [("name", .text name),
          ("instructions", .array (instructions.toList.map fun byte => .number (.ofNat byte.toNat))),
          ("constants", .array (Constant.listToJson constants)),
          ("names", .array (names.map .text)),
          ("local_slots", .array (localSlots.map .text)),
          ("arg_count", .number (.ofNat argCount))]

end

def Code.toJson (code : Code Constant) : Json :=
  Constant.codeToJson code

def Code.toText (code : Code Constant) : String :=
  code.toJson.pretty

namespace Json

/-- The integer of a number, if it lies between the bounds. -/
def integerIn? (low high : Int) : Json → Option Int
  | .number numeral =>
      match numeral.integer? with
      | some i => if low ≤ i ∧ i ≤ high then some i else none
      | none => none
  | _ => none

def word? (document : Json) : Option Int64 :=
  (document.integerIn? (-0x8000000000000000) 0x7fffffffffffffff).map Int64.ofInt

def size? (document : Json) : Option Nat :=
  (document.integerIn? 0 0xffffffffffffffff).map Int.toNat

def byte? (document : Json) : Option UInt8 :=
  (document.integerIn? 0 255).map fun i => UInt8.ofNat i.toNat

def string? : Json → Option String
  | .string text => text
  | _ => none

/-- The items of an array, each read by `read`. -/
def items? {α : Type} (read : Json → Option α) : Json → Option (List α)
  | .array items => items.mapM read
  | _ => none

/-- One of a set of names, plain or as the only field of an object over `null`; `nested` says
whether an object may stand here. -/
def choice? {α : Type} (nested : Bool) (ofName? : String → Option α) : Json → Option α
  | .string (some name) => ofName? name
  | .object [(some name, .null)] => if nested then ofName? name else none
  | _ => none

/-- What an object says about a field: nothing, one value, or a contradiction. -/
inductive Entry where
  | absent
  | present (value : Json)
  | repeated

def entry (fields : List (Option String × Json)) (name : String) : Entry :=
  match fields.filter (·.1 == some name) with
  | [] => .absent
  | [(_, value)] => .present value
  | _ => .repeated

/-- The entries of a structure with the given fields: of an object by name, where other fields
are ignored, or of an array by position. -/
def entries? (names : List String) : Json → Option (List Entry)
  | .object fields =>
      if fields.all (·.1.isSome) then some (names.map (entry fields)) else none
  | .array items =>
      if items.length ≤ names.length then
        some (items.map .present ++ List.replicate (names.length - items.length) .absent)
      else none
  | _ => none

def Entry.required? {α : Type} (read : Json → Option α) : Entry → Option α
  | .present value => read value
  | _ => none

def Entry.optional? {α : Type} (fallback : α) (read : Json → Option α) : Entry → Option α
  | .absent => some fallback
  | .present value => read value
  | .repeated => none

end Json

def Range.ofJson? (document : Json) : Option Range :=
  match document.entries? ["start", "stop", "step"] with
  | some [start, stop, step] => do
      return {
        start := ← start.required? Json.word?
        stop := ← stop.required? Json.word?
        step := ← step.required? Json.word? }
  | _ => none

/-- Reads a code object whose constants are read by `constant?`. Only the instructions have to be
given. -/
def Code.ofJson? {α : Type} (constant? : Json → Option α) (document : Json) : Option (Code α) :=
  match document.entries? ["name", "instructions", "constants", "names", "local_slots", "arg_count"] with
  | some [name, instructions, constants, names, localSlots, argCount] => do
      return {
        name := ← name.optional? "<module>" Json.string?
        instructions := (← instructions.required? (Json.items? Json.byte?)).toArray
        constants := ← constants.optional? [] (Json.items? constant?)
        names := ← names.optional? [] (Json.items? Json.string?)
        localSlots := ← localSlots.optional? [] (Json.items? Json.string?)
        argCount := ← argCount.optional? 0 Json.size? }
  | _ => none

/-- Reads a constant in a document that may nest `room` levels deeper. Each array and each object
that is looked into is one level. -/
def Constant.ofJson? : Nat → Json → Option Constant
  | _, .string (some "None") => some .nothing
  | room + 1, .object [(some variant, content)] =>
      match variant with
      | "None" => match content with
        | .null => some .nothing
        | _ => none
      | "Bool" => match content with
        | .bool value => some (.bool value)
        | _ => none
      | "Int" => content.word?.map .int
      | "Float" => match content with
        | .number numeral => numeral.float?.map .float
        | _ => none
      | "Str" => content.string?.map .str
      | "List" => match room with
        | inner + 1 => (content.items? (Constant.ofJson? inner)).map .list
        | 0 => none
      | "Tuple" => match room with
        | inner + 1 => (content.items? (Constant.ofJson? inner)).map .tuple
        | 0 => none
      | "Range" => match room with
        | _ + 1 => (Range.ofJson? content).map .range
        | 0 => none
      | "Builtin" => (content.choice? (0 < room) Builtin.ofName?).map .builtin
      | "ExcType" => (content.choice? (0 < room) ExceptionKind.ofName?).map .exceptionKind
      | "Code" => match room with
        | inner + 2 => (Code.ofJson? (Constant.ofJson? inner) content).map .code
        | _ => none
      | _ => none
  | _, _ => none

/-- Levels that a document may nest. -/
def Json.levels : Nat := 127

/-- The code object that a document holds. -/
def Code.ofDocument? (document : Json) : Option (Code Constant) :=
  Code.ofJson? (Constant.ofJson? (Json.levels - 2)) document

/-- The code object that a text holds. -/
def Code.ofText? (text : String) : Option (Code Constant) :=
  (Json.parse? text).bind Code.ofDocument?

end BlockVM
