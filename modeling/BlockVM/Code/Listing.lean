import BlockVM.Text.Basic
import BlockVM.Value.Repr

namespace BlockVM

/-- An operand as it is shown, with a constant shown by `repr`. -/
def Operand.render {α : Type} (repr : α → String) : Operand α → String
  | .none => ""
  | .const value => repr value
  | .name text => text
  | .slot text => text
  | .jump target => s!"to {target}"
  | .int number => toString number

/-- Whether the operand says more than the number itself. -/
def Operand.isResolved {α : Type} : Operand α → Bool
  | .none | .int _ => false
  | _ => true

namespace Code

variable {α : Type}

def instructionLine (repr : α → String) (instruction : Instruction α) : String :=
  let start := Text.alignRight 6 (toString instruction.offset) ++ " " ++
    Text.alignLeft 22 instruction.opcode.mnemonic
  match instruction.arg with
  | none => start ++ "\n"
  | some arg =>
      let resolved :=
        if instruction.operand.isResolved then " (" ++ instruction.operand.render repr ++ ")" else ""
      start ++ " " ++ Text.alignRight 5 (toString arg.toNat) ++ resolved ++ "\n"

/-- The text of an exception with the class and message of a fault. -/
def faultText (fault : Fault) : String :=
  fault.kind.name ++ ": " ++ fault.message

/-- Lines for the instructions from `offset` on; the first that cannot be decoded ends them. -/
def linesFrom (repr : α → String) (code : Code α) (offset : Nat) : String :=
  if offset < code.instructions.size then
    match decoded : code.decodeAt offset with
    | .error fault =>
        Text.alignRight 6 (toString offset) ++ " <" ++ faultText fault ++ ">\n"
    | .ok instruction =>
        have := lt_next decoded
        instructionLine repr instruction ++ linesFrom repr code instruction.next
  else ""
termination_by code.instructions.size - offset

end Code

mutual

/-- The listing of a code object and then those of the code objects among its constants. -/
def Constant.codeListing : Code Constant → String
  | ⟨name, instructions, constants, names, localSlots, argCount⟩ =>
      Code.linesFrom Constant.repr ⟨name, instructions, constants, names, localSlots, argCount⟩ 0 ++
        Constant.nestedListings constants

def Constant.nestedListings : List Constant → String
  | [] => ""
  | constant :: constants => constant.listing ++ Constant.nestedListings constants

/-- The listing of a constant that is a code object; others have none. -/
def Constant.listing : Constant → String
  | .code unit =>
      "\nDisassembly of <code object " ++ unit.name ++ ">:\n" ++ Constant.codeListing unit
  | _ => ""

end

def Code.listing (code : Code Constant) : String :=
  Constant.codeListing code

end BlockVM
