import BlockVM.Code.Basic

namespace BlockVM

/-! Assembling code objects: instructions are appended, tables grow as names and constants are
mentioned, and the target of a forward jump is filled in once it is known. That an opcode goes with its operand is
only asserted. The build described here is the one with debug assertions, in which a failed assertion is a refusal;
a release build would write such an instruction as it is asked to. -/

/-- A jump whose target is still open. -/
structure JumpLabel where
  offset : Nat
  opcode : Opcode
deriving Repr, DecidableEq

/-- Why a step of the assembly is refused. -/
inductive AssemblyError where
  /-- A parameter after another local variable. -/
  | lateParameter
  /-- A table or an operand beyond sixteen bits. -/
  | tooLarge
  /-- An opcode that does not go with the kind of operand. -/
  | operandClass (opcode : Opcode)
  /-- A relative jump to an earlier instruction. -/
  | backwardJump (opcode : Opcode)
  /-- A label beyond the end of the code. -/
  | strayLabel (label : JumpLabel)
deriving Repr, DecidableEq

/-- Steps of an assembly. A refused step still leaves the code object as it stands then. -/
abbrev Assembly (α : Type) := EStateM AssemblyError (Code α)

namespace Assembly

variable {α : Type}

/-- The code object an assembly starts from. -/
def start (name : String) : Code α :=
  { name, instructions := #[], constants := [], names := [], localSlots := [], argCount := 0 }

/-- The number of entries that sixteen bits can index. -/
def tableLimit : Nat := 65536

def index (position : Nat) : Assembly α UInt16 :=
  if position < tableLimit then pure (UInt16.ofNat position) else throw .tooLarge

def offset : Assembly α Nat :=
  return (← get).instructions.size

/-- Appends to the local slots. -/
def pushSlot (name : String) : Assembly α UInt16 := do
  let slot ← index (← get).localSlots.length
  modify fun code => { code with localSlots := code.localSlots ++ [name] }
  return slot

/-- Declares the next parameter. It is counted before its slot is made. -/
def addParam (name : String) : Assembly α UInt16 := do
  let code ← get
  if code.localSlots.length ≠ code.argCount then throw .lateParameter
  set { code with argCount := code.argCount + 1 }
  pushSlot name

/-- Appends a constant; equal constants keep places of their own. -/
def addConst (value : α) : Assembly α UInt16 := do
  let position ← index (← get).constants.length
  modify fun code => { code with constants := code.constants ++ [value] }
  return position

/-- The place of a name, which is new only if the table lacks it. -/
def addName (name : String) : Assembly α UInt16 := do
  let code ← get
  match code.names.idxOf? name with
  | some position => index position
  | none =>
      let position ← index code.names.length
      set { code with names := code.names ++ [name] }
      return position

/-- The slot of a local variable, which is new only if the table lacks it. -/
def addLocal (name : String) : Assembly α UInt16 := do
  match (← get).localSlots.idxOf? name with
  | some position => index position
  | none => pushSlot name

def append (bytes : List UInt8) : Assembly α Unit :=
  modify fun code => { code with instructions := code.instructions ++ bytes }

def lowByte (arg : UInt16) : UInt8 := UInt8.ofNat (arg.toNat % 256)

def highByte (arg : UInt16) : UInt8 := UInt8.ofNat (arg.toNat / 256)

/-- An instruction without operand. -/
def emit (opcode : Opcode) : Assembly α Unit := do
  if opcode.hasOperand then throw (.operandClass opcode)
  append [opcode.toByte]

/-- An instruction with a number for operand. -/
def emitArg (opcode : Opcode) (arg : UInt16) : Assembly α Unit := do
  if !opcode.hasOperand then throw (.operandClass opcode)
  append [opcode.toByte, lowByte arg, highByte arg]

/-- Loads a new constant. -/
def loadConst (value : α) : Assembly α Unit := do
  emitArg .loadConst (← addConst value)

def emitName (opcode : Opcode) (name : String) : Assembly α Unit := do
  if opcode.operandClass ≠ .name then throw (.operandClass opcode)
  emitArg opcode (← addName name)

def emitLocal (opcode : Opcode) (name : String) : Assembly α Unit := do
  if opcode.operandClass ≠ .slot then throw (.operandClass opcode)
  emitArg opcode (← addLocal name)

/-- A jump whose operand is zero until its label is placed. -/
def emitJump (opcode : Opcode) : Assembly α JumpLabel := do
  if !opcode.operandClass.isJump then throw (.operandClass opcode)
  let label := { offset := ← offset, opcode }
  emitArg opcode 0
  return label

/-- The operand of a jump at `position` that leads to `target`. -/
def jumpOperand (opcode : Opcode) (position target : Nat) : Assembly α UInt16 :=
  match opcode.operandClass with
  | .jumpRelative =>
      if position + 3 ≤ target then index (target - (position + 3)) else throw (.backwardJump opcode)
  | .jumpAbsolute => index target
  | _ => throw (.operandClass opcode)

/-- Places a label at the current offset. -/
def patchJump (label : JumpLabel) : Assembly α Unit := do
  let target ← offset
  let arg ← jumpOperand label.opcode label.offset target
  if target < label.offset + 3 then throw (.strayLabel label)
  modify fun code =>
    { code with
      instructions := (code.instructions.setIfInBounds (label.offset + 1) (lowByte arg)).setIfInBounds
        (label.offset + 2) (highByte arg) }

/-- A jump to a known offset. -/
def emitJumpTo (opcode : Opcode) (target : Nat) : Assembly α Unit := do
  emitArg opcode (← jumpOperand opcode (← offset) target)

end Assembly

end BlockVM
