import BlockVM.Fault

namespace BlockVM

/-- A unit of code over constants of type `α`: the instruction stream and the tables that its
operands index. Nothing is checked before an instruction is decoded. -/
structure Code (α : Type) where
  name : String
  instructions : Array UInt8
  constants : List α
  names : List String
  /-- Names of local variables; the first `argCount` are the parameters. -/
  localSlots : List String
  argCount : Nat
deriving Inhabited

/-- An operand, resolved against the tables. -/
inductive Operand (α : Type) where
  | none
  | const (value : α)
  | name (name : String)
  | slot (name : String)
  /-- The offset a jump leads to. -/
  | jump (target : Nat)
  | int (number : Nat)
deriving Inhabited

structure Instruction (α : Type) where
  opcode : Opcode
  /-- Where the opcode stands. -/
  offset : Nat
  /-- The number that follows the opcode. -/
  arg : Option UInt16
  operand : Operand α
  /-- Where the following instruction starts. -/
  next : Nat
deriving Inhabited

namespace Code

variable {α : Type}

/-- The names of the parameters. -/
def params (code : Code α) : Except Fault (List String) :=
  if code.argCount ≤ code.localSlots.length then .ok (code.localSlots.take code.argCount)
  else .error (.missingSlots code.name code.argCount code.localSlots.length)

/-- The entry of one of the tables. -/
def lookup {β : Type} (code : Code α) (table : Table) (entries : List β) (index : Nat) :
    Except Fault β :=
  match entries[index]? with
  | some entry => .ok entry
  | none => .error (.outsideTable table index code.name entries.length)

/-- Resolves the number `index` of an instruction that is followed by offset `next`. -/
def resolve (code : Code α) (operandClass : OperandClass) (next index : Nat) :
    Except Fault (Operand α) :=
  match operandClass with
  | .none => .ok .none
  | .const => (code.lookup .constants code.constants index).map .const
  | .name => (code.lookup .names code.names index).map .name
  | .slot => (code.lookup .slots code.localSlots index).map .slot
  | .jumpRelative => .ok (.jump (next + index))
  | .jumpAbsolute => .ok (.jump index)
  | .int => .ok (.int index)

/-- The number in two bytes, low byte first. -/
def littleEndian (low high : UInt8) : UInt16 :=
  low.toUInt16 + high.toUInt16 * 256

/-- The instruction at `offset`. -/
def decodeAt (code : Code α) (offset : Nat) : Except Fault (Instruction α) :=
  match code.instructions[offset]? with
  | none => .error (.pastEnd offset code.name)
  | some byte =>
      match Opcode.ofByte? byte with
      | none => .error (.unknownOpcode byte offset)
      | some opcode =>
          if opcode.hasOperand then
            match code.instructions[offset + 1]?, code.instructions[offset + 2]? with
            | some low, some high =>
                let arg := littleEndian low high
                (code.resolve opcode.operandClass (offset + 3) arg.toNat).map fun operand =>
                  { opcode, offset, arg := some arg, operand, next := offset + 3 }
            | _, _ => .error (.truncatedOperand opcode offset code.name)
          else .ok { opcode, offset, arg := none, operand := .none, next := offset + 1 }

theorem lt_next {code : Code α} {offset : Nat} {instruction : Instruction α}
    (decoded : code.decodeAt offset = .ok instruction) :
    offset < code.instructions.size ∧ offset < instruction.next := by
  unfold decodeAt at decoded
  split at decoded
  · contradiction
  · rename_i byte found
    have inside : offset < code.instructions.size := (Array.getElem?_eq_some_iff.mp found).1
    refine ⟨inside, ?_⟩
    split at decoded
    · contradiction
    · split at decoded
      · split at decoded
        · rw [Except.map.eq_def] at decoded
          split at decoded
          · contradiction
          · cases decoded
            exact Nat.lt_add_of_pos_right (by decide)
        · contradiction
      · cases decoded
        exact Nat.lt_succ_self offset

/-- The instructions from `offset` on, one after the other, up to the end of the stream or the
first that cannot be decoded. -/
def decodeFrom (code : Code α) (offset : Nat) : List (Except Fault (Instruction α)) :=
  if offset < code.instructions.size then
    match decoded : code.decodeAt offset with
    | .error fault => [.error fault]
    | .ok instruction =>
        have := lt_next decoded
        .ok instruction :: code.decodeFrom instruction.next
  else []
termination_by code.instructions.size - offset

end Code

end BlockVM
