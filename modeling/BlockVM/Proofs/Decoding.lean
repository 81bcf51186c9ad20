import BlockVM.Code.Assembler

namespace BlockVM

/-! Bytes and the instructions they spell. What an instruction decodes to depends on its own bytes and on
the entries of the tables, so it survives more bytes behind it, more entries in the tables, and a number
written into another instruction. -/

namespace Code

variable {α : Type}

theorem getElem?_append_list (bytes : Array UInt8) (more : List UInt8) (position : Nat) :
    (bytes ++ more)[position]? = (bytes.toList ++ more)[position]? := by
  rw [← Array.getElem?_toList, Array.toList_appendList]

theorem littleEndian_bytes (arg : UInt16) :
    littleEndian (Assembly.lowByte arg) (Assembly.highByte arg) = arg := by
  have bound := arg.toNat_lt
  apply UInt16.toNat_inj.mp
  simp only [littleEndian, Assembly.lowByte, Assembly.highByte, UInt16.toNat_add, UInt16.toNat_mul,
    UInt8.toNat_toUInt16, UInt8.toNat_ofNat', UInt16.reduceToNat]
  omega

/-- The bytes from `offset` on are those of an instruction, and the tables resolve its number. -/
inductive Spells (code : Code α) (offset : Nat) : Instruction α → Prop where
  | bare {opcode : Opcode} (plain : opcode.hasOperand = false)
      (first : code.instructions[offset]? = some opcode.toByte) :
      Spells code offset { opcode, offset, arg := none, operand := .none, next := offset + 1 }
  | wide {opcode : Opcode} {arg : UInt16} {operand : Operand α} (takes : opcode.hasOperand = true)
      (first : code.instructions[offset]? = some opcode.toByte)
      (low : code.instructions[offset + 1]? = some (Assembly.lowByte arg))
      (high : code.instructions[offset + 2]? = some (Assembly.highByte arg))
      (resolved : code.resolve opcode.operandClass (offset + 3) arg.toNat = .ok operand) :
      Spells code offset { opcode, offset, arg := some arg, operand, next := offset + 3 }

section

variable {code : Code α} {offset : Nat} {instruction : Instruction α}

theorem Spells.decodeAt (spells : code.Spells offset instruction) : code.decodeAt offset = .ok instruction := by
  cases spells with
  | bare plain first => simp [Code.decodeAt, first, Opcode.ofByte?_toByte, plain]
  | wide takes first low high resolved =>
      simp [Code.decodeAt, first, low, high, Opcode.ofByte?_toByte, takes, littleEndian_bytes, resolved, Except.map]

theorem Spells.bounds (spells : code.Spells offset instruction) :
    instruction.offset = offset ∧ offset < instruction.next ∧ instruction.next ≤ code.instructions.size := by
  cases spells with
  | bare plain first =>
      have inside := (Array.getElem?_eq_some_iff.mp first).1
      exact ⟨rfl, Nat.lt_succ_self offset, inside⟩
  | wide takes first low high resolved =>
      have inside := (Array.getElem?_eq_some_iff.mp high).1
      exact ⟨rfl, Nat.lt_add_of_pos_right (by decide), inside⟩

theorem Spells.next_of_takes (spells : code.Spells offset instruction)
    (takes : instruction.opcode.hasOperand = true) : instruction.next = offset + 3 := by
  cases spells with
  | bare plain first => rw [plain] at takes; cases takes
  | wide _ first low high resolved => rfl

end

/-- Every byte and every entry of a table keeps its place. -/
structure Extends (before after : Code α) : Prop where
  instructions : ∀ {position : Nat} {byte : UInt8}, before.instructions[position]? = some byte →
    after.instructions[position]? = some byte
  constants : before.constants <+: after.constants
  names : before.names <+: after.names
  localSlots : before.localSlots <+: after.localSlots

section

variable {before after : Code α} {offset : Nat}

theorem lookup_eq_ok_iff {β : Type} {table : Table} {entries : List β} {index : Nat} {entry : β} :
    before.lookup table entries index = .ok entry ↔ entries[index]? = some entry := by
  unfold lookup
  split <;> simp_all

theorem lookup_of_grown {β : Type} {table : Table} {entries more : List β} {index : Nat} {entry : β}
    (grown : entries <+: more) (found : before.lookup table entries index = .ok entry) :
    after.lookup table more index = .ok entry := by
  rw [lookup_eq_ok_iff] at found ⊢
  obtain ⟨rest, rfl⟩ := grown
  have inside : index < entries.length := (List.getElem?_eq_some_iff.mp found).1
  rw [List.getElem?_append_left inside, found]

theorem Extends.resolve {operandClass : OperandClass} {next index : Nat} {operand : Operand α}
    (extends_ : before.Extends after) (resolved : before.resolve operandClass next index = .ok operand) :
    after.resolve operandClass next index = .ok operand := by
  have mapped {β : Type} {table : Table} {entries more : List β} {wrap : β → Operand α}
      (grown : entries <+: more) (resolved : (before.lookup table entries index).map wrap = .ok operand) :
      (after.lookup table more index).map wrap = .ok operand := by
    cases found : before.lookup table entries index with
    | error fault => rw [found] at resolved; cases resolved
    | ok entry => rw [lookup_of_grown grown found, ← found, resolved]
  cases operandClass with
  | const => exact mapped extends_.constants resolved
  | name => exact mapped extends_.names resolved
  | slot => exact mapped extends_.localSlots resolved
  | none | jumpRelative | jumpAbsolute | int => exact resolved

theorem Spells.extend {instruction : Instruction α} (spells : before.Spells offset instruction)
    (extends_ : before.Extends after) : after.Spells offset instruction := by
  cases spells with
  | bare plain first => exact .bare plain (extends_.instructions first)
  | wide takes first low high resolved =>
      exact .wide takes (extends_.instructions first) (extends_.instructions low) (extends_.instructions high)
        (extends_.resolve resolved)

end

/-- The code object with more bytes. -/
def withBytes (code : Code α) (bytes : List UInt8) : Code α :=
  { code with instructions := code.instructions ++ bytes }

section

variable (code : Code α)

theorem extends_withBytes (bytes : List UInt8) : code.Extends (code.withBytes bytes) where
  instructions := by
    intro position byte found
    have inside : position < code.instructions.toList.length := by
      simpa using (Array.getElem?_eq_some_iff.mp found).1
    rw [withBytes, getElem?_append_list, List.getElem?_append_left inside, Array.getElem?_toList, found]
  constants := List.prefix_rfl
  names := List.prefix_rfl
  localSlots := List.prefix_rfl

theorem size_withBytes (bytes : List UInt8) :
    (code.withBytes bytes).instructions.size = code.instructions.size + bytes.length := by
  rw [withBytes, ← Array.length_toList, Array.toList_appendList, List.length_append, Array.length_toList]

theorem getElem?_withBytes (bytes : List UInt8) (position : Nat) :
    (code.withBytes bytes).instructions[code.instructions.size + position]? = bytes[position]? := by
  rw [withBytes, getElem?_append_list, List.getElem?_append_right (by simp)]
  simp

theorem spells_withByte {opcode : Opcode} (plain : opcode.hasOperand = false) :
    (code.withBytes [opcode.toByte]).Spells code.instructions.size
      { opcode, offset := code.instructions.size, arg := none, operand := .none
        next := (code.withBytes [opcode.toByte]).instructions.size } := by
  rw [size_withBytes]
  exact .bare plain (code.getElem?_withBytes _ 0)

theorem spells_withBytes {opcode : Opcode} {arg : UInt16} {operand : Operand α} (takes : opcode.hasOperand = true)
    (resolved : code.resolve opcode.operandClass (code.instructions.size + 3) arg.toNat = .ok operand) :
    (code.withBytes [opcode.toByte, Assembly.lowByte arg, Assembly.highByte arg]).Spells code.instructions.size
      { opcode, offset := code.instructions.size, arg := some arg, operand
        next := (code.withBytes [opcode.toByte, Assembly.lowByte arg, Assembly.highByte arg]).instructions.size } := by
  rw [size_withBytes]
  exact .wide takes (code.getElem?_withBytes _ 0) (code.getElem?_withBytes _ 1) (code.getElem?_withBytes _ 2)
    resolved

end

/-- The code object with another number in the instruction at `place`. -/
def withNumber (code : Code α) (place : Nat) (arg : UInt16) : Code α :=
  { code with
    instructions := (code.instructions.setIfInBounds (place + 1) (Assembly.lowByte arg)).setIfInBounds
      (place + 2) (Assembly.highByte arg) }

section

variable {code : Code α} {offset place : Nat} {arg : UInt16}

theorem getElem?_withNumber {position : Nat} (low : position ≠ place + 1) (high : position ≠ place + 2) :
    (code.withNumber place arg).instructions[position]? = code.instructions[position]? := by
  rw [withNumber, Array.getElem?_setIfInBounds_ne high.symm, Array.getElem?_setIfInBounds_ne low.symm]

theorem size_withNumber : (code.withNumber place arg).instructions.size = code.instructions.size := by
  rw [withNumber, Array.size_setIfInBounds, Array.size_setIfInBounds]

theorem Spells.other {instruction : Instruction α} (spells : code.Spells offset instruction)
    (apart : instruction.next ≤ place ∨ place + 3 ≤ offset) :
    (code.withNumber place arg).Spells offset instruction := by
  cases spells with
  | bare plain first =>
      dsimp only at apart
      exact .bare plain (by rw [getElem?_withNumber (by omega) (by omega), first])
  | wide takes first low high resolved =>
      dsimp only at apart
      refine .wide takes ?_ ?_ ?_ resolved
      · rw [getElem?_withNumber (by omega) (by omega), first]
      · rw [getElem?_withNumber (by omega) (by omega), low]
      · rw [getElem?_withNumber (by omega) (by omega), high]

theorem Spells.own {instruction : Instruction α} {operand : Operand α} (spells : code.Spells place instruction)
    (takes : instruction.opcode.hasOperand = true)
    (resolved : code.resolve instruction.opcode.operandClass (place + 3) arg.toNat = .ok operand) :
    (code.withNumber place arg).Spells place { instruction with arg := some arg, operand } := by
  cases spells with
  | bare plain first => rw [plain] at takes; cases takes
  | wide _ first low high _ =>
      have lowInside := (Array.getElem?_eq_some_iff.mp low).1
      have highInside := (Array.getElem?_eq_some_iff.mp high).1
      refine .wide takes ?_ ?_ ?_ resolved
      · rw [getElem?_withNumber (by omega) (by omega), first]
      · rw [withNumber, Array.getElem?_setIfInBounds_ne (by omega),
          Array.getElem?_setIfInBounds_self_of_lt lowInside]
      · exact Array.getElem?_setIfInBounds_self_of_lt (by rw [Array.size_setIfInBounds]; exact highInside)

end

/-- From `offset` the code object spells instructions one after the other, up to `stop`. -/
inductive Reads (code : Code α) : Nat → List (Instruction α) → Nat → Prop where
  | nil (offset : Nat) : Reads code offset [] offset
  | cons {offset stop : Nat} {instruction : Instruction α} {rest : List (Instruction α)}
      (spells : code.Spells offset instruction) (reads : Reads code instruction.next rest stop) :
      Reads code offset (instruction :: rest) stop

namespace Reads

variable {code after : Code α} {offset stop : Nat} {instructions : List (Instruction α)}

theorem extend (reads : code.Reads offset instructions stop) (extends_ : code.Extends after) :
    after.Reads offset instructions stop := by
  induction reads with
  | nil offset => exact .nil offset
  | cons spells _ ih => exact .cons (spells.extend extends_) ih

theorem snoc {instruction : Instruction α} (reads : code.Reads offset instructions stop)
    (spells : code.Spells stop instruction) :
    code.Reads offset (instructions ++ [instruction]) instruction.next := by
  induction reads with
  | nil offset => exact .cons spells (.nil _)
  | cons first _ ih => exact .cons first (ih spells)

theorem spells_of_mem {instruction : Instruction α} (reads : code.Reads offset instructions stop)
    (member : instruction ∈ instructions) :
    offset ≤ instruction.offset ∧ code.Spells instruction.offset instruction := by
  induction reads with
  | nil offset => cases member
  | cons spells _ ih =>
      obtain ⟨start, forward, _⟩ := spells.bounds
      rcases List.mem_cons.mp member with rfl | member
      · exact ⟨Nat.le_of_eq start.symm, start ▸ spells⟩
      · obtain ⟨later, spelt⟩ := ih member
        exact ⟨by omega, spelt⟩

theorem offsets_ascend (reads : code.Reads offset instructions stop) :
    (instructions.map Instruction.offset).Pairwise (· < ·) := by
  induction reads with
  | nil offset => exact .nil
  | cons spells reads ih =>
      obtain ⟨start, forward, _⟩ := spells.bounds
      refine .cons (fun later member => ?_) ih
      obtain ⟨instruction, found, rfl⟩ := List.mem_map.mp member
      have behind := (reads.spells_of_mem found).1
      omega

theorem nextD_eq (reads : code.Reads offset instructions stop) :
    (instructions.map Instruction.next).getLastD offset = stop := by
  induction reads with
  | nil offset => rfl
  | cons _ _ ih => rw [List.map_cons, List.getLastD_cons, ih]

theorem decodeFrom (reads : code.Reads offset instructions stop) (whole : stop = code.instructions.size) :
    code.decodeFrom offset = instructions.map .ok := by
  induction reads with
  | nil offset =>
      rw [Code.decodeFrom, if_neg (by omega)]
      rfl
  | @cons offset stop instruction rest spells reads ih =>
      obtain ⟨_, forward, inside⟩ := spells.bounds
      rw [Code.decodeFrom, if_pos (by omega)]
      split
      · rename_i fault failed
        rw [spells.decodeAt] at failed
        cases failed
      · rename_i decodedInstruction decoded
        rw [spells.decodeAt] at decoded
        cases decoded
        rw [ih whole, List.map_cons]

/-- Writing another number into one of the instructions changes that instruction alone. -/
theorem withNumber {place : Nat} {arg : UInt16} {change : Instruction α → Instruction α}
    (reads : code.Reads offset instructions stop)
    (reached : place + 3 ≤ offset ∨ ∃ instruction ∈ instructions, instruction.offset = place)
    (others : ∀ instruction ∈ instructions, instruction.offset ≠ place → change instruction = instruction)
    (follows : ∀ instruction ∈ instructions, instruction.offset = place → instruction.next = place + 3 ∧
      (change instruction).next = instruction.next ∧ (code.withNumber place arg).Spells place (change instruction)) :
    (code.withNumber place arg).Reads offset (instructions.map change) stop := by
  induction reads with
  | nil offset => exact .nil offset
  | @cons offset stop instruction rest spells reads ih =>
      obtain ⟨start, forward, _⟩ := spells.bounds
      have continues (reached : place + 3 ≤ instruction.next ∨ ∃ later ∈ rest, later.offset = place) :=
        ih reached (fun later member => others later (List.mem_cons_of_mem _ member))
          fun later member => follows later (List.mem_cons_of_mem _ member)
      by_cases own : instruction.offset = place
      · obtain ⟨width, same, spelt⟩ := follows instruction List.mem_cons_self own
        have rewritten : (code.withNumber place arg).Spells offset (change instruction) := by
          rw [← start, own]
          exact spelt
        exact .cons rewritten (same ▸ continues (.inl (Nat.le_of_eq width.symm)))
      · rw [List.map_cons, others instruction List.mem_cons_self own]
        rcases reached with passed | ⟨target, member, at_⟩
        · exact .cons (spells.other (.inr passed)) (continues (.inl (by omega)))
        · -- The instruction at `place` comes later, hence behind this one.
          rcases List.mem_cons.mp member with rfl | member
          · exact absurd at_ own
          · have behind := (reads.spells_of_mem member).1
            exact .cons (spells.other (.inl (by omega))) (continues (.inr ⟨target, member, at_⟩))

end Reads

end Code

end BlockVM
