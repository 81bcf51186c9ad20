import BlockVM.Proofs.Decoding

namespace BlockVM

/-! Decoding loses nothing. An instruction keeps all that its bytes say, so the bytes can be written down again from
the instructions, and what cannot be decoded is just what is malformed. -/

theorem Opcode.toNat_of_ofNat? {n : Nat} {opcode : Opcode} (known : ofNat? n = some opcode) : opcode.toNat = n := by
  unfold ofNat? at known
  split at known <;> cases known <;> rfl

theorem Opcode.toByte_of_ofByte? {byte : UInt8} {opcode : Opcode} (known : ofByte? byte = some opcode) :
    opcode.toByte = byte := by
  rw [toByte, toNat_of_ofNat? known, UInt8.ofNat_toNat]

namespace Code

variable {α : Type} {code : Code α} {offset stop : Nat} {instruction : Instruction α}
  {instructions : List (Instruction α)}

theorem toNat_littleEndian (low high : UInt8) : (littleEndian low high).toNat = low.toNat + 256 * high.toNat := by
  have first := low.toNat_lt
  have second := high.toNat_lt
  simp only [littleEndian, UInt16.toNat_add, UInt16.toNat_mul, UInt8.toNat_toUInt16, UInt16.reduceToNat]
  omega

theorem lowByte_littleEndian (low high : UInt8) : Assembly.lowByte (littleEndian low high) = low := by
  have bound := low.toNat_lt
  apply UInt8.toNat_inj.mp
  simp only [Assembly.lowByte, toNat_littleEndian, UInt8.toNat_ofNat']
  omega

theorem highByte_littleEndian (low high : UInt8) : Assembly.highByte (littleEndian low high) = high := by
  have first := low.toNat_lt
  have second := high.toNat_lt
  apply UInt8.toNat_inj.mp
  simp only [Assembly.highByte, toNat_littleEndian, UInt8.toNat_ofNat']
  omega

/-- An instruction is decoded only where it is spelt. -/
theorem spells_of_decodeAt (decoded : code.decodeAt offset = .ok instruction) : code.Spells offset instruction := by
  unfold decodeAt at decoded
  split at decoded
  · cases decoded
  rename_i byte found
  split at decoded
  · cases decoded
  rename_i opcode known
  have first : code.instructions[offset]? = some opcode.toByte := by rw [found, Opcode.toByte_of_ofByte? known]
  split at decoded
  · rename_i takes
    split at decoded
    · rename_i low high lower upper
      dsimp only at decoded
      cases resolved : code.resolve opcode.operandClass (offset + 3) (littleEndian low high).toNat with
      | error fault =>
          rw [resolved] at decoded
          cases decoded
      | ok operand =>
          rw [resolved] at decoded
          cases decoded
          exact .wide takes first (by rw [lower, lowByte_littleEndian]) (by rw [upper, highByte_littleEndian]) resolved
    · cases decoded
  · rename_i bare
    cases decoded
    exact .bare (Bool.eq_false_iff.mpr bare) first

theorem decodeAt_eq_ok_iff : code.decodeAt offset = .ok instruction ↔ code.Spells offset instruction :=
  ⟨spells_of_decodeAt, Spells.decodeAt⟩

/-- The number lies within the table that it indexes; a number that indexes none is not bounded. -/
def Indexes (code : Code α) : OperandClass → Nat → Prop
  | .const, index => index < code.constants.length
  | .name, index => index < code.names.length
  | .slot, index => index < code.localSlots.length
  | _, _ => True

/-- There is the byte of an opcode, and if that has an operand, two more bytes with a number that can be looked up. -/
def WellFormedAt (code : Code α) (offset : Nat) : Prop :=
  ∃ byte opcode, code.instructions[offset]? = some byte ∧ Opcode.ofByte? byte = some opcode ∧
    (90 ≤ byte.toNat → ∃ low high, code.instructions[offset + 1]? = some low ∧
      code.instructions[offset + 2]? = some high ∧ code.Indexes opcode.operandClass (low.toNat + 256 * high.toNat))

theorem exists_lookup_iff {β : Type} {table : Table} {entries : List β} {index : Nat} {wrap : β → Operand α} :
    (∃ operand, (code.lookup table entries index).map wrap = .ok operand) ↔ index < entries.length := by
  unfold lookup
  rcases Nat.lt_or_ge index entries.length with inside | outside
  · rw [List.getElem?_eq_getElem inside]
    exact iff_of_true ⟨_, rfl⟩ inside
  · rw [List.getElem?_eq_none outside]
    refine iff_of_false ?_ (Nat.not_lt.mpr outside)
    rintro ⟨operand, found⟩
    cases found

theorem exists_resolve_iff {operandClass : OperandClass} {next index : Nat} :
    (∃ operand, code.resolve operandClass next index = .ok operand) ↔ code.Indexes operandClass index := by
  cases operandClass with
  | const | name | slot => exact exists_lookup_iff
  | none | jumpRelative | jumpAbsolute | int => exact iff_of_true ⟨_, rfl⟩ trivial

theorem hasOperand_toByte (opcode : Opcode) : opcode.hasOperand = true ↔ 90 ≤ opcode.toByte.toNat := by
  rw [Opcode.hasOperand, decide_eq_true_iff, Opcode.firstWithOperand, Opcode.toByte, UInt8.toNat_ofNat',
    Nat.mod_eq_of_lt opcode.toNat_lt]

/-- Decoding fails just where the bytes are malformed. -/
theorem exists_decodeAt_iff : (∃ instruction, code.decodeAt offset = .ok instruction) ↔ code.WellFormedAt offset := by
  simp only [decodeAt_eq_ok_iff]
  constructor
  · rintro ⟨instruction, spells⟩
    cases spells with
    | @bare opcode plain first =>
        refine ⟨_, opcode, first, Opcode.ofByte?_toByte opcode, fun takes => ?_⟩
        rw [(hasOperand_toByte opcode).mpr takes] at plain
        cases plain
    | @wide opcode arg operand takes first low high resolved =>
        refine ⟨_, opcode, first, Opcode.ofByte?_toByte opcode, fun _ => ⟨_, _, low, high, ?_⟩⟩
        rw [← toNat_littleEndian, littleEndian_bytes]
        exact exists_resolve_iff.mp ⟨operand, resolved⟩
  · rintro ⟨byte, opcode, first, known, wide⟩
    obtain rfl := Opcode.toByte_of_ofByte? known
    cases takes : opcode.hasOperand with
    | false => exact ⟨_, .bare takes first⟩
    | true =>
        obtain ⟨low, high, lower, upper, within⟩ := wide ((hasOperand_toByte opcode).mp takes)
        rw [← toNat_littleEndian] at within
        obtain ⟨operand, resolved⟩ := exists_resolve_iff.mpr within
        exact ⟨_, .wide takes first (by rw [lower, lowByte_littleEndian]) (by rw [upper, highByte_littleEndian]) resolved⟩

end Code

/-- The opcode and the number of an instruction. -/
def Instruction.raw {α : Type} (instruction : Instruction α) : Opcode × Option UInt16 :=
  (instruction.opcode, instruction.arg)

namespace Assembly

variable {α : Type}

/-- Writes down an opcode with its number, if there is one. -/
def write (opcode : Opcode) : Option UInt16 → Assembly α Unit
  | none => emit opcode
  | some arg => emitArg opcode arg

/-- Writes down one instruction after the other. -/
def writeAll : List (Opcode × Option UInt16) → Assembly α Unit
  | [] => pure ()
  | entry :: rest => do
      write entry.1 entry.2
      writeAll rest

/-- The bytes of an opcode and its number. -/
def spelling (entry : Opcode × Option UInt16) : List UInt8 :=
  entry.1.toByte :: entry.2.elim [] fun arg => [lowByte arg, highByte arg]

theorem emit_eq {opcode : Opcode} (plain : opcode.hasOperand = false) (before : Code α) :
    emit opcode before = .ok () (before.withBytes [opcode.toByte]) := by
  rw [emit, if_neg (by rw [plain]; exact Bool.false_ne_true)]
  rfl

theorem emitArg_eq {opcode : Opcode} (takes : opcode.hasOperand = true) (arg : UInt16) (before : Code α) :
    emitArg opcode arg before = .ok () (before.withBytes [opcode.toByte, lowByte arg, highByte arg]) := by
  rw [emitArg, if_neg (by simp [takes])]
  rfl

end Assembly

namespace Code

variable {α β : Type} {code : Code α} {offset stop : Nat} {instruction : Instruction α}
  {instructions : List (Instruction α)}

theorem drop_of_getElem? {bytes : Array UInt8} {byte : UInt8} (found : bytes[offset]? = some byte) :
    bytes.toList.drop offset = byte :: bytes.toList.drop (offset + 1) := by
  rw [← Array.getElem?_toList] at found
  obtain ⟨inside, rfl⟩ := List.getElem?_eq_some_iff.mp found
  exact List.drop_eq_getElem_cons inside

theorem Spells.drop (spells : code.Spells offset instruction) :
    code.instructions.toList.drop offset =
      Assembly.spelling instruction.raw ++ code.instructions.toList.drop instruction.next := by
  cases spells with
  | bare plain first => exact drop_of_getElem? first
  | wide takes first low high resolved =>
      rw [drop_of_getElem? first, drop_of_getElem? low, drop_of_getElem? high]
      rfl

theorem Spells.write (spells : code.Spells offset instruction) (before : Code β) :
    Assembly.write instruction.opcode instruction.arg before =
      .ok () (before.withBytes (Assembly.spelling instruction.raw)) := by
  cases spells with
  | bare plain first => exact Assembly.emit_eq plain before
  | wide takes first low high resolved => exact Assembly.emitArg_eq takes _ before

theorem withBytes_withBytes (before : Code β) (bytes more : List UInt8) :
    (before.withBytes bytes).withBytes more = before.withBytes (bytes ++ more) := by
  have joined : before.instructions ++ bytes ++ more = before.instructions ++ (bytes ++ more) :=
    Array.ext' (by simp)
  rw [withBytes, withBytes, withBytes, ← joined]

theorem Reads.drop (reads : code.Reads offset instructions stop) :
    code.instructions.toList.drop offset =
      (instructions.map Instruction.raw).flatMap Assembly.spelling ++ code.instructions.toList.drop stop := by
  induction reads with
  | nil offset => rfl
  | cons spells _ ih => rw [spells.drop, ih, List.map_cons, List.flatMap_cons, List.append_assoc]

/-- Writing the instructions down adds the bytes that they were read from. -/
theorem Reads.writeAll (reads : code.Reads offset instructions stop) (before : Code β) :
    Assembly.writeAll (instructions.map Instruction.raw) before =
      .ok () (before.withBytes ((instructions.map Instruction.raw).flatMap Assembly.spelling)) := by
  induction reads generalizing before with
  | nil offset => simp [Assembly.writeAll, withBytes, pure, EStateM.pure]
  | @cons offset stop instruction rest spells _ ih =>
      change EStateM.bind (Assembly.write instruction.opcode instruction.arg) _ before = _
      rw [EStateM.bind, spells.write]
      dsimp only
      rw [ih, withBytes_withBytes]
      rfl

/-- If decoding comes to the end of the stream, all of it has been read. -/
theorem reads_of_decodeFrom (decoded : code.decodeFrom offset = instructions.map .ok)
    (within : offset ≤ code.instructions.size) : code.Reads offset instructions code.instructions.size := by
  induction instructions generalizing offset with
  | nil =>
      rw [decodeFrom] at decoded
      split at decoded
      · split at decoded <;> cases decoded
      · rename_i beyond
        obtain rfl : offset = code.instructions.size := by omega
        exact .nil _
  | cons instruction rest ih =>
      rw [decodeFrom] at decoded
      split at decoded
      · split at decoded
        · cases decoded
        · rename_i found
          obtain ⟨same, decoded⟩ := List.cons.inj decoded
          cases same
          have spells := spells_of_decodeAt found
          exact .cons spells (ih decoded spells.bounds.2.2)
      · cases decoded

theorem Reads.bytes (reads : code.Reads 0 instructions code.instructions.size) :
    (instructions.map Instruction.raw).flatMap Assembly.spelling = code.instructions.toList := by
  have whole := reads.drop
  rw [List.drop_zero, List.drop_of_length_le (by simp), List.append_nil] at whole
  exact whole.symm

/-- An instruction is decoded exactly where the bytes are well formed. If decoding comes to the end of the stream, the
opcodes and numbers that it gives, written down again, are the bytes of the stream; so no other stream gives them. -/
theorem decoding_lossless (code : Code α) :
    (∀ offset, (∃ instruction, code.decodeAt offset = .ok instruction) ↔ code.WellFormedAt offset) ∧
    ∀ instructions : List (Instruction α), code.decodeFrom 0 = instructions.map .ok →
      (∀ name, Assembly.writeAll (instructions.map Instruction.raw) (Assembly.start name : Code α) =
        .ok () { (Assembly.start name : Code α) with instructions := code.instructions }) ∧
      ∀ (other : Code α) (others : List (Instruction α)), other.decodeFrom 0 = others.map .ok →
        others.map Instruction.raw = instructions.map Instruction.raw → other.instructions = code.instructions := by
  refine ⟨fun offset => exists_decodeAt_iff, fun instructions decoded => ⟨fun name => ?_, ?_⟩⟩
  · have reads := reads_of_decodeFrom decoded (Nat.zero_le _)
    rw [reads.writeAll, reads.bytes, withBytes]
    have empty : (Assembly.start name : Code α).instructions ++ code.instructions.toList = code.instructions :=
      Array.ext' (by simp [Assembly.start])
    rw [empty]
  · intro other others again same
    have first := (reads_of_decodeFrom decoded (Nat.zero_le _)).bytes
    have second := (reads_of_decodeFrom again (Nat.zero_le _)).bytes
    rw [same, first] at second
    exact Array.toList_inj.mp second.symm

/-- A jump whose number takes both bytes, between two other instructions. -/
def farJump : Code Unit :=
  ⟨"far", #[100, 0, 0, 113, 1, 2, 83], [()], [], [], 0⟩

/-- The bytes of the three instructions are written down again. -/
theorem decoding_lossless_farJump :
    farJump.decodeFrom 0 = [⟨.loadConst, 0, some 0, .const (), 3⟩, ⟨.jumpAbsolute, 3, some 513, .jump 513, 6⟩,
      ⟨.returnValue, 6, none, .none, 7⟩].map .ok ∧
    Assembly.writeAll [(.loadConst, some 0), (.jumpAbsolute, some 513), (.returnValue, none)]
      (Assembly.start "again" : Code Unit) = .ok () ⟨"again", #[100, 0, 0, 113, 1, 2, 83], [], [], [], 0⟩ := by
  have decoded : farJump.decodeFrom 0 = [⟨.loadConst, 0, some 0, .const (), 3⟩,
      ⟨.jumpAbsolute, 3, some 513, .jump 513, 6⟩, ⟨.returnValue, 6, none, .none, 7⟩].map .ok := by
    have load : farJump.Spells 0 ⟨.loadConst, 0, some 0, .const (), 3⟩ := .wide rfl rfl rfl rfl rfl
    have jump : farJump.Spells 3 ⟨.jumpAbsolute, 3, some 513, .jump 513, 6⟩ := .wide rfl rfl rfl rfl rfl
    have last : farJump.Spells 6 ⟨.returnValue, 6, none, .none, 7⟩ := .bare rfl rfl
    exact Reads.decodeFrom (.cons load (.cons jump (.cons last (.nil 7)))) rfl
  exact ⟨decoded, ((decoding_lossless farJump).2 _ decoded).1 "again"⟩

end Code

end BlockVM
