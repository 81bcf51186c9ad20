import BlockVM.Proofs.Decoding

namespace BlockVM

/-! What one call does to the code under assembly: it enters something into a table and answers its place,
it writes an instruction at the end, or it places a label. All that was written before stays as it is. -/

namespace Assembly

variable {α : Type}

/-- The step leaves the bytes alone, and `place` is resolved to `operand` afterwards. -/
structure Grants (before : Code α) (operandClass : OperandClass) (place : UInt16) (operand : Operand α)
    (after : Code α) : Prop where
  extended : before.Extends after
  same : after.instructions = before.instructions
  resolved : ∀ next, after.resolve operandClass next place.toNat = .ok operand

/-- The step appends one instruction. -/
structure Writes (before : Code α) (opcode : Opcode) (operand : Operand α) (after : Code α) : Prop where
  extended : before.Extends after
  spells : ∃ arg, after.Spells before.instructions.size
    { opcode, offset := before.instructions.size, arg, operand, next := after.instructions.size }

section

variable {code after : Code α} {place : UInt16} {opcode : Opcode} {name : String} {value : α}

theorem index_eq (position : Nat) (code : Code α) :
    index position code =
      if position < tableLimit then .ok (UInt16.ofNat position) code else .error .tooLarge code := by
  unfold index
  split <;> rfl

theorem index_ok {position : Nat} (run : index position code = .ok place after) :
    position = place.toNat ∧ after = code := by
  rw [index_eq] at run
  split at run
  · rename_i small
    cases run
    exact ⟨(Nat.mod_eq_of_lt small).symm, rfl⟩
  · cases run

/-- A new entry of a table, made at the end. -/
theorem appended_ok (position : Nat) (change : Code α → Code α)
    (run : (do
      let place ← index position
      modify change
      return place : Assembly α UInt16) code = .ok place after) :
    position = place.toNat ∧ after = change code := by
  change EStateM.bind (index position) _ code = _ at run
  rw [EStateM.bind, index_eq] at run
  split at run
  · rename_i made middle found
    split at found
    · rename_i small
      cases found
      cases run
      exact ⟨(Nat.mod_eq_of_lt small).symm, rfl⟩
    · cases found
  · cases run

theorem resolve_const {next index : Nat} (found : code.constants[index]? = some value) :
    code.resolve .const next index = .ok (.const value) := by
  simp only [Code.resolve, Code.lookup, found, Except.map]

theorem resolve_name {next index : Nat} (found : code.names[index]? = some name) :
    code.resolve .name next index = .ok (.name name) := by
  simp only [Code.resolve, Code.lookup, found, Except.map]

theorem resolve_slot {next index : Nat} (found : code.localSlots[index]? = some name) :
    code.resolve .slot next index = .ok (.slot name) := by
  simp only [Code.resolve, Code.lookup, found, Except.map]

theorem addConst_grants (run : addConst value code = .ok place after) :
    Grants code .const place (.const value) after := by
  obtain ⟨atEnd, rfl⟩ := appended_ok code.constants.length
    (fun code => { code with constants := code.constants ++ [value] }) run
  refine ⟨⟨id, List.prefix_append _ _, List.prefix_rfl, List.prefix_rfl⟩, rfl, fun next => ?_⟩
  exact resolve_const (by simp [← atEnd])

theorem pushSlot_grants (run : pushSlot name code = .ok place after) :
    Grants code .slot place (.slot name) after := by
  obtain ⟨atEnd, rfl⟩ := appended_ok code.localSlots.length
    (fun code => { code with localSlots := code.localSlots ++ [name] }) run
  refine ⟨⟨id, List.prefix_rfl, List.prefix_rfl, List.prefix_append _ _⟩, rfl, fun next => ?_⟩
  exact resolve_slot (by simp [← atEnd])

theorem addParam_grants (run : addParam name code = .ok place after) :
    Grants code .slot place (.slot name) after := by
  unfold addParam at run
  change (if code.localSlots.length ≠ code.argCount then _ else _ : Assembly α UInt16) code = _ at run
  split at run
  · cases run
  · have pushed : Grants { code with argCount := code.argCount + 1 } .slot place (.slot name) after :=
      pushSlot_grants run
    exact ⟨⟨pushed.extended.instructions, pushed.extended.constants, pushed.extended.names,
      pushed.extended.localSlots⟩, pushed.same, pushed.resolved⟩

theorem getElem?_of_idxOf? {entries : List String} {position : Nat}
    (found : entries.idxOf? name = some position) : entries[position]? = some name := by
  rw [List.idxOf?, List.findIdx?_eq_some_iff_getElem] at found
  obtain ⟨inside, same, _⟩ := found
  rw [List.getElem?_eq_getElem inside, eq_of_beq same]

theorem addName_eq (name : String) (code : Code α) : addName name code =
    match code.names.idxOf? name with
    | some position => index position code
    | none => (do
        let place ← index code.names.length
        modify fun _ => { code with names := code.names ++ [name] }
        return place : Assembly α UInt16) code := by
  change (match code.names.idxOf? name with
    | some position => index position
    | none => _ : Assembly α UInt16) code = _
  cases code.names.idxOf? name <;> rfl

theorem addName_grants (run : addName name code = .ok place after) :
    Grants code .name place (.name name) after := by
  rw [addName_eq] at run
  split at run
  · rename_i position known
    obtain ⟨same, rfl⟩ := index_ok run
    refine ⟨⟨id, List.prefix_rfl, List.prefix_rfl, List.prefix_rfl⟩, rfl, fun next => ?_⟩
    exact resolve_name (same ▸ getElem?_of_idxOf? known)
  · obtain ⟨atEnd, rfl⟩ := appended_ok _ _ run
    refine ⟨⟨id, List.prefix_rfl, List.prefix_append _ _, List.prefix_rfl⟩, rfl, fun next => ?_⟩
    exact resolve_name (by simp [← atEnd])

theorem addLocal_eq (name : String) (code : Code α) : addLocal name code =
    match code.localSlots.idxOf? name with
    | some position => index position code
    | none => pushSlot name code := by
  change (match code.localSlots.idxOf? name with
    | some position => index position
    | none => pushSlot name : Assembly α UInt16) code = _
  cases code.localSlots.idxOf? name <;> rfl

theorem addLocal_grants (run : addLocal name code = .ok place after) :
    Grants code .slot place (.slot name) after := by
  rw [addLocal_eq] at run
  split at run
  · rename_i position known
    obtain ⟨same, rfl⟩ := index_ok run
    refine ⟨⟨id, List.prefix_rfl, List.prefix_rfl, List.prefix_rfl⟩, rfl, fun next => ?_⟩
    exact resolve_slot (same ▸ getElem?_of_idxOf? known)
  · exact pushSlot_grants run

theorem emit_writes (run : emit opcode code = .ok () after) : Writes code opcode .none after := by
  unfold emit at run
  split at run
  · cases run
  · rename_i plain
    have bare : opcode.hasOperand = false := Bool.not_eq_true _ ▸ plain
    cases run
    exact ⟨code.extends_withBytes _, none, code.spells_withByte bare⟩

theorem emitArg_takes {arg : UInt16} (run : emitArg opcode arg code = .ok () after) :
    opcode.hasOperand = true := by
  unfold emitArg at run
  split at run
  · cases run
  · rename_i wide
    simpa using wide

theorem emitArg_writes {arg : UInt16} {operand : Operand α} (run : emitArg opcode arg code = .ok () after)
    (resolved : code.resolve opcode.operandClass (code.instructions.size + 3) arg.toNat = .ok operand) :
    Writes code opcode operand after := by
  have takes := emitArg_takes run
  unfold emitArg at run
  split at run
  · cases run
  · cases run
    exact ⟨code.extends_withBytes _, some arg, code.spells_withBytes takes resolved⟩

theorem Grants.writes {operandClass : OperandClass} {operand : Operand α} {middle : Code α}
    (grants : Grants code operandClass place operand middle) (fits : opcode.operandClass = operandClass)
    (run : emitArg opcode place middle = .ok () after) : Writes code opcode operand after := by
  obtain ⟨extended, arg, spells⟩ := emitArg_writes run (by rw [fits]; exact grants.resolved _)
  rw [grants.same] at spells
  refine ⟨⟨fun found => extended.instructions (grants.extended.instructions found), ?_, ?_, ?_⟩, arg, spells⟩
  · exact grants.extended.constants.trans extended.constants
  · exact grants.extended.names.trans extended.names
  · exact grants.extended.localSlots.trans extended.localSlots

theorem loadConst_writes (run : loadConst value code = .ok () after) :
    Writes code .loadConst (.const value) after := by
  change EStateM.bind (addConst value) (emitArg .loadConst) code = _ at run
  unfold EStateM.bind at run
  split at run
  · rename_i added
    exact (addConst_grants added).writes rfl run
  · cases run

theorem emitName_writes (run : emitName opcode name code = .ok () after) :
    Writes code opcode (.name name) after := by
  unfold emitName at run
  split at run
  · cases run
  · rename_i fits
    change EStateM.bind (addName name) (emitArg opcode) code = _ at run
    unfold EStateM.bind at run
    split at run
    · rename_i added
      exact (addName_grants added).writes (by simpa using fits) run
    · cases run

theorem emitLocal_writes (run : emitLocal opcode name code = .ok () after) :
    Writes code opcode (.slot name) after := by
  unfold emitLocal at run
  split at run
  · cases run
  · rename_i fits
    change EStateM.bind (addLocal name) (emitArg opcode) code = _ at run
    unfold EStateM.bind at run
    split at run
    · rename_i added
      exact (addLocal_grants added).writes (by simpa using fits) run
    · cases run

theorem jumpOperand_ok {position target : Nat} {arg : UInt16}
    (run : jumpOperand opcode position target code = .ok arg after) :
    after = code ∧ ∀ other : Code α,
      other.resolve opcode.operandClass (position + 3) arg.toNat = .ok (.jump target) := by
  unfold jumpOperand at run
  cases operandClass : opcode.operandClass with
  | jumpRelative =>
      rw [operandClass] at run
      dsimp only at run
      split at run
      · obtain ⟨distance, same⟩ := index_ok run
        refine ⟨same, fun other => ?_⟩
        rw [Code.resolve, ← distance]
        congr 2
        omega
      · cases run
  | jumpAbsolute =>
      rw [operandClass] at run
      obtain ⟨distance, same⟩ := index_ok run
      refine ⟨same, fun other => ?_⟩
      rw [Code.resolve, ← distance]
  | none | const | name | slot | int => rw [operandClass] at run; cases run

theorem emitJumpTo_writes {target : Nat} (run : emitJumpTo opcode target code = .ok () after) :
    Writes code opcode (.jump target) after := by
  change EStateM.bind (jumpOperand opcode code.instructions.size target) (emitArg opcode) code = _ at run
  unfold EStateM.bind at run
  split at run
  · rename_i found
    obtain ⟨rfl, resolved⟩ := jumpOperand_ok found
    exact emitArg_writes run (resolved _)
  · cases run

/-- Where a jump leads until its label is placed. -/
def unplaced (opcode : Opcode) (offset : Nat) : Nat :=
  if opcode.operandClass = .jumpRelative then offset + 3 else 0

theorem emitJump_writes {label : JumpLabel} (run : emitJump opcode code = .ok label after) :
    label = ⟨code.instructions.size, opcode⟩ ∧
      Writes code opcode (.jump (unplaced opcode code.instructions.size)) after := by
  unfold emitJump at run
  split at run
  · cases run
  · rename_i jump
    change EStateM.bind (emitArg opcode 0) _ code = _ at run
    unfold EStateM.bind at run
    split at run
    · rename_i emitted
      cases run
      refine ⟨rfl, emitArg_writes emitted ?_⟩
      cases operandClass : opcode.operandClass with
      | jumpRelative | jumpAbsolute => simp [Code.resolve, unplaced, operandClass]
      | none | const | name | slot | int => simp [operandClass, OperandClass.isJump] at jump
    · cases run

theorem patchJump_ok {label : JumpLabel} (run : patchJump label code = .ok () after) :
    ∃ arg, after = code.withNumber label.offset arg ∧ ∀ other : Code α,
      other.resolve label.opcode.operandClass (label.offset + 3) arg.toNat =
        .ok (.jump code.instructions.size) := by
  change EStateM.bind (jumpOperand label.opcode label.offset code.instructions.size) _ code = _ at run
  unfold EStateM.bind at run
  split at run
  · rename_i arg middle found
    obtain ⟨rfl, resolved⟩ := jumpOperand_ok found
    split at run
    · cases run
    · cases run
      exact ⟨arg, rfl, resolved⟩
  · cases run

end

end Assembly

end BlockVM
