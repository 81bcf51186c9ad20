import Mathlib.Data.List.Forall2
import Mathlib.Data.List.Nodup
import Mathlib.Logic.Relation
import BlockVM.Proofs.Assembling

namespace BlockVM.Assembly

/-! What the client of an assembly means, and what comes of it. A client sees the answers to its calls and
the offsets before them. These alone settle what each call that writes an instruction means, and the
instruction decodes to just that. -/

variable {α : Type}

inductive Call (α : Type) where
  | addParam (name : String)
  | addConst (value : α)
  | addName (name : String)
  | addLocal (name : String)
  | emit (opcode : Opcode)
  | emitArg (opcode : Opcode) (arg : UInt16)
  | loadConst (value : α)
  | emitName (opcode : Opcode) (name : String)
  | emitLocal (opcode : Opcode) (name : String)
  | emitJump (opcode : Opcode)
  | patchJump (label : JumpLabel)
  | emitJumpTo (opcode : Opcode) (target : Nat)

inductive Answer where
  | done
  | place (index : UInt16)
  | label (label : JumpLabel)

namespace Call

def perform : Call α → Assembly α Answer
  | .addParam name => .place <$> Assembly.addParam name
  | .addConst value => .place <$> Assembly.addConst value
  | .addName name => .place <$> Assembly.addName name
  | .addLocal name => .place <$> Assembly.addLocal name
  | .emit opcode => (fun _ => .done) <$> Assembly.emit opcode
  | .emitArg opcode arg => (fun _ => .done) <$> Assembly.emitArg opcode arg
  | .loadConst value => (fun _ => .done) <$> Assembly.loadConst value
  | .emitName opcode name => (fun _ => .done) <$> Assembly.emitName opcode name
  | .emitLocal opcode name => (fun _ => .done) <$> Assembly.emitLocal opcode name
  | .emitJump opcode => .label <$> Assembly.emitJump opcode
  | .patchJump label => (fun _ => .done) <$> Assembly.patchJump label
  | .emitJumpTo opcode target => (fun _ => .done) <$> Assembly.emitJumpTo opcode target

/-- The entry of a table that a call asks for. -/
def tabled? : Call α → Option (OperandClass × Operand α)
  | .addParam name => some (.slot, .slot name)
  | .addConst value => some (.const, .const value)
  | .addName name => some (.name, .name name)
  | .addLocal name => some (.slot, .slot name)
  | _ => none

/-- The instruction that a call spells out. -/
def content? : Call α → Option (Opcode × Operand α)
  | .emit opcode => some (opcode, .none)
  | .loadConst value => some (.loadConst, .const value)
  | .emitName opcode name => some (opcode, .name name)
  | .emitLocal opcode name => some (opcode, .slot name)
  | .emitJumpTo opcode target => some (opcode, .jump target)
  | _ => none

/-- Whether a call writes an instruction. -/
def emits : Call α → Bool
  | .emitArg .. | .emitJump _ => true
  | call => call.content?.isSome

end Call

/-- A call with its answer and the offset before it. -/
structure Entry (α : Type) where
  call : Call α
  answer : Answer
  offset : Nat

/-- The operand that an entry has put at a place of the table of its class. -/
def Entry.supplies (operandClass : OperandClass) (place : UInt16) (entry : Entry α) : Option (Operand α) :=
  match entry.call.tabled?, entry.answer with
  | some (suppliedClass, operand), .place index =>
      if suppliedClass = operandClass ∧ index = place then some operand else none
  | _, _ => none

/-- What a number means to a client: an index is that of an entry it has asked for. -/
def numbered? (history : List (Entry α)) (operandClass : OperandClass) (next : Nat) (arg : UInt16) :
    Option (Operand α) :=
  match operandClass with
  | .none => none
  | .const | .name | .slot => history.findSome? (Entry.supplies operandClass arg)
  | .jumpRelative => some (.jump (next + arg.toNat))
  | .jumpAbsolute => some (.jump arg.toNat)
  | .int => some (.int arg.toNat)

/-- The offset at which an entry places a label. -/
def Entry.places? (label : JumpLabel) (entry : Entry α) : Option Nat :=
  match entry.call with
  | .patchJump placed => if placed = label then some entry.offset else none
  | _ => none

/-- Where a label was placed last. -/
def placed? (history : List (Entry α)) (label : JumpLabel) : Option Nat :=
  history.reverse.findSome? (Entry.places? label)

/-- The instruction that an entry means, given all that the client did. -/
def Entry.meaning? (history : List (Entry α)) (entry : Entry α) : Option (Opcode × Operand α) :=
  match entry.call, entry.answer with
  | .emitArg opcode arg, _ =>
      (numbered? history opcode.operandClass (entry.offset + 3) arg).map fun operand => (opcode, operand)
  | .emitJump opcode, .label label =>
      some (opcode, .jump ((placed? history label).getD (unplaced opcode entry.offset)))
  | call, _ => call.content?

/-- The instruction stands at the offset before the call, and is the one meant. -/
structure Entry.Yields (history : List (Entry α)) (entry : Entry α) (instruction : Instruction α) : Prop where
  offset : instruction.offset = entry.offset
  meaning : entry.meaning? history = some (instruction.opcode, instruction.operand)

/-- Labels come from this assembly, and so do numbers that index one of its tables. -/
def Call.Admissible (history : List (Entry α)) : Call α → Prop
  | .patchJump label => ∃ entry ∈ history, entry.answer = .label label
  | .emitArg opcode arg =>
      opcode.operandClass = .const ∨ opcode.operandClass = .name ∨ opcode.operandClass = .slot →
        ∃ entry ∈ history, (entry.supplies opcode.operandClass arg).isSome
  | _ => True

/-- An assembly under way, with all calls so far. -/
structure Stage (α : Type) where
  history : List (Entry α)
  code : Code α

namespace Stage

def start (name : String) : Stage α :=
  ⟨[], Assembly.start name⟩

/-- One more call, which is not refused. -/
inductive Step : Stage α → Stage α → Prop where
  | call {history : List (Entry α)} {code after : Code α} {answer : Answer} (call : Call α)
      (admissible : call.Admissible history) (performed : call.perform code = .ok answer after) :
      Step ⟨history, code⟩ ⟨history ++ [⟨call, answer, code.instructions.size⟩], after⟩

def Reaches : Stage α → Stage α → Prop :=
  Relation.ReflTransGen Step

end Stage

inductive Performs (code : Code α) : Call α → Answer → Code α → Prop where
  | adds {call : Call α} {place : UInt16} {operandClass : OperandClass} {operand : Operand α} {after : Code α}
      (asked : call.tabled? = some (operandClass, operand)) (grants : Grants code operandClass place operand after) :
      Performs code call (.place place) after
  | writes {call : Call α} {opcode : Opcode} {operand : Operand α} {after : Code α}
      (content : call.content? = some (opcode, operand)) (writes : Writes code opcode operand after) :
      Performs code call .done after
  | numbers {opcode : Opcode} {arg : UInt16} {after : Code α}
      (run : Assembly.emitArg opcode arg code = .ok () after) : Performs code (.emitArg opcode arg) .done after
  | jumps {opcode : Opcode} {after : Code α}
      (writes : Writes code opcode (.jump (unplaced opcode code.instructions.size)) after) :
      Performs code (.emitJump opcode) (.label ⟨code.instructions.size, opcode⟩) after
  | patches {label : JumpLabel} {arg : UInt16}
      (resolved : ∀ other : Code α, other.resolve label.opcode.operandClass (label.offset + 3) arg.toNat =
        .ok (.jump code.instructions.size)) :
      Performs code (.patchJump label) .done (code.withNumber label.offset arg)

theorem map_ok {β : Type} {step : Assembly α β} {wrap : β → Answer} {code after : Code α} {answer : Answer}
    (run : (wrap <$> step) code = .ok answer after) :
    ∃ result, step code = .ok result after ∧ wrap result = answer := by
  change EStateM.map wrap step code = _ at run
  unfold EStateM.map at run
  split at run
  · cases run
    exact ⟨_, by assumption, rfl⟩
  · cases run

theorem Call.perform_performs {call : Call α} {code after : Code α} {answer : Answer}
    (performed : call.perform code = .ok answer after) : Performs code call answer after := by
  cases call with
  | addParam name => obtain ⟨place, run, rfl⟩ := map_ok performed; exact .adds rfl (addParam_grants run)
  | addConst value => obtain ⟨place, run, rfl⟩ := map_ok performed; exact .adds rfl (addConst_grants run)
  | addName name => obtain ⟨place, run, rfl⟩ := map_ok performed; exact .adds rfl (addName_grants run)
  | addLocal name => obtain ⟨place, run, rfl⟩ := map_ok performed; exact .adds rfl (addLocal_grants run)
  | emit opcode => obtain ⟨_, run, rfl⟩ := map_ok performed; exact .writes rfl (emit_writes run)
  | emitArg opcode arg => obtain ⟨_, run, rfl⟩ := map_ok performed; exact .numbers run
  | loadConst value => obtain ⟨_, run, rfl⟩ := map_ok performed; exact .writes rfl (loadConst_writes run)
  | emitName opcode name => obtain ⟨_, run, rfl⟩ := map_ok performed; exact .writes rfl (emitName_writes run)
  | emitLocal opcode name => obtain ⟨_, run, rfl⟩ := map_ok performed; exact .writes rfl (emitLocal_writes run)
  | emitJump opcode =>
      obtain ⟨label, run, rfl⟩ := map_ok performed
      obtain ⟨rfl, writes⟩ := emitJump_writes run
      exact .jumps writes
  | patchJump label =>
      obtain ⟨_, run, rfl⟩ := map_ok performed
      obtain ⟨arg, rfl, resolved⟩ := patchJump_ok run
      exact .patches resolved
  | emitJumpTo opcode target => obtain ⟨_, run, rfl⟩ := map_ok performed; exact .writes rfl (emitJumpTo_writes run)

theorem Call.emits_of_tabled? {call : Call α} (asks : call.tabled?.isSome) : call.emits = false := by
  cases call <;> simp_all [tabled?, emits, content?]

theorem Call.emits_of_content? {call : Call α} (spelt : call.content?.isSome) :
    call.emits = true ∧ call.tabled? = none ∧ ∀ label, call ≠ .patchJump label := by
  cases call <;> simp_all [tabled?, emits, content?]

section

variable {history later : List (Entry α)} {entry : Entry α}

theorem numbered?_append {operandClass : OperandClass} {next : Nat} {arg : UInt16} {operand : Operand α}
    (found : numbered? history operandClass next arg = some operand) :
    numbered? (history ++ later) operandClass next arg = some operand := by
  cases operandClass with
  | none => cases found
  | const | name | slot =>
      simp only [numbered?] at found ⊢
      rw [List.findSome?_append, found, Option.some_or]
  | jumpRelative | jumpAbsolute | int => exact found

theorem placed?_append (label : JumpLabel) :
    placed? (history ++ later) label = (placed? later label).or (placed? history label) := by
  rw [placed?, List.reverse_append, List.findSome?_append]
  rfl

theorem placed?_eq_none {label : JumpLabel} (unmoved : ∀ entry ∈ history, entry.call ≠ .patchJump label) :
    placed? history label = none := by
  rw [placed?, List.findSome?_eq_none_iff]
  intro entry member
  have other := unmoved entry (List.mem_reverse.mp member)
  unfold Entry.places?
  split
  · rename_i placed call
    refine if_neg fun same => ?_
    subst same
    exact other call
  · rfl

theorem Entry.meaning?_append {meaning : Opcode × Operand α} (means : entry.meaning? history = some meaning)
    (unmoved : ∀ label, entry.answer = .label label → ∀ call ∈ later, call.call ≠ .patchJump label) :
    entry.meaning? (history ++ later) = some meaning := by
  obtain ⟨call, answer, offset⟩ := entry
  cases call with
  | emitArg opcode arg =>
      obtain ⟨operand, found, rfl⟩ := Option.map_eq_some_iff.mp means
      exact Option.map_eq_some_iff.mpr ⟨operand, numbered?_append found, rfl⟩
  | emitJump opcode =>
      cases answer with
      | label label =>
          simp only [meaning?, placed?_append, placed?_eq_none (unmoved label rfl), Option.none_or] at means ⊢
          exact means
      | done | place index => exact means
  | _ => exact means

end

/-- The client's calls have led to code that spells `instructions`. -/
structure Sound (stage : Stage α) (instructions : List (Instruction α)) : Prop where
  reads : stage.code.Reads 0 instructions stage.code.instructions.size
  yields : List.Forall₂ (Entry.Yields stage.history) (stage.history.filter (·.call.emits)) instructions
  tables : ∀ entry ∈ stage.history, ∀ {operandClass : OperandClass} {place : UInt16} {operand : Operand α},
    entry.supplies operandClass place = some operand →
      ∀ next, stage.code.resolve operandClass next place.toNat = .ok operand
  labels : ∀ entry ∈ stage.history, ∀ {label : JumpLabel}, entry.answer = .label label →
    entry.call = .emitJump label.opcode ∧ entry.offset = label.offset
  patches : ∀ entry ∈ stage.history, ∀ {label : JumpLabel}, entry.call = .patchJump label →
    ∃ jump ∈ stage.history, jump.answer = .label label

namespace Sound

variable {history : List (Entry α)} {code after : Code α} {instructions : List (Instruction α)} {entry : Entry α}

section

variable (sound : Sound ⟨history, code⟩ instructions)

include sound

theorem exists_yields (member : entry ∈ history) (emits : entry.call.emits = true) :
    ∃ instruction ∈ instructions, entry.Yields history instruction := by
  have written : entry ∈ history.filter (·.call.emits) := List.mem_filter.mpr ⟨member, emits⟩
  obtain ⟨position, inside, rfl⟩ := List.getElem_of_mem written
  have counted : position < instructions.length := sound.yields.length_eq ▸ inside
  exact ⟨instructions[position], List.getElem_mem counted, sound.yields.get inside counted⟩

theorem offset_lt (member : entry ∈ history) (emits : entry.call.emits = true) :
    entry.offset < code.instructions.size := by
  obtain ⟨instruction, found, yields⟩ := sound.exists_yields member emits
  obtain ⟨_, forward, inside⟩ := (sound.reads.spells_of_mem found).2.bounds
  rw [← yields.offset]
  exact Nat.lt_of_lt_of_le forward inside

/-- The offset of an instruction tells which call wrote it. -/
theorem eq_of_offset {other : Entry α} (member : entry ∈ history) (emits : entry.call.emits = true)
    (otherMember : other ∈ history) (otherEmits : other.call.emits = true)
    (same : entry.offset = other.offset) : entry = other := by
  have offsets : (history.filter (·.call.emits)).map Entry.offset = instructions.map Instruction.offset := by
    rw [← List.forall₂_eq_eq_eq, List.forall₂_map_left_iff, List.forall₂_map_right_iff]
    exact sound.yields.imp fun entry instruction yields => yields.offset.symm
  have distinct : ((history.filter (·.call.emits)).map Entry.offset).Nodup := by
    rw [offsets]
    exact sound.reads.offsets_ascend.imp Nat.ne_of_lt
  exact List.inj_on_of_nodup_map distinct (List.mem_filter.mpr ⟨member, emits⟩)
    (List.mem_filter.mpr ⟨otherMember, otherEmits⟩) same

theorem label_emits {label : JumpLabel} (member : entry ∈ history) (issued : entry.answer = .label label) :
    entry.call.emits = true := by
  rw [(sound.labels entry member issued).1]
  rfl

theorem yields_append {later : List (Entry α)}
    (unmoved : ∀ entry ∈ later, ∀ label, entry.call ≠ .patchJump label) :
    List.Forall₂ (Entry.Yields (history ++ later)) (history.filter (·.call.emits)) instructions :=
  sound.yields.imp fun _ _ yields =>
    ⟨yields.offset, Entry.meaning?_append yields.meaning fun label _ entry member => unmoved entry member label⟩

theorem tables_extend (extended : code.Extends after)
    (own : ∀ {operandClass : OperandClass} {place : UInt16} {operand : Operand α},
      entry.supplies operandClass place = some operand →
        ∀ next, after.resolve operandClass next place.toNat = .ok operand) :
    ∀ known ∈ history ++ [entry], ∀ {operandClass : OperandClass} {place : UInt16} {operand : Operand α},
      known.supplies operandClass place = some operand →
        ∀ next, after.resolve operandClass next place.toNat = .ok operand := by
  intro known member operandClass place operand supplied next
  rcases List.mem_append.mp member with member | member
  · exact extended.resolve (sound.tables known member supplied next)
  · obtain rfl := List.mem_singleton.mp member
    exact own supplied next

theorem labels_append
    (own : ∀ {label : JumpLabel}, entry.answer = .label label →
      entry.call = .emitJump label.opcode ∧ entry.offset = label.offset) :
    ∀ known ∈ history ++ [entry], ∀ {label : JumpLabel}, known.answer = .label label →
      known.call = .emitJump label.opcode ∧ known.offset = label.offset := by
  intro known member label issued
  rcases List.mem_append.mp member with member | member
  · exact sound.labels known member issued
  · obtain rfl := List.mem_singleton.mp member
    exact own issued

theorem patches_append
    (own : ∀ {label : JumpLabel}, entry.call = .patchJump label → ∃ jump ∈ history, jump.answer = .label label) :
    ∀ known ∈ history ++ [entry], ∀ {label : JumpLabel}, known.call = .patchJump label →
      ∃ jump ∈ history ++ [entry], jump.answer = .label label := by
  intro known member label patched
  have issued : ∃ jump ∈ history, jump.answer = .label label := by
    rcases List.mem_append.mp member with member | member
    · exact sound.patches known member patched
    · obtain rfl := List.mem_singleton.mp member
      exact own patched
  obtain ⟨jump, found, answered⟩ := issued
  exact ⟨jump, List.mem_append_left _ found, answered⟩

theorem adds {call : Call α} {place : UInt16} {operandClass : OperandClass} {operand : Operand α} {offset : Nat}
    (asked : call.tabled? = some (operandClass, operand))
    (grants : Grants code operandClass place operand after) :
    Sound ⟨history ++ [⟨call, .place place, offset⟩], after⟩ instructions := by
  have silent : call.emits = false := Call.emits_of_tabled? (by rw [asked]; rfl)
  have unpatched (label : JumpLabel) : call ≠ .patchJump label := by rintro rfl; cases asked
  refine ⟨?_, ?_, sound.tables_extend grants.extended ?_, sound.labels_append nofun,
    sound.patches_append fun patched => absurd patched (unpatched _)⟩
  · rw [show after.instructions.size = code.instructions.size by rw [grants.same]]
    exact sound.reads.extend grants.extended
  · have kept : List.Forall₂ (Entry.Yields (history ++ [⟨call, .place place, offset⟩]))
        (history.filter (·.call.emits)) instructions := sound.yields_append (by simpa using unpatched)
    simpa [List.filter_append, silent] using kept
  · intro operandClass' place' operand' supplied next
    simp only [Entry.supplies, asked] at supplied
    split at supplied
    · rename_i same
      cases supplied
      rw [← same.1, ← same.2]
      exact grants.resolved next
    · cases supplied

theorem writes {opcode : Opcode} {operand : Operand α} (writes : Writes code opcode operand after)
    (emits : entry.call.emits = true) (asks : entry.call.tabled? = none)
    (unpatched : ∀ label, entry.call ≠ .patchJump label) (placed : entry.offset = code.instructions.size)
    (issued : ∀ {label : JumpLabel}, entry.answer = .label label →
      entry.call = .emitJump label.opcode ∧ entry.offset = label.offset)
    (means : entry.meaning? (history ++ [entry]) = some (opcode, operand)) :
    ∃ instruction, Sound ⟨history ++ [entry], after⟩ (instructions ++ [instruction]) := by
  obtain ⟨extended, arg, spells⟩ := writes
  refine ⟨_, (sound.reads.extend extended).snoc spells, ?_, sound.tables_extend extended ?_,
    sound.labels_append issued, sound.patches_append fun patched => absurd patched (unpatched _)⟩
  · rw [List.filter_append, List.filter_singleton, emits]
    refine List.rel_append (sound.yields_append (by simpa using unpatched)) ?_
    exact .cons ⟨placed.symm, means⟩ .nil
  · intro operandClass place operand supplied
    simp only [Entry.supplies, asks] at supplied
    cases supplied

/-- A number from an earlier answer is resolved to what the client asked for then. -/
theorem exists_numbered {opcode : Opcode} {arg : UInt16} {next : Nat} (takes : opcode.hasOperand = true)
    (admissible : (Call.emitArg opcode arg).Admissible history) :
    ∃ operand, numbered? history opcode.operandClass next arg = some operand ∧
      code.resolve opcode.operandClass next arg.toNat = .ok operand := by
  have supplied {operandClass : OperandClass}
      (known : ∃ entry ∈ history, (entry.supplies operandClass arg).isSome) :
      ∃ operand, history.findSome? (Entry.supplies operandClass arg) = some operand ∧
        code.resolve operandClass next arg.toNat = .ok operand := by
    obtain ⟨operand, found⟩ := Option.isSome_iff_exists.mp (List.findSome?_isSome_iff.mpr known)
    obtain ⟨entry, member, supplied⟩ := List.exists_of_findSome?_eq_some found
    exact ⟨operand, found, sound.tables entry member supplied next⟩
  rw [Opcode.hasOperand_eq] at takes
  simp only [Call.Admissible] at admissible
  cases operandClass : opcode.operandClass with
  | none => rw [operandClass] at takes; cases takes
  | const | name | slot =>
      rw [operandClass] at admissible
      exact supplied (admissible (by simp))
  | jumpRelative | jumpAbsolute | int => exact ⟨_, rfl, rfl⟩

theorem numbers {opcode : Opcode} {arg : UInt16} (admissible : (Call.emitArg opcode arg).Admissible history)
    (run : emitArg opcode arg code = .ok () after) :
    ∃ instruction, Sound ⟨history ++ [⟨.emitArg opcode arg, .done, code.instructions.size⟩], after⟩
      (instructions ++ [instruction]) := by
  obtain ⟨operand, found, resolved⟩ := sound.exists_numbered (emitArg_takes run) admissible
  refine sound.writes (emitArg_writes run resolved) rfl rfl nofun rfl nofun ?_
  exact Option.map_eq_some_iff.mpr ⟨operand, numbered?_append found, rfl⟩

theorem jumps {opcode : Opcode}
    (writes : Writes code opcode (.jump (unplaced opcode code.instructions.size)) after) :
    ∃ instruction, Sound ⟨history ++ [⟨.emitJump opcode, .label ⟨code.instructions.size, opcode⟩,
      code.instructions.size⟩], after⟩ (instructions ++ [instruction]) := by
  refine sound.writes writes rfl rfl nofun rfl (fun issued => by cases issued; exact ⟨rfl, rfl⟩) ?_
  have fresh : placed? (history ++ [⟨.emitJump opcode, .label ⟨code.instructions.size, opcode⟩,
      code.instructions.size⟩]) ⟨code.instructions.size, opcode⟩ = none := by
    refine placed?_eq_none fun known member patched => ?_
    rcases List.mem_append.mp member with member | member
    · obtain ⟨jump, found, answered⟩ := sound.patches known member patched
      have earlier := sound.offset_lt found (sound.label_emits found answered)
      rw [(sound.labels jump found answered).2] at earlier
      exact Nat.lt_irrefl _ earlier
    · obtain rfl := List.mem_singleton.mp member
      cases patched
  simp only [Entry.meaning?, fresh, Option.getD_none]

end

/-- The instruction at `place`, led to `target`. -/
def retarget (place : Nat) (arg : UInt16) (target : Nat) (instruction : Instruction α) : Instruction α :=
  if instruction.offset = place then { instruction with arg := some arg, operand := .jump target } else instruction

theorem hasOperand_of_jump {opcode : Opcode} {next index target : Nat}
    (resolved : code.resolve opcode.operandClass next index = .ok (.jump target)) : opcode.hasOperand = true := by
  rw [Opcode.hasOperand_eq]
  cases operandClass : opcode.operandClass with
  | none => rw [operandClass] at resolved; cases resolved
  | _ => rfl

/-- Placing a label leads its own jump to the end of the code and leaves all other instructions alone. -/
theorem retargets {label : JumpLabel} {arg : UInt16} (sound : Sound ⟨history, code⟩ instructions)
    (issued : ∃ entry ∈ history, entry.answer = .label label)
    (resolved : ∀ other : Code α, other.resolve label.opcode.operandClass (label.offset + 3) arg.toNat =
      .ok (.jump code.instructions.size)) :
    Sound ⟨history ++ [⟨.patchJump label, .done, code.instructions.size⟩], code.withNumber label.offset arg⟩
      (instructions.map (retarget label.offset arg code.instructions.size)) := by
  have known := issued
  obtain ⟨jump, member, answered⟩ := issued
  obtain ⟨called, placed⟩ := sound.labels jump member answered
  have emits := sound.label_emits member answered
  have takes := hasOperand_of_jump (resolved code)
  -- The offset of a label is that of one call only, so the instruction that is rewritten is its own jump.
  have own {entry : Entry α} {instruction : Instruction α} (known : entry ∈ history)
      (writes : entry.call.emits = true) (yields : entry.Yields history instruction)
      (at_ : instruction.offset = label.offset) : entry = jump ∧ instruction.opcode = label.opcode := by
    obtain rfl := sound.eq_of_offset known writes member emits (yields.offset.symm.trans (at_.trans placed.symm))
    have means := yields.meaning
    simp only [Entry.meaning?, called, answered, Option.some.injEq, Prod.mk.injEq] at means
    exact ⟨rfl, means.1.symm⟩
  have opcode {instruction : Instruction α} (found : instruction ∈ instructions)
      (at_ : instruction.offset = label.offset) : instruction.opcode = label.opcode := by
    obtain ⟨position, inside, rfl⟩ := List.getElem_of_mem found
    have counted : position < (history.filter (·.call.emits)).length := sound.yields.length_eq ▸ inside
    have written := List.mem_filter.mp (List.getElem_mem counted)
    exact (own written.1 written.2 (sound.yields.get counted inside) at_).2
  obtain ⟨target, targetFound, targetYields⟩ := sound.exists_yields member emits
  refine ⟨?_, ?_, ?_, sound.labels_append nofun, sound.patches_append fun patched => ?_⟩
  · rw [Code.size_withNumber]
    refine sound.reads.withNumber (.inr ⟨target, targetFound, targetYields.offset.trans placed⟩) ?_ ?_
    · intro instruction _ other
      rw [retarget, if_neg other]
    · intro instruction found at_
      have spells := (sound.reads.spells_of_mem found).2
      have wide : instruction.opcode.hasOperand = true := by rw [opcode found at_, takes]
      rw [at_] at spells
      rw [retarget, if_pos at_]
      exact ⟨spells.next_of_takes wide, rfl, spells.own wide (by rw [opcode found at_]; exact resolved code)⟩
  · rw [List.filter_append, List.filter_singleton, List.forall₂_map_right_iff]
    have within : List.Forall₂ (fun entry instruction =>
        (entry ∈ history ∧ entry.call.emits = true) ∧ entry.Yields history instruction)
        (history.filter (·.call.emits)) instructions :=
      (List.forall₂_and_left _ _).mpr ⟨fun _ => List.mem_filter.mp, sound.yields⟩
    refine (List.append_nil _).symm ▸ within.imp fun entry instruction related => ?_
    obtain ⟨⟨known, writes⟩, yields⟩ := related
    by_cases at_ : instruction.offset = label.offset
    · obtain ⟨rfl, same⟩ := own known writes yields at_
      rw [retarget, if_pos at_]
      refine ⟨yields.offset, ?_⟩
      simp [Entry.meaning?, called, answered, placed?, Entry.places?, same]
    · rw [retarget, if_neg at_]
      refine ⟨yields.offset, Entry.meaning?_append yields.meaning fun other issued call called => ?_⟩
      obtain rfl := List.mem_singleton.mp called
      intro same
      cases same
      exact at_ (yields.offset.trans (sound.labels entry known issued).2)
  · intro known listed operandClass place operand supplied next
    rcases List.mem_append.mp listed with listed | listed
    · exact sound.tables known listed supplied next
    · obtain rfl := List.mem_singleton.mp listed
      cases supplied
  · cases patched
    exact known

end Sound

namespace Stage

/-- A call changes no instruction, unless it places the label of that instruction. -/
theorem Step.sound {stage next : Stage α} {instructions : List (Instruction α)} (step : Step stage next)
    (sound : Sound stage instructions) :
    ∃ entry written, next.history = stage.history ++ [entry] ∧ Sound next written ∧
      ∀ instruction ∈ instructions,
        (∀ label, entry.call = .patchJump label → label.offset ≠ instruction.offset) → instruction ∈ written := by
  obtain ⟨call, admissible, performed⟩ := step
  rename_i history code after answer
  refine ⟨⟨call, answer, code.instructions.size⟩, ?_⟩
  have performs := Call.perform_performs performed
  cases performs with
  | adds asked grants => exact ⟨instructions, rfl, sound.adds asked grants, fun _ found _ => found⟩
  | @writes call opcode operand after content writes =>
      obtain ⟨emits, asks, unpatched⟩ : call.emits = true ∧ call.tabled? = none ∧ ∀ label, call ≠ .patchJump label :=
        Call.emits_of_content? (by rw [content]; rfl)
      have means : Entry.meaning? (history ++ [⟨call, .done, code.instructions.size⟩])
          ⟨call, .done, code.instructions.size⟩ = some (opcode, operand) := by
        cases call with
        | emitArg opcode arg | emitJump opcode => cases content
        | _ => exact content
      obtain ⟨instruction, grown⟩ := sound.writes writes emits asks unpatched rfl (fun issued => by cases issued) means
      exact ⟨_, rfl, grown, fun _ found _ => List.mem_append_left _ found⟩
  | numbers run =>
      obtain ⟨instruction, grown⟩ := sound.numbers admissible run
      exact ⟨_, rfl, grown, fun _ found _ => List.mem_append_left _ found⟩
  | jumps writes =>
      obtain ⟨instruction, grown⟩ := sound.jumps writes
      exact ⟨_, rfl, grown, fun _ found _ => List.mem_append_left _ found⟩
  | @patches label arg resolved =>
      refine ⟨_, rfl, sound.retargets admissible resolved, fun instruction found unmoved => ?_⟩
      refine List.mem_map.mpr ⟨instruction, found, ?_⟩
      rw [Sound.retarget, if_neg (unmoved label rfl).symm]

theorem Reaches.sound {first last : Stage α} {instructions : List (Instruction α)} (reached : Reaches first last)
    (sound : Sound first instructions) :
    ∃ later written, last.history = first.history ++ later ∧ Sound last written ∧
      ∀ instruction ∈ instructions,
        (∀ entry ∈ later, ∀ label, entry.call = .patchJump label → label.offset ≠ instruction.offset) →
          instruction ∈ written := by
  induction reached with
  | refl => exact ⟨[], instructions, (List.append_nil _).symm, sound, fun _ found _ => found⟩
  | tail _ step ih =>
      obtain ⟨later, written, extended, middle, kept⟩ := ih
      obtain ⟨entry, rewritten, onward, final, stepKept⟩ := step.sound middle
      refine ⟨later ++ [entry], rewritten, by rw [onward, extended, List.append_assoc], final, ?_⟩
      intro instruction found unmoved
      refine stepKept instruction (kept instruction found fun known member => ?_) ?_
      · exact unmoved known (List.mem_append_left _ member)
      · exact unmoved entry (List.mem_append_right _ (List.mem_singleton_self entry))

theorem start_sound (name : String) : Sound (start name : Stage α) [] where
  reads := .nil 0
  yields := .nil
  tables _ member := absurd member List.not_mem_nil
  labels _ member := absurd member List.not_mem_nil
  patches _ member := absurd member List.not_mem_nil

end Stage

/-- Whatever is called in whatever order, decoding the code from its start gives one instruction for each
call that wrote one, in the order of the calls and up to the end of the code. Each stands at the offset
before its call and is the instruction that the client meant. It stays what it is under all later calls
that do not place its own label. -/
theorem assembled_decodes {name : String} {stage : Stage α} (reached : (Stage.start name).Reaches stage) :
    (∃ instructions, stage.code.decodeFrom 0 = instructions.map .ok ∧
      (instructions.map Instruction.next).getLastD 0 = stage.code.instructions.size ∧
      List.Forall₂ (Entry.Yields stage.history) (stage.history.filter (·.call.emits)) instructions) ∧
    ∀ (final : Stage α) (later : List (Entry α)), stage.Reaches final → final.history = stage.history ++ later →
      ∀ entry ∈ stage.history, entry.call.emits = true →
        (∀ label, entry.answer = .label label → ∀ call ∈ later, call.call ≠ .patchJump label) →
          final.code.decodeAt entry.offset = stage.code.decodeAt entry.offset := by
  obtain ⟨_, instructions, _, sound, _⟩ := reached.sound (Stage.start_sound name)
  refine ⟨⟨instructions, sound.reads.decodeFrom rfl, sound.reads.nextD_eq, sound.yields⟩, ?_⟩
  intro final later onward extended entry member emits unmoved
  obtain ⟨others, written, same, finalSound, kept⟩ := onward.sound sound
  obtain rfl : later = others := List.append_cancel_left (extended.symm.trans same)
  obtain ⟨instruction, found, yields⟩ := sound.exists_yields member emits
  have stays : instruction ∈ written := by
    refine kept instruction found fun call called label patched at_ => ?_
    have listed : entry ∈ final.history := extended ▸ List.mem_append_left _ member
    obtain ⟨jump, issued, answered⟩ := finalSound.patches call (extended ▸ List.mem_append_right _ called) patched
    have same : jump.offset = entry.offset := by
      rw [(finalSound.labels jump issued answered).2, at_, yields.offset]
    obtain rfl := finalSound.eq_of_offset issued (finalSound.label_emits issued answered) listed emits same
    exact unmoved label answered call called patched
  rw [← yields.offset, (sound.reads.spells_of_mem found).2.decodeAt, (finalSound.reads.spells_of_mem stays).2.decodeAt]

/-- Two parameters of one name, and two labels of which the inner one is placed twice. -/
def crossedLabels : Stage Nat where
  history :=
    [⟨.addParam "x", .place 0, 0⟩, ⟨.addParam "x", .place 1, 0⟩,
      ⟨.emitJump .popJumpIfFalse, .label ⟨0, .popJumpIfFalse⟩, 0⟩,
      ⟨.emitJump .setupLoop, .label ⟨3, .setupLoop⟩, 3⟩, ⟨.patchJump ⟨3, .setupLoop⟩, .done, 6⟩,
      ⟨.emitArg .loadFast 1, .done, 6⟩, ⟨.patchJump ⟨0, .popJumpIfFalse⟩, .done, 9⟩,
      ⟨.patchJump ⟨3, .setupLoop⟩, .done, 9⟩, ⟨.emit .returnValue, .done, 9⟩]
  code :=
    { name := "crossed", instructions := #[114, 9, 0, 120, 3, 0, 124, 1, 0, 83], constants := [], names := []
      localSlots := ["x", "x"], argCount := 2 }

theorem crossedLabels_reached : (Stage.start "crossed").Reaches crossedLabels := by
  have outer : ∃ entry ∈ crossedLabels.history.take 6, entry.answer = .label ⟨0, .popJumpIfFalse⟩ :=
    ⟨⟨.emitJump .popJumpIfFalse, .label ⟨0, .popJumpIfFalse⟩, 0⟩, by simp [crossedLabels], rfl⟩
  have inner (calls : Nat) (few : 4 ≤ calls) :
      ∃ entry ∈ crossedLabels.history.take calls, entry.answer = .label ⟨3, .setupLoop⟩ := by
    obtain ⟨more, rfl⟩ := Nat.exists_eq_add_of_le' few
    exact ⟨⟨.emitJump .setupLoop, .label ⟨3, .setupLoop⟩, 3⟩, by simp [crossedLabels], rfl⟩
  have second : ∃ entry ∈ crossedLabels.history.take 5, (entry.supplies .slot 1).isSome :=
    ⟨⟨.addParam "x", .place 1, 0⟩, by simp [crossedLabels], rfl⟩
  have params : (Stage.start "crossed").Reaches ⟨crossedLabels.history.take 2, _⟩ :=
    .tail (.tail .refl (.call (.addParam "x") trivial rfl)) (.call (.addParam "x") trivial rfl)
  have jumps : (Stage.start "crossed").Reaches ⟨crossedLabels.history.take 4, _⟩ :=
    .tail (.tail params (.call (.emitJump .popJumpIfFalse) trivial rfl)) (.call (.emitJump .setupLoop) trivial rfl)
  have load : (Stage.start "crossed").Reaches ⟨crossedLabels.history.take 6, _⟩ :=
    .tail (.tail jumps (.call (.patchJump ⟨3, .setupLoop⟩) (inner 4 (by decide)) rfl))
      (.call (.emitArg .loadFast 1) (fun _ => second) rfl)
  have patches : (Stage.start "crossed").Reaches ⟨crossedLabels.history.take 8, _⟩ :=
    .tail (.tail load (.call (.patchJump ⟨0, .popJumpIfFalse⟩) outer rfl))
      (.call (.patchJump ⟨3, .setupLoop⟩) (inner 7 (by decide)) rfl)
  exact .tail patches (.call (.emit .returnValue) trivial rfl)

theorem assembled_decodes_crossedLabels :
    (Stage.start "crossed").Reaches crossedLabels ∧
      ∃ instructions : List (Instruction Nat), crossedLabels.code.decodeFrom 0 = instructions.map .ok ∧
        instructions.map Instruction.operand = [.jump 9, .jump 9, .slot "x", .none] := by
  refine ⟨crossedLabels_reached, ?_⟩
  obtain ⟨⟨instructions, decoded, _, yields⟩, _⟩ := assembled_decodes crossedLabels_reached
  refine ⟨instructions, decoded, ?_⟩
  have meant : (crossedLabels.history.filter (·.call.emits)).map (Entry.meaning? crossedLabels.history) =
      instructions.map fun instruction => some (instruction.opcode, instruction.operand) := by
    rw [← List.forall₂_eq_eq_eq, List.forall₂_map_left_iff, List.forall₂_map_right_iff]
    exact yields.imp fun _ _ yield => yield.meaning
  have operands : instructions.map Instruction.operand =
      ((crossedLabels.history.filter (·.call.emits)).map (Entry.meaning? crossedLabels.history)).filterMap
        (Option.map Prod.snd) := by
    rw [meant, List.filterMap_map]
    simp
  rw [operands]
  rfl

end BlockVM.Assembly
