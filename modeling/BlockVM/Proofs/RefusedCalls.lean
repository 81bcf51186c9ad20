import Mathlib.Data.List.Induction
import BlockVM.Proofs.AssembledInstructions

namespace BlockVM.Assembly

/-! What holds of the code under assembly after any calls, refused ones among them, with which a client goes
on. A refused call leaves the code as it was, with one exception: a parameter is counted before a slot is made
for it, so one more parameter than there can be slots spoils the count for good. -/

variable {α β γ : Type} {code after : Code α} {name : String}

/-- The entries of the tables can be indexed, and no name has two places. -/
structure Bounded (code : Code α) : Prop where
  constants : code.constants.length ≤ tableLimit
  names : code.names.length ≤ tableLimit
  localSlots : code.localSlots.length ≤ tableLimit
  distinct : code.names.Nodup

theorem Bounded.recount (bounded : Bounded code) (argCount : Nat) : Bounded { code with argCount } :=
  ⟨bounded.constants, bounded.names, bounded.localSlots, bounded.distinct⟩

/-- The tables may grow, and the parameters stay what they are. -/
structure Grows (before after : Code α) : Prop where
  bounded : Bounded before → Bounded after
  localSlots : before.localSlots <+: after.localSlots
  argCount : after.argCount = before.argCount
  name : after.name = before.name

namespace Grows

theorem refl (code : Code α) : Grows code code :=
  ⟨id, List.prefix_rfl, rfl, rfl⟩

theorem trans {first second third : Code α} (earlier : Grows first second) (later : Grows second third) :
    Grows first third where
  bounded := later.bounded ∘ earlier.bounded
  localSlots := earlier.localSlots.trans later.localSlots
  argCount := later.argCount.trans earlier.argCount
  name := later.name.trans earlier.name

theorem bytes (code : Code α) (instructions : Array UInt8) : Grows code { code with instructions } where
  bounded bounded := ⟨bounded.constants, bounded.names, bounded.localSlots, bounded.distinct⟩
  localSlots := List.prefix_rfl
  argCount := rfl
  name := rfl

theorem const {value : α} (room : code.constants.length < tableLimit) :
    Grows code { code with constants := code.constants ++ [value] } where
  bounded bounded := ⟨by simpa [Nat.succ_le_iff] using room, bounded.names, bounded.localSlots, bounded.distinct⟩
  localSlots := List.prefix_rfl
  argCount := rfl
  name := rfl

theorem newName (room : code.names.length < tableLimit) (new : name ∉ code.names) :
    Grows code { code with names := code.names ++ [name] } where
  bounded bounded := ⟨bounded.constants, by simpa [Nat.succ_le_iff] using room, bounded.localSlots,
    List.concat_eq_append ▸ bounded.distinct.concat new⟩
  localSlots := List.prefix_rfl
  argCount := rfl
  name := rfl

theorem newSlot (room : code.localSlots.length < tableLimit) :
    Grows code { code with localSlots := code.localSlots ++ [name] } where
  bounded bounded := ⟨bounded.constants, bounded.names, by simpa [Nat.succ_le_iff] using room, bounded.distinct⟩
  localSlots := List.prefix_append _ _
  argCount := rfl
  name := rfl

end Grows

/-- The step only looks at the code. -/
def Looks (step : Assembly α β) : Prop :=
  ∀ code, (∃ result, step code = .ok result code) ∨ ∃ error, step code = .error error code

/-- The step is not refused, and the code grows. -/
def Sure (step : Assembly α β) : Prop :=
  ∀ code, ∃ result after, step code = .ok result after ∧ Grows code after

/-- The step is refused and leaves the code as it was, or the code grows. -/
def Safe (step : Assembly α β) : Prop :=
  ∀ code, (∃ result after, step code = .ok result after ∧ Grows code after) ∨ ∃ error, step code = .error error code

section

variable {step : Assembly α β} {next : β → Assembly α γ}

theorem bind_of_ok {result : β} {middle : Code α} (ran : step code = .ok result middle) :
    (step >>= next) code = next result middle := by
  change EStateM.bind step next code = _
  simp only [EStateM.bind, ran]

theorem bind_of_error {error : AssemblyError} {middle : Code α} (ran : step code = .error error middle) :
    (step >>= next) code = .error error middle := by
  change EStateM.bind step next code = _
  simp only [EStateM.bind, ran]

theorem Looks.bind (looks : Looks step) (safe : ∀ code result, step code = .ok result code → Safe (next result)) :
    Safe (step >>= next) := by
  intro code
  rcases looks code with ⟨result, ran⟩ | ⟨error, ran⟩
  · rw [bind_of_ok ran]
    exact safe code result ran code
  · exact .inr ⟨error, bind_of_error ran⟩

theorem Safe.bind (safe : Safe step) (sure : ∀ result, Sure (next result)) : Safe (step >>= next) := by
  intro code
  rcases safe code with ⟨result, middle, ran, grows⟩ | ⟨error, ran⟩
  · rw [bind_of_ok ran]
    obtain ⟨final, after, onward, further⟩ := sure result middle
    exact .inl ⟨final, after, onward, grows.trans further⟩
  · exact .inr ⟨error, bind_of_error ran⟩

theorem Sure.safe (sure : Sure step) : Safe step :=
  fun code => .inl (sure code)

theorem safe_throw (error : AssemblyError) : Safe (throw error : Assembly α β) :=
  fun _ => .inr ⟨error, rfl⟩

theorem Safe.map {wrap : β → γ} (safe : Safe step) : Safe (wrap <$> step) := by
  intro code
  change (∃ result after, EStateM.map wrap step code = _ ∧ _) ∨ ∃ error, EStateM.map wrap step code = _
  rcases safe code with ⟨result, after, ran, grows⟩ | ⟨error, ran⟩
  · exact .inl ⟨wrap result, after, by simp only [EStateM.map, ran], grows⟩
  · exact .inr ⟨error, by simp only [EStateM.map, ran]⟩

theorem Looks.safe (looks : Looks step) : Safe step := by
  intro code
  rcases looks code with ⟨result, ran⟩ | ⟨error, ran⟩
  · exact .inl ⟨result, code, ran, .refl code⟩
  · exact .inr ⟨error, ran⟩

end

theorem looks_index (position : Nat) : Looks (index position : Assembly α UInt16) := by
  intro code
  rw [index_eq]
  split
  · exact .inl ⟨_, rfl⟩
  · exact .inr ⟨_, rfl⟩

/-- A new entry at the end of a table, or none if the table is full. -/
theorem appended_eq (position : Nat) (change : Code α → Code α) (code : Code α) :
    (do
      let place ← index position
      modify change
      return place : Assembly α UInt16) code =
    if position < tableLimit then .ok (UInt16.ofNat position) (change code) else .error .tooLarge code := by
  by_cases room : position < tableLimit
  · rw [if_pos room, bind_of_ok (by rw [index_eq, if_pos room])]
    rfl
  · rw [if_neg room, bind_of_error (by rw [index_eq, if_neg room])]

theorem safe_addConst (value : α) : Safe (addConst value) := by
  intro code
  have ran : addConst value code = _ := appended_eq code.constants.length _ code
  rw [ran]
  split
  · exact .inl ⟨_, _, rfl, .const ‹_›⟩
  · exact .inr ⟨_, rfl⟩

theorem pushSlot_eq (name : String) (code : Code α) : pushSlot name code =
    if code.localSlots.length < tableLimit then
      .ok (UInt16.ofNat code.localSlots.length) { code with localSlots := code.localSlots ++ [name] }
    else .error .tooLarge code :=
  appended_eq code.localSlots.length _ code

theorem safe_pushSlot (name : String) : Safe (pushSlot name : Assembly α UInt16) := by
  intro code
  rw [pushSlot_eq]
  split
  · exact .inl ⟨_, _, rfl, .newSlot ‹_›⟩
  · exact .inr ⟨_, rfl⟩

theorem safe_addLocal (name : String) : Safe (addLocal name : Assembly α UInt16) := by
  intro code
  rw [addLocal_eq]
  split
  · exact (looks_index _).safe code
  · exact safe_pushSlot name code

theorem safe_addName (name : String) : Safe (addName name : Assembly α UInt16) := by
  intro code
  rw [addName_eq]
  split
  · exact (looks_index _).safe code
  · rename_i new
    rw [appended_eq]
    split
    · exact .inl ⟨_, _, rfl, .newName ‹_› (List.idxOf?_eq_none_iff.mp new)⟩
    · exact .inr ⟨_, rfl⟩

theorem sure_append (bytes : List UInt8) : Sure (append bytes : Assembly α Unit) :=
  fun code => ⟨(), _, rfl, .bytes code _⟩

theorem safe_emit (opcode : Opcode) : Safe (emit opcode : Assembly α Unit) := by
  unfold emit
  split
  · exact safe_throw _
  · exact (sure_append _).safe

theorem sure_emitArg {opcode : Opcode} (takes : opcode.hasOperand = true) (arg : UInt16) :
    Sure (emitArg opcode arg : Assembly α Unit) := by
  unfold emitArg
  rw [takes]
  exact sure_append _

theorem safe_emitArg (opcode : Opcode) (arg : UInt16) : Safe (emitArg opcode arg : Assembly α Unit) := by
  cases takes : opcode.hasOperand with
  | true => exact (sure_emitArg takes arg).safe
  | false =>
    unfold emitArg
    rw [takes]
    exact safe_throw _

theorem safe_loadConst (value : α) : Safe (loadConst value) :=
  (safe_addConst value).bind fun place => sure_emitArg rfl place

theorem hasOperand_of_ne {opcode : Opcode} (some : opcode.operandClass ≠ .none) : opcode.hasOperand = true := by
  simpa [Opcode.hasOperand_eq] using some

theorem safe_emitName (opcode : Opcode) (name : String) : Safe (emitName opcode name : Assembly α Unit) := by
  unfold emitName
  split
  · exact safe_throw _
  · rename_i fits
    have takes := hasOperand_of_ne (by rw [not_not.mp fits]; decide)
    exact (safe_addName name).bind fun place => sure_emitArg takes place

theorem safe_emitLocal (opcode : Opcode) (name : String) : Safe (emitLocal opcode name : Assembly α Unit) := by
  unfold emitLocal
  split
  · exact safe_throw _
  · rename_i fits
    have takes := hasOperand_of_ne (by rw [not_not.mp fits]; decide)
    exact (safe_addLocal name).bind fun place => sure_emitArg takes place

theorem looks_offset : Looks (offset : Assembly α Nat) :=
  fun code => .inl ⟨code.instructions.size, rfl⟩

theorem looks_jumpOperand (opcode : Opcode) (position target : Nat) :
    Looks (jumpOperand opcode position target : Assembly α UInt16) := by
  unfold jumpOperand
  split
  · split
    · exact looks_index _
    · exact fun _ => .inr ⟨_, rfl⟩
  · exact looks_index _
  · exact fun _ => .inr ⟨_, rfl⟩

theorem hasOperand_of_isJump {opcode : Opcode} (jumps : opcode.operandClass.isJump = true) :
    opcode.hasOperand = true :=
  hasOperand_of_ne fun none => by
    rw [none] at jumps
    cases jumps

theorem jumpOperand_jumps {opcode : Opcode} {position target : Nat} {arg : UInt16}
    (ran : jumpOperand opcode position target code = .ok arg after) : opcode.operandClass.isJump = true := by
  cases operandClass : opcode.operandClass with
  | jumpRelative | jumpAbsolute => rfl
  | none | const | name | slot | int =>
    rw [jumpOperand, operandClass] at ran
    cases ran

theorem safe_emitJump (opcode : Opcode) : Safe (emitJump opcode : Assembly α JumpLabel) := by
  unfold emitJump
  split
  · exact safe_throw _
  · rename_i jumps
    have takes := hasOperand_of_isJump (by simpa using jumps)
    refine looks_offset.bind fun _ position _ => (sure_emitArg takes 0).safe.bind fun _ code => ?_
    exact ⟨_, code, rfl, .refl code⟩

theorem safe_patchJump (label : JumpLabel) : Safe (patchJump label : Assembly α Unit) := by
  refine looks_offset.bind fun _ target _ => (looks_jumpOperand _ _ target).bind fun _ arg _ => ?_
  split
  · exact safe_throw _
  · exact fun code => .inl ⟨(), _, rfl, .bytes code _⟩

theorem safe_emitJumpTo (opcode : Opcode) (target : Nat) : Safe (emitJumpTo opcode target : Assembly α Unit) := by
  refine looks_offset.bind fun _ position _ => (looks_jumpOperand _ position target).bind fun _ arg ran => ?_
  exact (sure_emitArg (hasOperand_of_isJump (jumpOperand_jumps ran)) arg).safe

namespace Call

/-- The parameter that a call declares. -/
def param? : Call α → Option String
  | .addParam name => some name
  | _ => none

theorem safe {call : Call α} (plain : call.param? = none) : Safe call.perform := by
  cases call with
  | addParam name => cases plain
  | addConst value => exact (safe_addConst value).map
  | addName name => exact (safe_addName name).map
  | addLocal name => exact (safe_addLocal name).map
  | emit opcode => exact (safe_emit opcode).map
  | emitArg opcode arg => exact (safe_emitArg opcode arg).map
  | loadConst value => exact (safe_loadConst value).map
  | emitName opcode name => exact (safe_emitName opcode name).map
  | emitLocal opcode name => exact (safe_emitLocal opcode name).map
  | emitJump opcode => exact (safe_emitJump opcode).map
  | patchJump label => exact (safe_patchJump label).map
  | emitJumpTo opcode target => exact (safe_emitJumpTo opcode target).map

end Call

theorem addParam_eq (name : String) (code : Code α) : addParam name code =
    if code.localSlots.length ≠ code.argCount then .error .lateParameter code
    else if code.localSlots.length < tableLimit then
      .ok (UInt16.ofNat code.localSlots.length)
        { code with localSlots := code.localSlots ++ [name], argCount := code.argCount + 1 }
    else .error .tooLarge { code with argCount := code.argCount + 1 } := by
  change (if code.localSlots.length ≠ code.argCount then throw .lateParameter
    else (do
      set { code with argCount := code.argCount + 1 }
      pushSlot name) : Assembly α UInt16) code = _
  split
  · rfl
  · exact pushSlot_eq name { code with argCount := code.argCount + 1 }

/-- What a call can do. Only a parameter without a slot leaves its trace on the code though it is refused. -/
inductive Call.Outcome (code : Code α) : Call α → EStateM.Result AssemblyError (Code α) Answer → Prop where
  | refused {call : Call α} {error : AssemblyError}
      (calm : call.param? = none ∨ code.localSlots.length ≠ code.argCount) :
      Outcome code call (.error error code)
  | grown {call : Call α} {answer : Answer} {after : Code α} (plain : call.param? = none) (grows : Grows code after) :
      Outcome code call (.ok answer after)
  | declared {param : String} {answer : Answer} (level : code.localSlots.length = code.argCount)
      (room : code.localSlots.length < tableLimit) :
      Outcome code (.addParam param)
        (.ok answer { code with localSlots := code.localSlots ++ [param], argCount := code.argCount + 1 })
  | crowded {param : String} {error : AssemblyError} (level : code.localSlots.length = code.argCount)
      (full : tableLimit ≤ code.localSlots.length) :
      Outcome code (.addParam param) (.error error { code with argCount := code.argCount + 1 })

theorem Call.outcome (call : Call α) (code : Code α) : call.Outcome code (call.perform code) := by
  cases plain : call.param? with
  | none =>
    rcases Call.safe plain code with ⟨answer, after, ran, grows⟩ | ⟨error, ran⟩
    · exact ran ▸ .grown plain grows
    · exact ran ▸ .refused (.inl plain)
  | some param =>
    cases call with
    | addParam name =>
      change Outcome code _ (EStateM.map _ (Assembly.addParam name) code)
      rw [EStateM.map, addParam_eq]
      by_cases level : code.localSlots.length = code.argCount
      · rw [if_neg (not_not.mpr level)]
        by_cases room : code.localSlots.length < tableLimit
        · rw [if_pos room]
          exact .declared level room
        · rw [if_neg room]
          exact .crowded level (Nat.le_of_not_lt room)
      · rw [if_pos level]
        exact .refused (.inr level)
    | _ => cases plain

/-- Code under assembly, with the parameters whose declaration was not refused. -/
structure Trial (α : Type) where
  code : Code α
  declared : List String

namespace Trial

def start (name : String) : Trial α :=
  ⟨Assembly.start name, []⟩

/-- One more call, refused or not. -/
def perform (trial : Trial α) (call : Call α) : Trial α :=
  match call.perform trial.code with
  | .ok _ after => ⟨after, trial.declared ++ call.param?.toList⟩
  | .error _ after => ⟨after, trial.declared⟩

def run (name : String) (calls : List (Call α)) : Trial α :=
  calls.foldl perform (start name)

theorem run_concat (name : String) (calls : List (Call α)) (call : Call α) :
    run name (calls ++ [call]) = (run name calls).perform call := by
  simp [run]

/-- A parameter was asked for when all slots there can be were parameters'. -/
def Crowded (name : String) (calls : List (Call α)) : Prop :=
  ∃ earlier param later, calls = earlier ++ .addParam param :: later ∧
    (run name earlier).declared.length = tableLimit

theorem crowded_concat {calls : List (Call α)} {call : Call α} : Crowded name (calls ++ [call]) ↔
    Crowded name calls ∨ call.param?.isSome = true ∧ (run name calls).declared.length = tableLimit := by
  constructor
  · rintro ⟨earlier, param, later, same, full⟩
    rcases List.eq_nil_or_concat later with rfl | ⟨before, last, rfl⟩
    · obtain ⟨rfl, last⟩ := List.append_inj' same rfl
      cases last
      exact .inr ⟨rfl, full⟩
    · have parted : calls ++ [call] = (earlier ++ .addParam param :: before) ++ [last] := by simpa using same
      obtain ⟨rfl, -⟩ := List.append_inj' parted rfl
      exact .inl ⟨earlier, param, before, rfl, full⟩
  · rintro (⟨earlier, param, later, rfl, full⟩ | ⟨declares, full⟩)
    · exact ⟨earlier, param, later ++ [call], by simp, full⟩
    · cases call with
      | addParam param => exact ⟨calls, param, [], rfl, full⟩
      | _ => cases declares

/-- What every run keeps to, whether `crowded` or not. -/
structure Upholds (name : String) (crowded : Prop) (trial : Trial α) : Prop where
  named : trial.code.name = name
  bounded : Bounded trial.code
  slots : trial.declared <+: trial.code.localSlots
  counted : ¬crowded → trial.code.argCount = trial.declared.length
  miscounted : crowded → trial.code.argCount = tableLimit + 1 ∧ trial.declared.length = tableLimit

namespace Upholds

variable {crowded : Prop} {trial : Trial α}

theorem congr {other : Prop} (upholds : Upholds name crowded trial) (same : other ↔ crowded) :
    Upholds name other trial :=
  propext same ▸ upholds

theorem declared_le (upholds : Upholds name crowded trial) :
    trial.declared.length ≤ trial.code.localSlots.length ∧ trial.code.localSlots.length ≤ tableLimit :=
  ⟨upholds.slots.length_le, upholds.bounded.localSlots⟩

/-- A wrong count is one above the slots that there can be. -/
theorem fair (upholds : Upholds name crowded trial) (few : trial.code.argCount ≤ trial.code.localSlots.length) :
    ¬crowded := by
  intro crowded
  obtain ⟨more, -⟩ := upholds.miscounted crowded
  have bound := upholds.bounded.localSlots
  omega

/-- A call that leaves no trace does not crowd the slots. -/
theorem already {call : Call α} (upholds : Upholds name crowded trial)
    (calm : call.param? = none ∨ trial.code.localSlots.length ≠ trial.code.argCount)
    (excess : call.param?.isSome = true ∧ trial.declared.length = tableLimit) : crowded := by
  obtain ⟨fewer, bound⟩ := upholds.declared_le
  obtain ⟨declares, full⟩ := excess
  -- Had the parameters been counted right, all slots would be theirs and the call no late one.
  by_contra fair
  have counted := upholds.counted fair
  rcases calm with plain | uneven
  · rw [plain] at declares
    cases declares
  · omega

theorem start (name : String) : Upholds name False (Trial.start name : Trial α) where
  named := rfl
  bounded := ⟨Nat.zero_le _, Nat.zero_le _, Nat.zero_le _, List.nodup_nil⟩
  slots := List.prefix_rfl
  counted _ := rfl
  miscounted := False.elim

theorem step (upholds : Upholds name crowded trial) (call : Call α) :
    Upholds name (crowded ∨ call.param?.isSome = true ∧ trial.declared.length = tableLimit)
      (trial.perform call) := by
  obtain ⟨fewer, bound⟩ := upholds.declared_le
  have outcome := call.outcome trial.code
  unfold perform
  generalize call.perform trial.code = result at outcome
  cases outcome with
  | refused calm =>
    exact upholds.congr (or_iff_left_of_imp (upholds.already calm))
  | grown plain grows =>
    rw [plain]
    refine Upholds.congr ⟨?_, grows.bounded upholds.bounded, ?_, ?_, ?_⟩ (or_iff_left (by simp))
    · exact grows.name.trans upholds.named
    · simpa using upholds.slots.trans grows.localSlots
    · simpa [grows.argCount] using upholds.counted
    · simpa [grows.argCount] using upholds.miscounted
  | @declared param _ level room =>
    have fair := upholds.fair (Nat.le_of_eq level.symm)
    have counted := upholds.counted fair
    have all : trial.declared = trial.code.localSlots := upholds.slots.eq_of_length (by omega)
    have roomy : ¬(crowded ∨ (Call.addParam param : Call α).param?.isSome = true ∧
        trial.declared.length = tableLimit) := by
      rintro (crowded | ⟨-, full⟩)
      · exact fair crowded
      · omega
    refine ⟨upholds.named, ?_, ?_, fun _ => ?_, fun crowded => absurd crowded roomy⟩
    · exact ((Grows.newSlot room).bounded upholds.bounded).recount _
    · simp [all, Call.param?]
    · simp [counted, Call.param?]
  | crowded level full =>
    have fair := upholds.fair (Nat.le_of_eq level.symm)
    have counted := upholds.counted fair
    have every : trial.declared.length = tableLimit := by omega
    refine ⟨upholds.named, upholds.bounded.recount _, upholds.slots, fun roomy => ?_, fun _ => ⟨?_, every⟩⟩
    · exact absurd (.inr ⟨rfl, every⟩) roomy
    · dsimp only
      omega

end Upholds

theorem not_crowded_nil : ¬Crowded name ([] : List (Call α)) := by
  rintro ⟨earlier, param, later, same, -⟩
  simp at same

theorem upholds_run (name : String) (calls : List (Call α)) :
    Upholds name (Crowded name calls) (run name calls) := by
  induction calls using List.reverseRecOn with
  | nil => exact (Upholds.start name).congr (iff_false_intro not_crowded_nil)
  | append_singleton calls call upholds =>
    rw [run_concat]
    exact (upholds.step call).congr crowded_concat

namespace Upholds

theorem count_le_iff (upholds : Upholds name crowded trial) :
    trial.code.argCount ≤ trial.code.localSlots.length ↔ ¬crowded :=
  ⟨upholds.fair, fun fair => by
    rw [upholds.counted fair]
    exact upholds.slots.length_le⟩

theorem params_ok (upholds : Upholds name crowded trial) (fair : ¬crowded) :
    trial.code.params = .ok trial.declared := by
  rw [Code.params, if_pos (upholds.count_le_iff.mpr fair), upholds.counted fair,
    ← List.prefix_iff_eq_take.mp upholds.slots]

theorem params_error (upholds : Upholds name crowded trial) (spoilt : crowded) :
    trial.code.params = .error (.missingSlots name (tableLimit + 1) tableLimit) := by
  obtain ⟨more, full⟩ := upholds.miscounted spoilt
  obtain ⟨fewer, bound⟩ := upholds.declared_le
  have slots : trial.code.localSlots.length = tableLimit := by omega
  rw [Code.params, upholds.named, more, slots, if_neg (by omega)]

end Upholds

/-- The code that a refused call leaves. -/
theorem refused_leaves {calls : List (Call α)} {call : Call α} {error : AssemblyError}
    (ran : call.perform (run name calls).code = .error error after) :
    (after = (run name calls).code ↔ (Crowded name (calls ++ [call]) → Crowded name calls)) ∧
      after = { (run name calls).code with argCount := after.argCount } := by
  have upholds := upholds_run name calls
  have outcome := call.outcome (run name calls).code
  rw [ran] at outcome
  cases outcome with
  | refused calm =>
    refine ⟨iff_of_true rfl fun crowded => ?_, rfl⟩
    exact (crowded_concat.mp crowded).elim id (upholds.already calm)
  | crowded level full =>
    have fair := upholds.fair (Nat.le_of_eq level.symm)
    have counted := upholds.counted fair
    have bound := upholds.bounded.localSlots
    refine ⟨iff_of_false (fun same => ?_) fun back => fair (back (crowded_concat.mpr (.inr ⟨rfl, ?_⟩))), rfl⟩
    · exact Nat.succ_ne_self _ (congrArg Code.argCount same)
    · omega

end Trial

/-- After any calls, refused ones among them, the tables can be indexed, no name has two places, and the
parameters are those whose declaration was not refused, unless one more was asked for than there can be slots.
That one call is also the only refused one that leaves the code otherwise than it was: its parameter is counted,
and the parameters cannot be told any more. -/
theorem refusals_harmless_until_crowded (name : String) (calls : List (Call α)) :
    Bounded (Trial.run name calls).code ∧
    ((Trial.run name calls).code.argCount ≤ (Trial.run name calls).code.localSlots.length ↔
      ¬Trial.Crowded name calls) ∧
    (¬Trial.Crowded name calls → (Trial.run name calls).code.params = .ok (Trial.run name calls).declared) ∧
    (Trial.Crowded name calls →
      (Trial.run name calls).code.params = .error (.missingSlots name (tableLimit + 1) tableLimit)) ∧
    ∀ call error after, call.perform (Trial.run name calls).code = .error error after →
      (after = (Trial.run name calls).code ↔
        (Trial.Crowded name (calls ++ [call]) → Trial.Crowded name calls)) ∧
      after = { (Trial.run name calls).code with argCount := after.argCount } :=
  have upholds := Trial.upholds_run name calls
  ⟨upholds.bounded, upholds.count_le_iff, upholds.params_ok, upholds.params_error,
    fun _ _ _ => Trial.refused_leaves⟩

namespace Trial

theorem perform_addParam {trial : Trial α} (param : String)
    (level : trial.code.localSlots.length = trial.code.argCount) (room : trial.code.localSlots.length < tableLimit) :
    trial.perform (.addParam param) =
      ⟨{ trial.code with
          localSlots := trial.code.localSlots ++ [param], argCount := trial.code.argCount + 1 },
        trial.declared ++ [param]⟩ := by
  have outcome := (Call.addParam param).outcome trial.code
  unfold perform
  generalize (Call.addParam param).perform trial.code = result at outcome
  cases outcome with
  | refused calm => exact absurd level (calm.resolve_left (by simp [Call.param?]))
  | grown plain => cases plain
  | declared => rfl
  | crowded _ full => exact absurd room (Nat.not_lt.mpr full)

theorem run_params (name param : String) {count : Nat} (room : count ≤ tableLimit) :
    (run name (List.replicate count (.addParam param)) : Trial α) =
      ⟨{ (Assembly.start name : Code α) with localSlots := List.replicate count param, argCount := count },
        List.replicate count param⟩ := by
  induction count with
  | zero => rfl
  | succ count hyp =>
    rw [List.replicate_succ', run_concat, hyp (Nat.le_of_succ_le room),
      perform_addParam param List.length_replicate (by simpa [Nat.succ_le_iff] using room), List.replicate_succ']

end Trial

/-- One parameter more than there can be slots is refused and yet counted, and the code is left without
parameters. -/
theorem surplus_parameter_counted :
    (Trial.run "f" (List.replicate (tableLimit + 1) (.addParam "a")) : Trial Nat).declared.length = tableLimit ∧
    (Trial.run "f" (List.replicate (tableLimit + 1) (.addParam "a")) : Trial Nat).code.argCount = tableLimit + 1 ∧
    (Trial.run "f" (List.replicate (tableLimit + 1) (.addParam "a")) : Trial Nat).code.params =
      .error (.missingSlots "f" (tableLimit + 1) tableLimit) := by
  have crowded : Trial.Crowded "f" (List.replicate (tableLimit + 1) (.addParam "a" : Call Nat)) := by
    refine ⟨List.replicate tableLimit (.addParam "a"), "a", [], List.replicate_succ', ?_⟩
    rw [Trial.run_params "f" "a" (Nat.le_refl _), List.length_replicate]
  have upholds := Trial.upholds_run "f" (List.replicate (tableLimit + 1) (.addParam "a" : Call Nat))
  obtain ⟨counted, declared⟩ := upholds.miscounted crowded
  exact ⟨declared, counted, upholds.params_error crowded⟩

end BlockVM.Assembly
