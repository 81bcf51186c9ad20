import BlockVM.Constant.Encoding
import BlockVM.Proofs.JsonReadback

namespace BlockVM

/-! Code objects go through their text unchanged. A float may lose its last place, so the constants are
built from everything but floats. -/

namespace Json

mutual

/-- Levels of arrays and objects. -/
def depth : Json → Nat
  | .array items => 1 + depthOfItems items
  | .object fields => 1 + depthOfFields fields
  | _ => 0

def depthOfItems : List Json → Nat
  | [] => 0
  | item :: items => max item.depth (depthOfItems items)

def depthOfFields : List (Option String × Json) → Nat
  | [] => 0
  | (_, value) :: fields => max value.depth (depthOfFields fields)

end

end Json

mutual

/-- There is no float in a constant, and the count of arguments is a size wherever there is code. -/
def Constant.isExact : Constant → Bool
  | .float _ => false
  | .list items => Constant.listIsExact items
  | .tuple items => Constant.listIsExact items
  | .code unit => Constant.codeIsExact unit
  | _ => true

def Constant.listIsExact : List Constant → Bool
  | [] => true
  | item :: items => item.isExact && Constant.listIsExact items

def Constant.codeIsExact : Code Constant → Bool
  | ⟨_, _, constants, _, _, argCount⟩ => Constant.listIsExact constants && decide (argCount ≤ Size.greatest)

end

def Code.isExact (code : Code Constant) : Bool :=
  Constant.codeIsExact code

namespace Json

theorem legible_ofNat (n : Nat) : Legible (.number (.ofNat n)) := by
  have same : Numeral.ofNat n = .ofInt n := by simp [Numeral.ofInt, Numeral.ofNat]
  rw [same]
  exact .integer n

theorem legible_single {name : String} {content : Json} (legible : Legible content) :
    Legible (.record [(name, content)]) := by
  refine .record ?_
  intro field member
  rw [List.mem_singleton.mp member]
  exact legible

theorem legible_texts (names : List String) : Legible (.array (names.map .text)) := by
  refine .array ?_
  intro item member
  obtain ⟨name, _, rfl⟩ := List.mem_map.mp member
  exact .text name

end Json

open Json in
theorem Range.legible_toJson (r : Range) : Legible r.toJson := by
  refine .record ?_
  simp only [List.forall_mem_cons]
  exact ⟨.integer _, .integer _, .integer _, nofun⟩

mutual

theorem Constant.legible_toJson : (constant : Constant) → constant.isExact = true → constant.toJson.Legible
  | .nothing, _ => .text _
  | .bool value, _ => Json.legible_single (.bool value)
  | .int value, _ => Json.legible_single (.integer value.toInt)
  | .str text, _ => Json.legible_single (.text text)
  | .list items, exact => Json.legible_single (.array (Constant.legible_listToJson items exact))
  | .tuple items, exact => Json.legible_single (.array (Constant.legible_listToJson items exact))
  | .range progression, _ => Json.legible_single progression.legible_toJson
  | .builtin function, _ => Json.legible_single (.text function.name)
  | .exceptionKind kind, _ => Json.legible_single (.text kind.name)
  | .code unit, exact => Json.legible_single (Constant.legible_codeToJson unit exact)

theorem Constant.legible_listToJson : (items : List Constant) → Constant.listIsExact items = true →
    ∀ document ∈ Constant.listToJson items, document.Legible
  | [], _ => nofun
  | item :: items, exact => by
      rw [Constant.listIsExact, Bool.and_eq_true] at exact
      intro document member
      rcases List.mem_cons.mp member with same | member
      · rw [same]
        exact Constant.legible_toJson item exact.1
      · exact Constant.legible_listToJson items exact.2 document member

theorem Constant.legible_codeToJson : (unit : Code Constant) → Constant.codeIsExact unit = true →
    (Constant.codeToJson unit).Legible
  | ⟨name, instructions, constants, names, localSlots, argCount⟩, exact => by
      rw [Constant.codeIsExact, Bool.and_eq_true] at exact
      have bytes : (Json.array (instructions.toList.map fun byte => .number (.ofNat byte.toNat))).Legible := by
        refine .array ?_
        intro item member
        obtain ⟨byte, _, rfl⟩ := List.mem_map.mp member
        exact Json.legible_ofNat byte.toNat
      refine .record ?_
      simp only [List.forall_mem_cons]
      exact ⟨.text name, bytes, .array (Constant.legible_listToJson constants exact.1), Json.legible_texts names,
        Json.legible_texts localSlots, Json.legible_ofNat argCount, nofun⟩

end

namespace Json

theorem word?_ofInt (word : Int64) : word? (.number (.ofInt word.toInt)) = some word := by
  have lower := Int64.le_toInt word
  have upper := Int64.toInt_lt word
  have within : -0x8000000000000000 ≤ word.toInt ∧ word.toInt ≤ 0x7fffffffffffffff := by omega
  simp only [word?, integerIn?, Numeral.integer?_ofInt]
  rw [if_pos within]
  simp [Int64.ofInt_toInt]

theorem size?_ofNat {n : Nat} (fits : n ≤ Size.greatest) : size? (.number (.ofNat n)) = some n := by
  have within : (0 : Int) ≤ n ∧ (n : Int) ≤ 0xffffffffffffffff := by
    have bound : n ≤ 0xffffffffffffffff := fits
    omega
  simp only [size?, integerIn?, Numeral.integer?_ofNat]
  rw [if_pos within]
  simp

theorem byte?_ofNat (byte : UInt8) : byte? (.number (.ofNat byte.toNat)) = some byte := by
  have small := byte.toNat_lt
  have within : (0 : Int) ≤ byte.toNat ∧ (byte.toNat : Int) ≤ 255 := by omega
  simp only [byte?, integerIn?, Numeral.integer?_ofNat]
  rw [if_pos within]
  simp

theorem items?_map {α : Type} {read : Json → Option α} {write : α → Json} (back : ∀ a, read (write a) = some a)
    (as : List α) : items? read (.array (as.map write)) = some as := by
  rw [items?]
  induction as with
  | nil => rfl
  | cons a as ih =>
      rw [List.map_cons, List.mapM_cons, back, ih]
      rfl

theorem items?_bytes (bytes : List UInt8) :
    items? byte? (.array (bytes.map fun byte => .number (.ofNat byte.toNat))) = some bytes :=
  items?_map byte?_ofNat bytes

theorem items?_texts (names : List String) : items? string? (.array (names.map .text)) = some names := by
  have back (name : String) : string? (.text name) = some name := rfl
  exact items?_map back names

end Json

theorem Builtin.ofName?_name (function : Builtin) : ofName? function.name = some function := by
  cases function <;> decide

theorem ExceptionKind.ofName?_name (kind : ExceptionKind) : ofName? kind.name = some kind := by
  cases kind <;> decide

theorem Range.ofJson?_toJson (r : Range) : ofJson? r.toJson = some r := by
  have entries : r.toJson.entries? ["start", "stop", "step"] =
      some [.present (.number (.ofInt r.start.toInt)), .present (.number (.ofInt r.stop.toInt)),
        .present (.number (.ofInt r.step.toInt))] := by
    simp [toJson, Json.record, Json.entries?, Json.entry]
  rw [ofJson?, entries]
  simp [Json.Entry.required?, Json.word?_ofInt]

/-- A code object is read back if its constants are. -/
theorem Code.ofJson?_codeToJson {read : Json → Option Constant} (code : Code Constant)
    (table : Json.items? read (.array (Constant.listToJson code.constants)) = some code.constants)
    (fits : code.argCount ≤ Size.greatest) : Code.ofJson? read (Constant.codeToJson code) = some code := by
  obtain ⟨name, instructions, constants, names, localSlots, argCount⟩ := code
  have entries : (Constant.codeToJson ⟨name, instructions, constants, names, localSlots, argCount⟩).entries?
      ["name", "instructions", "constants", "names", "local_slots", "arg_count"] =
      some [.present (.text name),
        .present (.array (instructions.toList.map fun byte => .number (.ofNat byte.toNat))),
        .present (.array (Constant.listToJson constants)), .present (.array (names.map .text)),
        .present (.array (localSlots.map .text)), .present (.number (.ofNat argCount))] := by
    simp [Constant.codeToJson, Json.record, Json.entries?, Json.entry]
  rw [Code.ofJson?, entries]
  simp only [Json.Entry.optional?, Json.Entry.required?, Json.items?_bytes, table, Json.items?_texts,
    Json.size?_ofNat fits]
  rfl

theorem Constant.room_of_record {name : String} {content : Json} {room : Nat}
    (deep : (Json.record [(name, content)]).depth ≤ room) : ∃ inner, room = inner + 1 := by
  cases room with
  | zero => simp [Json.record, Json.depth] at deep
  | succ inner => exact ⟨inner, rfl⟩

theorem Constant.two_le_depth_codeToJson (unit : Code Constant) : 2 ≤ (Constant.codeToJson unit).depth := by
  obtain ⟨name, instructions, constants, names, localSlots, argCount⟩ := unit
  simp only [Constant.codeToJson, Json.record, List.map, Json.depth, Json.depthOfFields]
  omega

mutual

/-- A constant is read back if there is room for its levels. -/
theorem Constant.ofJson?_toJson : (constant : Constant) → (room : Nat) → constant.isExact = true →
    constant.toJson.depth ≤ room → Constant.ofJson? room constant.toJson = some constant
  | .nothing, room, _, _ => by
      rw [Constant.toJson, Constant.ofJson?]
  | .bool value, room, _, deep => by
      obtain ⟨room, rfl⟩ := Constant.room_of_record deep
      rfl
  | .int value, room, _, deep => by
      obtain ⟨room, rfl⟩ := Constant.room_of_record deep
      simp [Constant.toJson, Json.record, Constant.ofJson?, Json.word?_ofInt]
  | .str text, room, _, deep => by
      obtain ⟨room, rfl⟩ := Constant.room_of_record deep
      rfl
  | .list items, room, exact, deep => by
      simp only [Constant.toJson, Json.record, List.map, Json.depth, Json.depthOfFields] at deep
      obtain ⟨room, rfl⟩ := Nat.exists_eq_add_of_le (show 2 ≤ room by omega)
      have read := Constant.items?_listToJson items room exact (by omega)
      rw [Nat.add_comm]
      simp only [Constant.toJson, Json.record, List.map, Constant.ofJson?]
      rw [read]
      rfl
  | .tuple items, room, exact, deep => by
      simp only [Constant.toJson, Json.record, List.map, Json.depth, Json.depthOfFields] at deep
      obtain ⟨room, rfl⟩ := Nat.exists_eq_add_of_le (show 2 ≤ room by omega)
      have read := Constant.items?_listToJson items room exact (by omega)
      rw [Nat.add_comm]
      simp only [Constant.toJson, Json.record, List.map, Constant.ofJson?]
      rw [read]
      rfl
  | .range progression, room, _, deep => by
      simp only [Constant.toJson, Range.toJson, Json.record, List.map, Json.depth, Json.depthOfFields] at deep
      obtain ⟨room, rfl⟩ := Nat.exists_eq_add_of_le (show 2 ≤ room by omega)
      rw [Nat.add_comm]
      simp only [Constant.toJson, Json.record, List.map, Constant.ofJson?]
      rw [Range.ofJson?_toJson]
      rfl
  | .builtin function, room, _, deep => by
      obtain ⟨room, rfl⟩ := Constant.room_of_record deep
      simp [Constant.toJson, Json.record, Constant.ofJson?, Json.choice?, Builtin.ofName?_name]
  | .exceptionKind kind, room, _, deep => by
      obtain ⟨room, rfl⟩ := Constant.room_of_record deep
      simp [Constant.toJson, Json.record, Constant.ofJson?, Json.choice?, ExceptionKind.ofName?_name]
  | .code unit, room, exact, deep => by
      simp only [Constant.toJson, Json.record, List.map, Json.depth, Json.depthOfFields] at deep
      have levels := Constant.two_le_depth_codeToJson unit
      obtain ⟨room, rfl⟩ := Nat.exists_eq_add_of_le (show 3 ≤ room by omega)
      have read := Constant.ofJson?_codeToJson unit room exact (by omega)
      rw [Nat.add_comm]
      simp only [Constant.toJson, Json.record, List.map, Constant.ofJson?]
      rw [read]
      rfl

theorem Constant.items?_listToJson : (items : List Constant) → (room : Nat) → Constant.listIsExact items = true →
    Json.depthOfItems (Constant.listToJson items) ≤ room →
    Json.items? (Constant.ofJson? room) (.array (Constant.listToJson items)) = some items
  | [], room, _, _ => rfl
  | item :: items, room, exact, deep => by
      rw [Constant.listIsExact, Bool.and_eq_true] at exact
      rw [Constant.listToJson, Json.depthOfItems] at deep
      have first := Constant.ofJson?_toJson item room exact.1 (by omega)
      have rest := Constant.items?_listToJson items room exact.2 (by omega)
      rw [Json.items?] at rest ⊢
      rw [Constant.listToJson, List.mapM_cons, first, rest]
      rfl

theorem Constant.ofJson?_codeToJson : (unit : Code Constant) → (room : Nat) → Constant.codeIsExact unit = true →
    (Constant.codeToJson unit).depth ≤ room + 2 →
    Code.ofJson? (Constant.ofJson? room) (Constant.codeToJson unit) = some unit
  | ⟨name, instructions, constants, names, localSlots, argCount⟩, room, exact, deep => by
      rw [Constant.codeIsExact, Bool.and_eq_true] at exact
      simp only [Constant.codeToJson, Json.record, List.map, Json.depth, Json.depthOfFields] at deep
      have table := Constant.items?_listToJson constants room exact.1 (by omega)
      exact Code.ofJson?_codeToJson ⟨name, instructions, constants, names, localSlots, argCount⟩ table
        (of_decide_eq_true exact.2)

end

/-- A code object without floats, whose document nests no deeper than is allowed, is read back from its text as
it was: with the same name, instructions, names, local slots and count of arguments, and with the same
constants, each of its own sort. -/
theorem Code.ofText?_toText (code : Code Constant) (exact : code.isExact = true)
    (shallow : code.toJson.depth ≤ Json.levels) : Code.ofText? code.toText = some code := by
  have legible : code.toJson.Legible := Constant.legible_codeToJson code exact
  have read : Code.ofDocument? code.toJson = some code :=
    Constant.ofJson?_codeToJson code (Json.levels - 2) exact shallow
  rw [Code.ofText?, Code.toText, legible.parse?_pretty]
  exact read

/-- Code within code, with the least and the largest numbers, control characters, and a truth value beside the
integer that equals it. -/
theorem Code.ofText?_toText_nested :
    let inner : Code Constant :=
      { name := "say \"é\"\n\x01", instructions := #[100, 0, 0, 83]
        constants := [.tuple [.bool true, .int 1, .list []], .int (-9223372036854775808), .nothing]
        names := ["\\", ""], localSlots := ["a"], argCount := 18446744073709551615 }
    let outer : Code Constant :=
      { name := "outer", instructions := #[], names := [], localSlots := [], argCount := 0
        constants := [.code inner, .range ⟨0, 10, -1⟩, .builtin .len, .exceptionKind .keyError, .str "🙂"] }
    outer.isExact = true ∧ outer.toJson.depth = 9 ∧ Code.ofText? outer.toText = some outer := by
  intro inner outer
  have exact : outer.isExact = true := by decide
  have deep : outer.toJson.depth = 9 := by decide
  exact ⟨exact, deep, Code.ofText?_toText outer exact (by rw [deep]; decide)⟩

end BlockVM
