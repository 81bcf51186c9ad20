import BlockVM.Proofs.Subscripts

namespace BlockVM

/-! A list, a tuple, a text or a range is one row of items. Its length, its subscripts and the cursors that go
along it all agree with that row. -/

namespace Range

variable {r : Range} {index : Nat}

/-- The elements in order. -/
def elements (r : Range) : List Int64 :=
  (List.range r.size).filterMap r.get?

theorem get?_of_lt (inside : index < r.size) : ∃ element, r.get? index = some element := by
  by_cases still : r.step = 0
  · rw [size_of_step_zero still] at inside
    cases inside
  · obtain ⟨element, found, _⟩ := exists_get? still inside
    exact ⟨element, found⟩

theorem elements_eq_map (r : Range) : r.elements = (List.range r.size).map fun index => (r.get? index).getD 0 := by
  have found : ∀ index ∈ List.range r.size, r.get? index = some ((r.get? index).getD 0) := by
    intro index member
    obtain ⟨element, found⟩ := get?_of_lt (List.mem_range.mp member)
    rw [found, Option.getD_some]
  rw [elements, List.filterMap_congr found, List.filterMap_eq_map']

@[simp] theorem length_elements (r : Range) : r.elements.length = r.size := by
  simp [elements_eq_map]

@[simp] theorem getElem?_elements (r : Range) (index : Nat) : r.elements[index]? = r.get? index := by
  rcases Nat.lt_or_ge index r.size with inside | outside
  · obtain ⟨element, found⟩ := get?_of_lt inside
    simp [elements_eq_map, inside, found]
  · rw [get?_of_le outside, List.getElem?_eq_none (by simpa using outside)]

end Range

namespace Value

/-- The items of a sequence in order. -/
def contents? (heap : Heap) : Value → Option (List Draft)
  | .list ref => some ((heap.items ref).toList.map .value)
  | .tuple _ items => some (items.map .value)
  | .str _ text => some (text.toList.map fun c => .str (String.singleton c))
  | .range progression => some (progression.elements.map fun i => .value (.int i))
  | _ => none

theorem length?_eq_contents? (heap : Heap) (v : Value) : v.length? heap = (v.contents? heap).map List.length := by
  cases v <;> simp [length?, contents?, String.length_toList]

/-- The cursor over a sequence from which `place` items have been taken. -/
def cursorAt (place : Nat) : Value → Cursor
  | .list ref => .list ref place
  | .tuple _ items => .items (items.drop place)
  | .str _ text => .text text (String.ofList (text.toList.take place)).utf8ByteSize
  | .range progression => .range progression place
  | _ => .items []

section

variable {heap : Heap} {v : Value} {items : List Draft} {place : Nat}

theorem position_ofNat {length : Nat} (container : String) (near : place < Word.greatest) (inside : place < length) :
    (Value.int (Int64.ofNat place)).position length container = .ok place := by
  have same : (Int64.ofNat place).toInt = place := Int64.toInt_ofNat_of_lt (by unfold Word.greatest at near; omega)
  exact position_of_denotes container rfl ⟨by omega, .inl same⟩

/-- As far as an index reaches, subscripting finds the items of the row. -/
theorem item_eq_contents? (sequence : v.contents? heap = some items) {draft : Draft}
    (found : items[place]? = some draft) (near : place < Word.greatest) :
    item heap v (.int (Int64.ofNat place)) = .ok draft := by
  have size {α : Type} {row : List α} {entry : α} (stored : row[place]? = some entry) : place < row.length :=
    (List.getElem?_eq_some_iff.mp stored).1
  cases v with
  | list ref =>
      cases sequence
      obtain ⟨value, stored, rfl⟩ := Option.map_eq_some_iff.mp (List.getElem?_map ▸ found)
      have inside : place < (heap.items ref).size := size stored
      rw [item, position_ofNat "list" near inside]
      rw [Array.getElem?_toList] at stored
      simp [bind, Except.bind, pure, Except.pure, stored]
  | tuple id values =>
      cases sequence
      obtain ⟨value, stored, rfl⟩ := Option.map_eq_some_iff.mp (List.getElem?_map ▸ found)
      rw [item, position_ofNat "tuple" near (size stored)]
      simp [bind, Except.bind, pure, Except.pure, stored]
  | str id text =>
      cases sequence
      obtain ⟨c, stored, rfl⟩ := Option.map_eq_some_iff.mp (List.getElem?_map ▸ found)
      have inside : place < text.length := size stored
      rw [item, position_ofNat "string" near inside]
      simp [bind, Except.bind, pure, Except.pure, stored]
  | range progression =>
      cases sequence
      obtain ⟨i, stored, rfl⟩ := Option.map_eq_some_iff.mp (List.getElem?_map ▸ found)
      rw [item, position_ofNat "range object" near (progression.length_elements ▸ size stored)]
      rw [Range.getElem?_elements] at stored
      simp [bind, Except.bind, pure, Except.pure, stored]
  | _ => cases sequence

theorem cursor?_eq_cursorAt (sequence : v.contents? heap = some items) : v.cursor? heap = some (v.cursorAt 0) := by
  cases v <;> first | rfl | cases sequence

theorem dropBytes?_take (text : String) (place : Nat) :
    ∃ rest, Text.dropBytes? (String.ofList (text.toList.take place)).utf8ByteSize text = some rest ∧
      rest.copy.toList = text.toList.drop place := by
  obtain ⟨rest, dropped, same⟩ := Text.dropBytes?_append (String.ofList (text.toList.take place))
    (String.ofList (text.toList.drop place))
  rw [← String.ofList_append, List.take_append_drop, String.ofList_toList] at dropped
  exact ⟨rest, dropped, by rw [same, String.toList_ofList]⟩

/-- A cursor gives the items of the row one after the other. -/
theorem next?_cursorAt (sequence : v.contents? heap = some items) (place : Nat) :
    (v.cursorAt place).next? heap = items[place]?.map fun item => (item, v.cursorAt (place + 1)) := by
  cases v with
  | list ref =>
      cases sequence
      simp [cursorAt, Cursor.next?, Function.comp_def]
  | tuple id values =>
      cases sequence
      rcases Nat.lt_or_ge place values.length with inside | outside
      · rw [cursorAt, List.drop_eq_getElem_cons inside]
        simp [Cursor.next?, cursorAt, inside]
      · rw [cursorAt, List.drop_of_length_le outside]
        simp [Cursor.next?, outside]
  | str id text =>
      cases sequence
      obtain ⟨rest, dropped, same⟩ := dropBytes?_take text place
      have front : rest.front? = text.toList[place]? := by rw [String.Slice.front?_eq, same, List.head?_drop]
      simp only [cursorAt, Cursor.next?, dropped, List.getElem?_map]
      cases stored : text.toList[place]? with
      | none => simp [front, stored]
      | some c => simp [front, stored, List.take_add_one]
  | range progression =>
      cases sequence
      simp [cursorAt, Cursor.next?, Function.comp_def]
  | _ => cases sequence

theorem remaining_cursorAt (sequence : v.contents? heap = some items) (place : Nat) :
    (v.cursorAt place).remaining heap = items.length - place := by
  cases v with
  | list ref | tuple id values | range progression =>
      cases sequence
      simp [cursorAt, Cursor.remaining]
  | str id text =>
      cases sequence
      obtain ⟨rest, dropped, same⟩ := dropBytes?_take text place
      simp [cursorAt, Cursor.remaining, dropped, ← String.length_toList, same]
  | _ => cases sequence

theorem take_cursorAt (sequence : v.contents? heap = some items) (count : Nat) (taken : List Draft)
    (within : place + count ≤ items.length) :
    (v.cursorAt place).take heap count taken =
      (taken.reverse ++ (items.drop place).take count, v.cursorAt (place + count)) := by
  induction count generalizing place taken with
  | zero => simp [Cursor.take]
  | succ count ih =>
      have inside : place < items.length := by omega
      rw [Cursor.take, next?_cursorAt sequence, List.getElem?_eq_getElem inside]
      simp only [Option.map_some]
      rw [ih _ (by omega), List.drop_eq_getElem_cons inside, List.take_succ_cons, List.reverse_cons,
        List.append_assoc, List.singleton_append, Nat.add_assoc, Nat.add_comm 1]

/-- A cursor over a text stands where a character starts or the text ends. -/
theorem cursorAt_str (id : Nat) (text : String) (place : Nat) :
    ∃ offset, (Value.str id text).cursorAt place = .text text offset ∧ String.Pos.Raw.IsValid text ⟨offset⟩ :=
  ⟨_, rfl, String.Pos.Raw.isValid_iff_exists_take_toList.mpr ⟨place, rfl⟩⟩

end

end Value

/-- What an item becomes once it is placed. A character becomes a text with an identity of its own. -/
inductive Draft.Becomes : Draft → Value → Prop where
  | value (value : Value) : Becomes (.value value) value
  | str (id : Nat) (text : String) : Becomes (.str text) (.str id text)

theorem Value.becomes_of_contents? {heap : Heap} {v : Value} {items : List Draft} {draft : Draft}
    (sequence : v.contents? heap = some items) (member : draft ∈ items) : ∃ value, draft.Becomes value := by
  cases v with
  | list ref | tuple id values | range progression =>
      cases sequence
      obtain ⟨_, _, rfl⟩ := List.mem_map.mp member
      exact ⟨_, .value _⟩
  | str id text =>
      cases sequence
      obtain ⟨_, _, rfl⟩ := List.mem_map.mp member
      exact ⟨_, .str 0 _⟩
  | _ => cases sequence

namespace Heap

/-- Placing an item takes no more than an identity. -/
theorem place_item {draft : Draft} (heap : Heap) (becomes : ∃ value, draft.Becomes value) :
    ∃ value born, heap.place draft = (value, { heap with born }) ∧ draft.Becomes value := by
  obtain ⟨value, became⟩ := becomes
  cases became with
  | value => exact ⟨value, heap.born, rfl, .value value⟩
  | str id text => exact ⟨.str heap.born text, heap.born + 1, rfl, .str heap.born text⟩

theorem placeAll_items {drafts : List Draft} (placed : List Value) (heap : Heap)
    (becomes : ∀ draft ∈ drafts, ∃ value, draft.Becomes value) :
    ∃ values born, heap.placeAll placed drafts = (placed.reverse ++ values, { heap with born }) ∧
      List.Forall₂ Draft.Becomes drafts values := by
  induction drafts generalizing placed heap with
  | nil => exact ⟨[], heap.born, by simp [placeAll], .nil⟩
  | cons draft drafts ih =>
      obtain ⟨value, born, first, became⟩ := heap.place_item (becomes draft List.mem_cons_self)
      obtain ⟨values, last, rest, became'⟩ := ih (value :: placed) { heap with born } fun other member =>
        becomes other (List.mem_cons_of_mem draft member)
      refine ⟨value :: values, last, ?_, .cons became became'⟩
      simp [placeAll, first, rest]

end Heap

end BlockVM
