import BlockVM.Proofs.ResultLimits

namespace BlockVM

/-! Items of lists. An index denotes one place of a list or none, for reading and for writing alike. Writing changes
that place and nothing else, and whoever holds the list finds it changed. -/

namespace Value

/-- An integer or truth value that denotes this place among `size` items. -/
def Picks (size : Nat) (index : Value) (place : Nat) : Prop :=
  ∃ i, index.int? = some i ∧ Denotes size i.toInt place

section

variable {heap after : Heap} {ref : ListRef} {index value : Value} {size place : Nat}

theorem Picks.unique {other : Nat} (first : Picks size index place) (second : Picks size index other) :
    place = other := by
  obtain ⟨i, whole, inside, denoted⟩ := first
  obtain ⟨j, again, within, also⟩ := second
  obtain rfl : i = j := Option.some_inj.mp (whole.symm.trans again)
  omega

/-- An integer or truth value that is in range for `size` items. -/
def InRange (size : Nat) (index : Value) : Prop :=
  ∃ i, index.int? = some i ∧ -(size : Int) ≤ i.toInt ∧ i.toInt < size

theorem exists_picks_iff : (∃ place, Picks size index place) ↔ InRange size index := by
  constructor
  · rintro ⟨place, i, whole, inside, denoted⟩
    exact ⟨i, whole, by omega, by omega⟩
  · rintro ⟨i, whole, lower, upper⟩
    by_cases negative : i.toInt < 0
    · exact ⟨(i.toInt + size).toNat, i, whole, by omega, .inr (by omega)⟩
    · exact ⟨i.toInt.toNat, i, whole, by omega, .inl (by omega)⟩

/-- What is wrong with an index that is not in range: the type, or else the number. -/
def complaint (index : Value) : ExceptionKind :=
  if index.int? = none then .typeError else .indexError

theorem position_of_picks (container : String) (fits : size ≤ Word.greatest) (picks : Picks size index place) :
    index.position size container = .ok place := by
  obtain ⟨i, whole, denotes⟩ := picks
  exact position_of_denotes container whole (by rwa [Nat.min_eq_left fits])

theorem position_of_not_inRange (container : String) (fits : size ≤ Word.greatest) (beyond : ¬ InRange size index) :
    RaisesKind index.complaint (index.position size container) := by
  unfold complaint
  cases whole : index.int? with
  | none => exact ⟨_, by rw [position, whole], rfl⟩
  | some i =>
      refine ⟨_, position_outside container whole ?_, rfl⟩
      rw [Nat.min_eq_left fits]
      rintro place denotes
      exact beyond (exists_picks_iff.mp ⟨place, i, whole, denotes⟩)

theorem item_list (heap : Heap) (ref : ListRef) (index : Value) : item heap (.list ref) index =
    (index.position (heap.items ref).size "list").map fun i => .value ((heap.items ref).getD i .nothing) := by
  rw [item]
  cases index.position (heap.items ref).size "list" <;> rfl

theorem setItem_list (heap : Heap) (ref : ListRef) (index value : Value) : setItem heap (.list ref) index value =
    (index.position (heap.items ref).size "list assignment").map fun i =>
      heap.updateItems ref (·.setIfInBounds i value) := by
  rw [setItem]
  cases index.position (heap.items ref).size "list assignment" <;> rfl

theorem item_of_picks (fits : (heap.items ref).size ≤ Word.greatest)
    (picks : Picks (heap.items ref).size index place) :
    ∃ found, (heap.items ref)[place]? = some found ∧ item heap (.list ref) index = .ok (.value found) := by
  have inside : place < (heap.items ref).size := picks.elim fun _ denotes => denotes.2.1
  refine ⟨(heap.items ref)[place], Array.getElem?_eq_getElem inside, ?_⟩
  rw [item_list, position_of_picks "list" fits picks]
  simp [Except.map, inside]

end

end Value

namespace Heap

/-- The value stands at a place of a list, and all else is as before. -/
structure Stores (before : Heap) (ref : ListRef) (place : Nat) (value : Value) (after : Heap) : Prop where
  size : (after.items ref).size = (before.items ref).size
  here : (after.items ref)[place]? = some value
  elsewhere : ∀ other, other ≠ place → (after.items ref)[other]? = (before.items ref)[other]?
  lists : ∀ other, other ≠ ref → after.items other = before.items other
  cursors : after.cursors = before.cursors
  namespaces : after.namespaces = before.namespaces
  born : after.born = before.born

theorem items_updateItems {heap : Heap} {ref : ListRef} (change : Array Value → Array Value)
    (live : ref.index < heap.lists.size) : (heap.updateItems ref change).items ref = change (heap.items ref) := by
  simp [items, updateItems, live, Array.getElem_modify_self]

theorem items_updateItems_of_ne {heap : Heap} {ref other : ListRef} (change : Array Value → Array Value)
    (apart : other ≠ ref) : (heap.updateItems ref change).items other = heap.items other := by
  have places : ref.index ≠ other.index := by
    intro same
    exact apart (by cases ref; cases other; exact congrArg ListRef.mk same.symm)
  simp [items, updateItems, Array.getElem?_modify, places]

theorem stores_updateItems {heap : Heap} {ref : ListRef} {place : Nat} (value : Value)
    (inside : place < (heap.items ref).size) :
    heap.Stores ref place value (heap.updateItems ref (·.setIfInBounds place value)) := by
  have live : ref.index < heap.lists.size := by
    by_contra absent
    simp [items, absent] at inside
  have items := items_updateItems (·.setIfInBounds place value) live
  exact {
    size := by rw [items, Array.size_setIfInBounds]
    here := by rw [items, Array.getElem?_setIfInBounds_self_of_lt inside]
    elsewhere := fun other apart => by rw [items, Array.getElem?_setIfInBounds_ne apart.symm]
    lists := fun other apart => items_updateItems_of_ne _ apart
    cursors := rfl
    namespaces := rfl
    born := rfl }

end Heap

namespace Value

variable {heap after : Heap} {ref : ListRef} {index value : Value} {place : Nat}

theorem setItem_of_picks (fits : (heap.items ref).size ≤ Word.greatest)
    (picks : Picks (heap.items ref).size index place) :
    ∃ after, setItem heap (.list ref) index value = .ok after ∧ heap.Stores ref place value after := by
  have inside : place < (heap.items ref).size := picks.elim fun _ denotes => denotes.2.1
  refine ⟨_, ?_, Heap.stores_updateItems value inside⟩
  rw [setItem_list, position_of_picks "list assignment" fits picks]
  rfl

theorem item_of_stores (fits : (heap.items ref).size ≤ Word.greatest) (stores : heap.Stores ref place value after)
    {other : Value} (picks : Picks (heap.items ref).size other place) :
    item after (.list ref) other = .ok (.value value) := by
  rw [← stores.size] at fits picks
  obtain ⟨found, stored, given⟩ := item_of_picks fits picks
  obtain rfl : value = found := Option.some_inj.mp (stores.here.symm.trans stored)
  exact given

/-- An index that denotes another place, or none, gives what it gave. -/
theorem item_of_stores_ne (fits : (heap.items ref).size ≤ Word.greatest) (stores : heap.Stores ref place value after)
    {other : Value} (apart : ¬ Picks (heap.items ref).size other place) :
    item after (.list ref) other = item heap (.list ref) other := by
  by_cases inside : InRange (heap.items ref).size other
  · obtain ⟨somewhere, picks⟩ := exists_picks_iff.mpr inside
    have places : somewhere ≠ place := by
      rintro rfl
      exact apart picks
    obtain ⟨found, stored, given⟩ := item_of_picks fits picks
    rw [← stores.size] at fits picks
    obtain ⟨again, restored, still⟩ := item_of_picks fits picks
    rw [stores.elsewhere somewhere places, stored] at restored
    cases restored
    rw [given, still]
  · obtain ⟨fault, failed, _⟩ := position_of_not_inRange "list" fits inside
    rw [item_list, item_list, stores.size, failed]
    rfl

theorem item_of_not_inRange (fits : (heap.items ref).size ≤ Word.greatest)
    (beyond : ¬ InRange (heap.items ref).size index) : RaisesKind index.complaint (item heap (.list ref) index) := by
  obtain ⟨fault, failed, kind⟩ := position_of_not_inRange "list" fits beyond
  exact ⟨fault, by rw [item_list, failed]; rfl, kind⟩

theorem setItem_of_not_inRange (fits : (heap.items ref).size ≤ Word.greatest)
    (beyond : ¬ InRange (heap.items ref).size index) :
    RaisesKind index.complaint (setItem heap (.list ref) index value) := by
  obtain ⟨fault, failed, kind⟩ := position_of_not_inRange "list assignment" fits beyond
  exact ⟨fault, by rw [setItem_list, failed]; rfl, kind⟩

end Value

namespace Exec

variable {a : Active} {rest : List Value} {container index value : Value} (operand : Operand Value)

theorem execute_storeSubscr (stack : a.frame.stack = index :: container :: value :: rest) :
    execute .storeSubscr operand a = thenNext (do
      let heap ← act (Act.ofExcept (Value.setItem a.world.heap container index value))
      act (Act.changeHeap fun _ => heap)) (a.lowered rest) := by
  obtain ⟨world, frame, recovered⟩ := a
  obtain ⟨⟩ := frame
  cases stack
  rfl

theorem storeSubscr_ok {after : Heap} (stack : a.frame.stack = index :: container :: value :: rest)
    (stored : Value.setItem a.world.heap container index value = .ok after) :
    execute .storeSubscr operand a = .ok .next ((a.lowered rest).setHeap after) := by
  rw [execute_storeSubscr operand stack, stored]
  rfl

theorem storeSubscr_error {fault : Fault} (stack : a.frame.stack = index :: container :: value :: rest)
    (failed : Value.setItem a.world.heap container index value = .error fault) :
    execute .storeSubscr operand a = .error (.raised fault) (a.lowered rest) := by
  rw [execute_storeSubscr operand stack, failed]
  rfl

end Exec

/-- How reading and writing the items of a list go together. -/
structure ArrayLaws (heap : Heap) (ref : ListRef) : Prop where
  readable : ∀ index, (∃ draft, Value.item heap (.list ref) index = .ok draft) ↔
    Value.InRange (heap.items ref).size index
  writable : ∀ index value, (∃ after, Value.setItem heap (.list ref) index value = .ok after) ↔
    Value.InRange (heap.items ref).size index
  read : ∀ index place, Value.Picks (heap.items ref).size index place →
    ∃ found, (heap.items ref)[place]? = some found ∧ Value.item heap (.list ref) index = .ok (.value found)
  write : ∀ index place value, Value.Picks (heap.items ref).size index place →
    ∃ after, Value.setItem heap (.list ref) index value = .ok after ∧ heap.Stores ref place value after ∧
      ∀ holder : Value, holder.same (.list ref) = true → ∀ other,
        (Value.Picks (heap.items ref).size other place → Value.item after holder other = .ok (.value value)) ∧
        (¬ Value.Picks (heap.items ref).size other place → Value.item after holder other = Value.item heap holder other)
  unreadable : ∀ index, ¬ Value.InRange (heap.items ref).size index →
    RaisesKind index.complaint (Value.item heap (.list ref) index)
  unwritable : ∀ index value, ¬ Value.InRange (heap.items ref).size index →
    RaisesKind index.complaint (Value.setItem heap (.list ref) index value)
  /-- The instruction takes its operands off and leaves the heap that the assignment gives. -/
  stored : ∀ operand index value rest after (a : Active), a.world.heap = heap →
    a.frame.stack = index :: .list ref :: value :: rest → Value.setItem heap (.list ref) index value = .ok after →
      execute .storeSubscr operand a = .ok .next ((a.lowered rest).setHeap after)
  /-- If the assignment fails, the instruction has taken its operands off and changed nothing else. -/
  refused : ∀ operand index value rest fault (a : Active), a.world.heap = heap →
    a.frame.stack = index :: .list ref :: value :: rest → Value.setItem heap (.list ref) index value = .error fault →
      execute .storeSubscr operand a = .error (.raised fault) (a.lowered rest)

/-- The laws hold of every list. No memory holds one that is longer than a word can count. -/
theorem array_laws {heap : Heap} {ref : ListRef} (fits : (heap.items ref).size ≤ Word.greatest) :
    ArrayLaws heap ref where
  readable index := by
    constructor
    · rintro ⟨draft, found⟩
      by_contra beyond
      obtain ⟨fault, failed, _⟩ := Value.item_of_not_inRange fits beyond
      cases found.symm.trans failed
    · intro inside
      obtain ⟨place, picks⟩ := Value.exists_picks_iff.mpr inside
      obtain ⟨found, _, given⟩ := Value.item_of_picks fits picks
      exact ⟨_, given⟩
  writable index value := by
    constructor
    · rintro ⟨after, stored⟩
      by_contra beyond
      obtain ⟨fault, failed, _⟩ := Value.setItem_of_not_inRange fits beyond
      cases stored.symm.trans failed
    · intro inside
      obtain ⟨place, picks⟩ := Value.exists_picks_iff.mpr inside
      obtain ⟨after, stored, _⟩ := Value.setItem_of_picks fits picks
      exact ⟨after, stored⟩
  read index place picks := Value.item_of_picks fits picks
  write index place value picks := by
    obtain ⟨after, stored, stores⟩ := Value.setItem_of_picks fits picks
    refine ⟨after, stored, stores, fun holder same other => ?_⟩
    obtain rfl : holder = .list ref := by
      cases holder <;> simp_all [Value.same]
    exact ⟨Value.item_of_stores fits stores, Value.item_of_stores_ne fits stores⟩
  unreadable index beyond := Value.item_of_not_inRange fits beyond
  unwritable index value beyond := Value.setItem_of_not_inRange fits beyond
  stored operand index value rest after a holds stack stored :=
    Exec.storeSubscr_ok operand stack (by rw [holds, stored])
  refused operand index value rest fault a holds stack failed :=
    Exec.storeSubscr_error operand stack (by rw [holds, failed])

/-- Of three items, the second is denoted by a truth value, by one and by minus two. -/
theorem array_laws_second :
    let heap : Heap := { Heap.empty with lists := #[#[.int 7, .int 8, .int 9]] }
    Value.Picks 3 (.bool true) 1 ∧ Value.Picks 3 (.int (-2)) 1 ∧
      ∃ after, Value.setItem heap (.list ⟨0⟩) (.bool true) .nothing = .ok after ∧
        Value.item after (.list ⟨0⟩) (.int (-2)) = .ok (.value .nothing) ∧
        Value.item after (.list ⟨0⟩) (.int (-1)) = .ok (.value (.int 9)) ∧
        RaisesKind .indexError (Value.setItem after (.list ⟨0⟩) (.int (-0x8000000000000000)) .nothing) := by
  intro heap
  have first : Value.Picks 3 (.bool true) 1 := ⟨1, rfl, by decide, .inl rfl⟩
  have second : Value.Picks 3 (.int (-2)) 1 := ⟨-2, rfl, by decide, .inr rfl⟩
  have third : Value.Picks 3 (.int (-1)) 2 := ⟨-1, rfl, by decide, .inr rfl⟩
  have laws : ArrayLaws heap ⟨0⟩ := array_laws (by decide)
  obtain ⟨after, stored, stores, seen⟩ := laws.write (.bool true) 1 .nothing first
  have here := (seen (.list ⟨0⟩) rfl (.int (-2))).1 second
  have apart : ¬ Value.Picks 3 (.int (-1)) 1 := fun picks => by cases picks.unique third
  have there := (seen (.list ⟨0⟩) rfl (.int (-1))).2 apart
  refine ⟨first, second, after, stored, here, there, ?_⟩
  refine (array_laws (by rw [stores.size]; decide)).unwritable (.int (-0x8000000000000000)) .nothing ?_
  rw [stores.size]
  rintro ⟨i, whole, lower, _⟩
  cases whole
  exact absurd lower (by decide)

end BlockVM
