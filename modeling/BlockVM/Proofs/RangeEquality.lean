import BlockVM.Proofs.IteratorItems

namespace BlockVM

/-! Equality of ranges against equality of what they stand for. Two ranges that are equal have the same elements
in the same order. The other way round there is one exception: a range with a single element never takes a
step, but its step is compared nevertheless. -/

namespace Range

variable {a b r : Range}

/-- The same elements in the same order. -/
structure SameSequence (a b : Range) : Prop where
  size : a.size = b.size
  get? : ∀ index, a.get? index = b.get? index

theorem sameSequence_iff : a.SameSequence b ↔ a.elements = b.elements := by
  constructor
  · intro same
    apply List.ext_getElem?
    intro index
    rw [getElem?_elements, getElem?_elements, same.get?]
  · intro same
    refine ⟨?_, fun index => ?_⟩
    · rw [← length_elements a, same, length_elements b]
    · rw [← getElem?_elements a, same, getElem?_elements b]

theorem get?_zero (nonempty : 0 < r.size) : r.get? 0 = some r.start := by
  rw [get?_eq_some_iff]
  exact ⟨nonempty, by simp [term]⟩

namespace SameSequence

theorem of_empty (first : a.size = 0) (second : b.size = 0) : a.SameSequence b where
  size := by rw [first, second]
  get? index := by rw [get?_of_le (by omega), get?_of_le (by omega)]

theorem of_fields (size : a.size = b.size) (start : a.start = b.start) (step : a.step = b.step) : a.SameSequence b where
  size := size
  get? index := by rw [Range.get?, Range.get?, size, start, step]

variable (same : a.SameSequence b)

include same

theorem start (nonempty : 0 < a.size) : a.start = b.start := by
  have first := same.get? 0
  rw [get?_zero nonempty, get?_zero (same.size ▸ nonempty)] at first
  exact Option.some_inj.mp first

/-- The first two elements give the step away. -/
theorem step (several : 1 < a.size) : a.step = b.step := by
  obtain ⟨second, found⟩ := get?_of_lt several
  have left := (get?_eq_some_iff.mp found).2
  have right := (get?_eq_some_iff.mp ((same.get? 1).symm.trans found)).2
  rw [left, term, term, same.start (by omega)] at right
  exact Int64.toInt_inj.mp (by simpa using right)

end SameSequence

theorem equal_iff : a.equal b = true ↔ a.SameSequence b ∧ (a.size = 1 → a.step = b.step) := by
  simp only [equal, isEmpty, Bool.or_eq_true, Bool.and_eq_true, beq_iff_eq]
  constructor
  · rintro (⟨first, second⟩ | ⟨⟨size, start⟩, step⟩)
    · exact ⟨.of_empty first second, by omega⟩
    · exact ⟨.of_fields size start step, fun _ => step⟩
  · rintro ⟨same, single⟩
    rcases Nat.eq_zero_or_pos a.size with empty | nonempty
    · exact .inl ⟨empty, same.size ▸ empty⟩
    · refine .inr ⟨⟨same.size, same.start nonempty⟩, ?_⟩
      rcases Nat.eq_or_lt_of_le (Nat.succ_le_of_lt nonempty) with one | several
      · exact single one.symm
      · exact same.step several

end Range

namespace Value

variable {heap : Heap} {codes : Code Value → Code Value → Option Bool} {room : Nat}

theorem allEqual_ints {xs ys : List Int64} (length : xs.length = ys.length) :
    allEqual (equalWithin heap codes (room + 1)) (xs.map .int) (ys.map .int) = some (decide (xs = ys)) := by
  induction xs generalizing ys with
  | nil => cases ys <;> simp_all [allEqual]
  | cons x xs ih =>
      cases ys with
      | nil => cases length
      | cons y ys =>
          have numbers : equalWithin heap codes (room + 1) (.int x) (.int y) = some (x == y) := rfl
          simp only [List.map_cons, allEqual, numbers]
          by_cases same : x = y
          · simp [same, ih (Nat.succ.inj length)]
          · simp [same]

theorem sameItems_ints (xs ys : List Int64) :
    sameItems (equalWithin heap codes (room + 1)) (xs.map .int) (ys.map .int) = some (decide (xs = ys)) := by
  rw [sameItems, List.length_map, List.length_map]
  split
  · exact allEqual_ints ‹_›
  · have differ : xs ≠ ys := by rintro rfl; contradiction
    simp [differ]

end Value

/-- The list holds the elements of the range. -/
def Heap.Materializes (heap : Heap) (ref : ListRef) (r : Range) : Prop :=
  (heap.items ref).toList = r.elements.map .int

theorem Value.equal?_lists {heap : Heap} {first second : ListRef} {a b : Range}
    (left : heap.Materializes first a) (right : heap.Materializes second b) :
    equal? heap (.list first) (.list second) = some (decide (a.elements = b.elements)) := by
  change (if first = second then some true else _) = _
  split
  · rename_i same
    subst same
    have row := List.map_injective_iff.mpr (fun _ _ same => Value.int.inj same) (left.symm.trans right)
    simp [row]
  · rw [left, right, sameItems_ints]

theorem Draft.becomes_ints {ints : List Int64} {values : List Value}
    (became : List.Forall₂ Draft.Becomes (ints.map fun i => .value (.int i)) values) : values = ints.map .int := by
  rw [List.forall₂_map_left_iff] at became
  induction became with
  | nil => rfl
  | cons first _ ih =>
      cases first
      rw [ih, List.map_cons]

/-- The list of a range, if it is not refused, is a new one that holds the elements. -/
theorem Builtin.list_of_range {r : Range} {world after : World} {made : Value}
    (ran : call .list [.range r] world = .ok made after) :
    made = .list ⟨world.heap.lists.size⟩ ∧
      after.heap.lists = world.heap.lists.push (r.elements.map Value.int).toArray := by
  have sequence : (Value.range r).contents? world.heap = some (r.elements.map fun i => .value (.int i)) := rfl
  rcases decision : world.refusalOf? (r.elements.map fun i => Draft.value (.int i)).length with _ | fault
  · obtain ⟨values, born, made, became⟩ := list_of_sequence sequence decision
    rw [made] at ran
    cases ran
    exact ⟨rfl, by rw [Draft.becomes_ints became]⟩
  · rw [list_refused sequence decision] at ran
    cases ran

/-- Equal ranges have the same elements, and so the same lists. Ranges with the same elements are equal, but for
those with one element that differ in the step. -/
theorem range_equality_exact (a b : Range) (heap : Heap) :
    (Value.equal? heap (.range a) (.range b) = some true ↔ a.SameSequence b ∧ (a.size = 1 → a.step = b.step)) ∧
    (∀ first second, heap.Materializes first a → heap.Materializes second b →
      (Value.equal? heap (.list first) (.list second) = some true ↔ a.SameSequence b)) ∧
    ∀ world made between other after, Builtin.call .list [.range a] world = .ok made between →
      Builtin.call .list [.range b] between = .ok other after →
      (Value.equal? after.heap made other = some true ↔ a.SameSequence b) := by
  have lists {heap : Heap} {first second : ListRef} (left : heap.Materializes first a)
      (right : heap.Materializes second b) :
      Value.equal? heap (.list first) (.list second) = some true ↔ a.SameSequence b := by
    simp [Value.equal?_lists left right, Range.sameSequence_iff]
  refine ⟨?_, fun _ _ => lists, ?_⟩
  · change some (a.equal b) = some true ↔ _
    rw [Option.some_inj, Range.equal_iff]
  · intro world made between other after first second
    obtain ⟨rfl, grown⟩ := Builtin.list_of_range first
    obtain ⟨rfl, again⟩ := Builtin.list_of_range second
    apply lists
    · simp [Heap.Materializes, Heap.items, again, grown, Array.getElem_push]
    · simp [Heap.Materializes, Heap.items, again]

/-- Both are zero, two and four. -/
theorem range_equality_exact_evens :
    Value.equal? .empty (.range ⟨0, 5, 2⟩) (.range ⟨0, 6, 2⟩) = some true ∧
      (Range.mk 0 5 2).SameSequence ⟨0, 6, 2⟩ := by
  have equal : Value.equal? .empty (.range ⟨0, 5, 2⟩) (.range ⟨0, 6, 2⟩) = some true := rfl
  exact ⟨equal, ((range_equality_exact ⟨0, 5, 2⟩ ⟨0, 6, 2⟩ .empty).1.mp equal).1⟩

/-- Two ranges that both hold zero alone are not equal, though their lists are. -/
theorem single_element_ranges_unequal :
    (Range.mk 0 1 1).SameSequence ⟨0, 1, 2⟩ ∧
      Value.equal? .empty (.range ⟨0, 1, 1⟩) (.range ⟨0, 1, 2⟩) = some false ∧
      ∃ between after, Builtin.call .list [.range ⟨0, 1, 1⟩] default = .ok (.list ⟨0⟩) between ∧
        Builtin.call .list [.range ⟨0, 1, 2⟩] between = .ok (.list ⟨1⟩) after ∧
        Value.equal? after.heap (.list ⟨0⟩) (.list ⟨1⟩) = some true :=
  ⟨Range.sameSequence_iff.mpr (by decide), rfl, _, _, rfl, rfl, rfl⟩

end BlockVM
