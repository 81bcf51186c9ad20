import BlockVM.Proofs.Sequences
import BlockVM.Proofs.WorldOperations

namespace BlockVM

/-! An iterator gives each item of its sequence once and in order, in whatever way the items are asked for: one by
one or all that are left, through any value that is the same iterator, with other work in between. -/

namespace Act

theorem heap_run (world : World) : heap world = .ok world.heap world := rfl

theorem checkResult_run (bytes : Nat) (world : World) :
    checkResult bytes world = ofLimit (world.tracker.checkResult bytes) world := rfl

end Act

/-- Why a list of so many items is not made. -/
def World.refusalOf? (world : World) (count : Nat) : Option Fault :=
  match world.tracker.checkResult (Size.mul count Size.slot) with
  | .error error => some (.limit error)
  | .ok _ => if world.heap.platform.addressable < count * Size.slot then some .resultTooLarge else none

theorem World.kind_of_refusalOf? {world : World} {count : Nat} {fault : Fault}
    (refused : world.refusalOf? count = some fault) : fault.kind = .memoryError := by
  simp only [refusalOf?, Tracker.checkResult, Tracker.checkLargeResult] at refused
  split at refused
  · rename_i error exceeded
    cases refused
    have size : ∃ limit requested, error = .resultSize limit requested := by grind
    obtain ⟨limit, requested, rfl⟩ := size
    rfl
  · split at refused <;> cases refused
    rfl

/-- An iterator stands behind what was taken from it. Nothing else notices. -/
def Heap.passed (value : Value) (behind : Cursor) (heap : Heap) : Heap :=
  match value with
  | .iterator ref => heap.setCursor ref behind
  | _ => heap

/-- Either the whole rest is taken or nothing changes. -/
theorem Act.drain_eq {world : World} {value : Value} {cursor : Cursor}
    (found : value.cursor? world.heap = some cursor) :
    drain value world =
      match world.refusalOf? (cursor.remaining world.heap) with
      | some fault => .error (.raised fault) world
      | none =>
          let (drafts, behind) := cursor.take world.heap (cursor.remaining world.heap) []
          allocate (fun heap => (heap.passed value behind).placeAll [] drafts) world := by
  simp only [drain, bind, EStateM.bind, heap_run, found, checkResult_run, World.refusalOf?]
  cases world.tracker.checkResult (Size.mul (cursor.remaining world.heap) Size.slot) with
  | error error => rfl
  | ok _ =>
      by_cases vast : world.heap.platform.addressable < cursor.remaining world.heap * Size.slot
      · simp only [vast, if_true]
        rfl
      · simp only [vast, if_false]
        cases value <;> rfl

theorem Value.contents?_congr {before after : Heap} (same : after.lists = before.lists) (v : Value) :
    v.contents? after = v.contents? before := by
  cases v <;> simp [contents?, Heap.items, same]

section

variable {v value : Value} {items : List Draft} {world : World} {ref : CursorRef} {place : Nat}

theorem Act.iterate_sequence (sequence : v.contents? world.heap = some items) :
    iterate v world = allocate (Heap.newIterator (v.cursorAt 0)) world := by
  have found := Value.cursor?_eq_cursorAt sequence
  cases v with
  | list | tuple | str | range => simp only [iterate, bind, EStateM.bind, heap_run, found]
  | _ => cases sequence

theorem Act.next_spent (sequence : v.contents? world.heap = some items)
    (stands : world.heap.cursor ref = v.cursorAt place) (spent : items.length ≤ place) :
    next (.iterator ref) world = .ok none world := by
  apply next_none
  rw [stands, Value.next?_cursorAt sequence, List.getElem?_eq_none spent, Option.map_none]

theorem Act.next_item {heap : Heap} {draft : Draft} (sequence : v.contents? heap = some items)
    (stands : heap.cursor ref = v.cursorAt place) (left : items[place]? = some draft) :
    ∃ item born, draft.Becomes item ∧ ∀ world : World, world.heap = heap → next (.iterator ref) world =
      .ok (some item) { world with heap := { heap.setCursor ref (v.cursorAt (place + 1)) with born } } := by
  have found : (heap.cursor ref).next? heap = some (draft, v.cursorAt (place + 1)) := by
    rw [stands, Value.next?_cursorAt sequence, left, Option.map_some]
  obtain ⟨item, born, placed, became⟩ := (heap.setCursor ref (v.cursorAt (place + 1))).place_item
    (Value.becomes_of_contents? sequence (List.mem_of_getElem? left))
  refine ⟨item, born, became, ?_⟩
  rintro world rfl
  rw [next_some found, placed]

theorem Act.drain_rest (sequence : v.contents? world.heap = some items)
    (stands : value.cursor? world.heap = some (v.cursorAt place)) (within : place ≤ items.length)
    (accepted : world.refusalOf? (items.length - place) = none) :
    ∃ rest born, drain value world =
        .ok rest { world with heap := { world.heap.passed value (v.cursorAt items.length) with born } } ∧
      List.Forall₂ Draft.Becomes (items.drop place) rest := by
  have becomes : ∀ draft ∈ items.drop place, ∃ value, draft.Becomes value := fun draft member =>
    Value.becomes_of_contents? sequence (List.mem_of_mem_drop member)
  obtain ⟨rest, born, placed, became⟩ :=
    (world.heap.passed value (v.cursorAt items.length)).placeAll_items [] becomes
  refine ⟨rest, born, ?_, became⟩
  have all : place + (items.length - place) = items.length := by omega
  have taken := Value.take_cursorAt sequence (items.length - place) [] all.le
  rw [drain_eq stands, Value.remaining_cursorAt sequence, accepted, taken, all, List.take_of_length_le (by simp)]
  simp only [allocate, List.reverse_nil, List.nil_append, placed]

theorem Act.drain_refused (sequence : v.contents? world.heap = some items)
    (stands : value.cursor? world.heap = some (v.cursorAt place)) {fault : Fault}
    (refused : world.refusalOf? (items.length - place) = some fault) :
    drain value world = .error (.raised fault) world := by
  rw [drain_eq stands, Value.remaining_cursorAt sequence, refused]

theorem Heap.passed_sequence (heap : Heap) {other : Heap} (sequence : v.contents? other = some items)
    (behind : Cursor) : heap.passed v behind = heap := by
  cases v <;> first | rfl | cases sequence

theorem Builtin.call_list (value : Value) (world : World) : call .list [value] world =
    match Act.drain value world with
    | .ok items after => Act.place (.list items.toArray) after
    | .error failure after => .error failure after := by
  change EStateM.bind (Act.drain value) (fun items => Act.place (.list items.toArray)) world = _
  unfold EStateM.bind
  cases Act.drain value world <;> rfl

/-- The list of a sequence is a new one with the same items. -/
theorem Builtin.list_of_sequence (sequence : v.contents? world.heap = some items)
    (accepted : world.refusalOf? items.length = none) :
    ∃ values born, call .list [v] world = .ok (.list ⟨world.heap.lists.size⟩)
        { world with heap := { world.heap with lists := world.heap.lists.push values.toArray, born } } ∧
      List.Forall₂ Draft.Becomes items values := by
  obtain ⟨values, born, drained, became⟩ :=
    Act.drain_rest sequence (Value.cursor?_eq_cursorAt sequence) (Nat.zero_le _) accepted
  refine ⟨values, born, ?_, became⟩
  rw [call_list, drained, Heap.passed_sequence world.heap sequence]
  rfl

theorem Builtin.list_refused (sequence : v.contents? world.heap = some items) {fault : Fault}
    (refused : world.refusalOf? items.length = some fault) :
    call .list [v] world = .error (.raised fault) world := by
  rw [call_list, Act.drain_refused sequence (Value.cursor?_eq_cursorAt sequence) refused]

end

namespace Iteration

/-- One request to an iterator, made through any value that is the same, and the items that it gives. -/
inductive Request (iterator : Value) (before : World) : List Value → World → Prop where
  | next {through : Value} {item : Option Value} {after : World} (same : through.same iterator = true)
      (answered : Act.next through before = .ok item after) : Request iterator before item.toList after
  | accepted {through : Value} {rest : List Value} {after : World} (same : through.same iterator = true)
      (drained : Act.drain through before = .ok rest after) : Request iterator before rest after
  | refused {through : Value} {failure : Failure} {after : World} (same : through.same iterator = true)
      (refusal : Act.drain through before = .error failure after) : Request iterator before [] after

/-- Other work, which may do anything but move the iterator or change the sequence. -/
structure Undisturbed (v : Value) (ref : CursorRef) (before after : Heap) : Prop where
  cursor : after.cursors[ref.index]? = before.cursors[ref.index]?
  contents : v.contents? after = v.contents? before

/-- What an iterator has delivered, in order, since it stood in the world `first`. -/
inductive Delivered (v : Value) (ref : CursorRef) (first : World) : List Value → World → Prop where
  | none : Delivered v ref first [] first
  | request {delivered given : List Value} {now after : World} (before : Delivered v ref first delivered now)
      (requested : Request (.iterator ref) now given after) : Delivered v ref first (delivered ++ given) after
  | meanwhile {delivered : List Value} {now after : World} (before : Delivered v ref first delivered now)
      (undisturbed : Undisturbed v ref now.heap after.heap) : Delivered v ref first delivered after

/-- The iterator stands behind the items that it has delivered, and these are the first of the sequence. -/
structure Stands (v : Value) (items : List Draft) (ref : CursorRef) (delivered : List Value) (heap : Heap) : Prop where
  sequence : v.contents? heap = some items
  stored : heap.cursors[ref.index]? = some (v.cursorAt delivered.length)
  became : List.Forall₂ Draft.Becomes (items.take delivered.length) delivered

namespace Stands

variable {v : Value} {items : List Draft} {ref : CursorRef} {delivered given : List Value} {heap heap' : Heap}
  {now after : World}

theorem within (stands : Stands v items ref delivered heap) : delivered.length ≤ items.length := by
  have size := stands.became.length_eq
  rw [List.length_take] at size
  omega

theorem cursor (stands : Stands v items ref delivered heap) : heap.cursor ref = v.cursorAt delivered.length := by
  rw [Heap.cursor, Array.getD_eq_getD_getElem?, stands.stored, Option.getD_some]

theorem found (stands : Stands v items ref delivered heap) :
    (Value.iterator ref).cursor? heap = some (v.cursorAt delivered.length) :=
  congrArg some stands.cursor

theorem remaining (stands : Stands v items ref delivered heap) :
    (heap.cursor ref).remaining heap + delivered.length = items.length := by
  rw [stands.cursor, Value.remaining_cursorAt stands.sequence, Nat.sub_add_cancel stands.within]

theorem undisturbed (stands : Stands v items ref delivered heap) (undisturbed : Undisturbed v ref heap heap') :
    Stands v items ref delivered heap' :=
  ⟨undisturbed.contents.trans stands.sequence, undisturbed.cursor.trans stands.stored, stands.became⟩

/-- Delivering the next items moves the iterator behind them. -/
theorem advance (stands : Stands v items ref delivered heap) {place : Nat}
    (became : List.Forall₂ Draft.Becomes ((items.drop delivered.length).take given.length) given)
    (far : delivered.length + given.length = place) (born : Nat) :
    Stands v items ref (delivered ++ given) { heap.setCursor ref (v.cursorAt place) with born } where
  sequence := (Value.contents?_congr rfl v).trans stands.sequence
  stored := by
    obtain ⟨inside, _⟩ := Array.getElem?_eq_some_iff.mp stands.stored
    simp [Heap.setCursor, inside, far]
  became := by
    rw [List.length_append, List.take_add]
    exact List.rel_append stands.became became

theorem next (stands : Stands v items ref delivered now.heap) :
    ∃ item after, Act.next (.iterator ref) now = .ok item after ∧ (item = none ↔ delivered.length = items.length) ∧
      Stands v items ref (delivered ++ item.toList) after.heap := by
  have within := stands.within
  rcases left : items[delivered.length]? with _ | draft
  · have spent := List.getElem?_eq_none_iff.mp left
    refine ⟨none, now, Act.next_spent stands.sequence stands.cursor spent, by simp; omega, ?_⟩
    rwa [Option.toList_none, List.append_nil]
  · obtain ⟨inside, rfl⟩ := List.getElem?_eq_some_iff.mp left
    obtain ⟨item, born, became, gives⟩ := Act.next_item stands.sequence stands.cursor left
    refine ⟨some item, _, gives now rfl, by simp; omega, stands.advance ?_ rfl born⟩
    rw [List.drop_eq_getElem_cons inside]
    exact .cons became .nil

theorem accept (stands : Stands v items ref delivered now.heap)
    (accepted : now.refusalOf? (items.length - delivered.length) = none) :
    ∃ rest after, Act.drain (.iterator ref) now = .ok rest after ∧
      List.Forall₂ Draft.Becomes (items.drop delivered.length) rest ∧
      Stands v items ref (delivered ++ rest) after.heap := by
  obtain ⟨rest, born, gives, became⟩ := Act.drain_rest stands.sequence stands.found stands.within accepted
  have all : items.length - delivered.length = rest.length := by rw [← List.length_drop, became.length_eq]
  have within := stands.within
  refine ⟨rest, _, gives, became, stands.advance ?_ (by omega) born⟩
  rwa [List.take_of_length_le (by rw [List.length_drop, all])]

theorem refuse (stands : Stands v items ref delivered now.heap) {fault : Fault}
    (refused : now.refusalOf? (items.length - delivered.length) = some fault) :
    Act.drain (.iterator ref) now = .error (.raised fault) now :=
  Act.drain_refused stands.sequence stands.found refused

/-- Each request delivers the items that come next. -/
theorem request (stands : Stands v items ref delivered now.heap)
    (requested : Request (.iterator ref) now given after) : Stands v items ref (delivered ++ given) after.heap := by
  have only {through : Value} (same : through.same (.iterator ref) = true) : through = .iterator ref := by
    cases through <;> simp_all [Value.same]
  cases requested with
  | next same answered =>
      obtain ⟨item, later, gives, _, stands⟩ := stands.next
      rw [only same, gives] at answered
      cases answered
      exact stands
  | accepted same drained =>
      rw [only same] at drained
      rcases decision : now.refusalOf? (items.length - delivered.length) with _ | fault
      · obtain ⟨rest, later, gives, _, stands⟩ := stands.accept decision
        rw [gives] at drained
        cases drained
        exact stands
      · rw [stands.refuse decision] at drained
        cases drained
  | refused same refusal =>
      rw [only same] at refusal
      rcases decision : now.refusalOf? (items.length - delivered.length) with _ | fault
      · obtain ⟨rest, later, gives, _⟩ := stands.accept decision
        rw [gives] at refusal
        cases refusal
      · rw [stands.refuse decision] at refusal
        cases refusal
        rwa [List.append_nil]

end Stands

theorem Delivered.stands {v : Value} {items : List Draft} {ref : CursorRef} {first now : World}
    {delivered : List Value} (served : Delivered v ref first delivered now) (begins : Stands v items ref [] first.heap) :
    Stands v items ref delivered now.heap := by
  induction served with
  | none => exact begins
  | request _ requested ih => exact ih.request requested
  | meanwhile _ undisturbed ih => exact ih.undisturbed undisturbed

/-- An iterator that has delivered the values `past` agrees with its sequence, whose items are `items`. -/
structure Agrees (v : Value) (items : List Draft) (ref : CursorRef) (past : List Value) (now : World) : Prop where
  length : v.length? now.heap = some items.length
  subscripts : ∀ place draft, items[place]? = some draft → place < Word.greatest →
    Value.item now.heap v (.int (Int64.ofNat place)) = .ok draft
  delivered : List.Forall₂ Draft.Becomes (items.take past.length) past
  remaining : (now.heap.cursor ref).remaining now.heap + past.length = items.length
  boundary : ∀ id text, v = .str id text →
    ∃ offset, now.heap.cursor ref = .text text offset ∧ String.Pos.Raw.IsValid text ⟨offset⟩
  itself : Act.iterate (.iterator ref) now = .ok (.iterator ref) now
  next : ∃ item after, Act.next (.iterator ref) now = .ok item after ∧ (item = none ↔ past.length = items.length)
  accepted : now.refusalOf? (items.length - past.length) = none →
    ∃ rest after, Act.drain (.iterator ref) now = .ok rest after ∧
      List.Forall₂ Draft.Becomes (items.drop past.length) rest ∧
      (after.heap.cursor ref).remaining after.heap = 0 ∧ Act.next (.iterator ref) after = .ok none after
  refused : ∀ fault, now.refusalOf? (items.length - past.length) = some fault →
    fault.kind = .memoryError ∧ Act.drain (.iterator ref) now = .error (.raised fault) now

theorem Stands.agrees {v : Value} {items : List Draft} {ref : CursorRef} {delivered : List Value} {now : World}
    (stands : Stands v items ref delivered now.heap) : Agrees v items ref delivered now where
  length := by rw [Value.length?_eq_contents?, stands.sequence, Option.map_some]
  subscripts _ _ found near := Value.item_eq_contents? stands.sequence found near
  delivered := stands.became
  remaining := stands.remaining
  boundary := by
    rintro id text rfl
    rw [stands.cursor]
    exact Value.cursorAt_str id text delivered.length
  itself := rfl
  next := by
    obtain ⟨item, after, gives, last, _⟩ := stands.next
    exact ⟨item, after, gives, last⟩
  accepted := by
    intro accepted
    obtain ⟨rest, after, gives, became, ends⟩ := stands.accept accepted
    have all : (delivered ++ rest).length = items.length := by
      rw [List.length_append, ← became.length_eq, List.length_drop, Nat.add_sub_cancel' stands.within]
    have left := ends.remaining
    exact ⟨rest, after, gives, became, by omega, Act.next_spent ends.sequence ends.cursor all.ge⟩
  refused _ refused := ⟨World.kind_of_refusalOf? refused, stands.refuse refused⟩

end Iteration

/-- Length, subscripts, iteration and materialization agree on one row of items. -/
theorem iteration_agrees {v : Value} {world : World} {items : List Draft}
    (sequence : v.contents? world.heap = some items) :
    ∃ ref started, Act.iterate v world = .ok (.iterator ref) started ∧
      ∀ delivered now, Iteration.Delivered v ref started delivered now →
        Iteration.Agrees v items ref delivered now := by
  refine ⟨⟨world.heap.cursors.size⟩, _, Act.iterate_sequence sequence, ?_⟩
  intro delivered now served
  refine (served.stands ⟨?_, ?_, .nil⟩).agrees
  · exact (Value.contents?_congr rfl v).trans sequence
  · simp

/-- The second character takes two bytes. -/
theorem iteration_agrees_accented :
    ∃ started one all : World, Act.iterate (.str 0 "né") default = .ok (.iterator ⟨0⟩) started ∧
      Act.next (.iterator ⟨0⟩) started = .ok (some (.str 0 "n")) one ∧ one.heap.cursor ⟨0⟩ = .text "né" 1 ∧
      Act.drain (.iterator ⟨0⟩) one = .ok [.str 1 "é"] all ∧ all.heap.cursor ⟨0⟩ = .text "né" 3 ∧
      Iteration.Agrees (.str 0 "né") [.str "n", .str "é"] ⟨0⟩ [.str 0 "n", .str 1 "é"] all := by
  obtain ⟨started, one, all, begun, answered, first, drained, last⟩ : ∃ started one all : World,
      Act.iterate (.str 0 "né") default = .ok (.iterator ⟨0⟩) started ∧
      Act.next (.iterator ⟨0⟩) started = .ok (some (.str 0 "n")) one ∧ one.heap.cursor ⟨0⟩ = .text "né" 1 ∧
      Act.drain (.iterator ⟨0⟩) one = .ok [.str 1 "é"] all ∧ all.heap.cursor ⟨0⟩ = .text "né" 3 :=
    ⟨_, _, _, rfl, rfl, rfl, rfl, rfl⟩
  have sequence : (Value.str 0 "né").contents? (default : World).heap = some [.str "n", .str "é"] := rfl
  obtain ⟨ref, started, ran, agrees⟩ := iteration_agrees sequence
  cases begun.symm.trans ran
  have delivered : Iteration.Delivered (.str 0 "né") ⟨0⟩ started [.str 0 "n", .str 1 "é"] all :=
    .request (.request .none (.next rfl answered)) (.accepted rfl drained)
  exact ⟨started, one, all, ran, answered, first, drained, last, agrees _ _ delivered⟩

end BlockVM
