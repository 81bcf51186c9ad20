import BlockVM.Proofs.Assembling
import BlockVM.Proofs.Footprint
import BlockVM.Proofs.IteratorItems
import BlockVM.Proofs.RunLimits

namespace BlockVM

/-! A loop that appends the items of a sequence to a new list, one after the other, ends with a list of the same
items: the one that the sequence is turned into all at once. -/

/-- If the last of some steps executes an instruction, then so do all before it. -/
theorem Status.length_dispatched {status : Status} {steps : Nat}
    (last : ((status.advance steps).dispatched 1).length = 1) : (status.dispatched (steps + 1)).length = steps + 1 := by
  rcases dispatched_full_or_over steps status with full | ended
  · rw [dispatched_add, List.length_append, full, last]
  · rw [ended 1] at last
    cases last

namespace Comprehension

/-- An instruction with a number. -/
def wide (opcode : Opcode) (number : UInt16) : List UInt8 :=
  [opcode.toByte, Assembly.lowByte number, Assembly.highByte number]

/-- Builds an empty list, loads a sequence and appends its items. The loop begins at offset 7 and goes on at
offset 16 when the sequence has come to its end. -/
def bytes (load : Opcode) (index : UInt16) : List UInt8 :=
  wide .buildList 0 ++ wide load index ++ [Opcode.getIter.toByte] ++
    wide .forIter 6 ++ wide .listAppend 2 ++ wide .jumpAbsolute 7 ++ [Opcode.returnValue.toByte]

/-- The value that an instruction loads in a frame. Built-in names are left out, as none of them is a sequence. -/
inductive Loads (heap : Heap) (frame : Frame) : Opcode → UInt16 → Value → Prop where
  | const {index : UInt16} {v : Value} (found : frame.code.constants[index.toNat]? = some v) :
      Loads heap frame .loadConst index v
  | name {index : UInt16} {name : String} {v : Value} (named : frame.code.names[index.toNat]? = some name)
      (found : ((heap.space frame.locals).get? name).or ((heap.space frame.globals).get? name) = some v) :
      Loads heap frame .loadName index v
  | global {index : UInt16} {name : String} {v : Value} (named : frame.code.names[index.toNat]? = some name)
      (found : (heap.space frame.globals).get? name = some v) : Loads heap frame .loadGlobal index v
  | fast {index : UInt16} {name : String} {v : Value} (named : frame.code.localSlots[index.toNat]? = some name)
      (found : (heap.space frame.locals).get? name = some v) : Loads heap frame .loadFast index v

/-- The root frame before the instruction at offset `ip`, with no limits set. -/
def standing (root : Frame) (heap : Heap) (stack : List Value) (ip : Nat) (sink : Sink) (events : Array Event)
    (lastOffset : Nat) : Active :=
  ⟨⟨heap, sink, .unlimited, events⟩, { root with stack, ip, lastOffset }, none⟩

/-- The run stands before the instruction at offset `ip`. What was printed and noted does not matter. -/
inductive Poised (root : Frame) (heap : Heap) (stack : List Value) (ip : Nat) : Status → Prop where
  | intro (sink : Sink) (events : Array Event) (lastOffset : Nat) :
      Poised root heap stack ip (.running ⟨standing root heap stack ip sink events lastOffset, []⟩)

/-- What an instruction does to the heap, the data stack and the place to go on at. -/
def Turns (root : Frame) (instruction : Instruction Value) (heap : Heap) (stack : List Value) (after : Heap)
    (left : List Value) (target : Nat) : Prop :=
  ∀ sink events lastOffset,
    execute instruction.opcode instruction.operand (standing root heap stack instruction.next sink events lastOffset) =
      .ok .next (standing root after left target sink events lastOffset)

section

variable {root : Frame} {heap after : Heap} {stack left : List Value} {ip target : Nat} {status : Status}
  {instruction : Instruction Value}

theorem fetch_standing (heap : Heap) (stack : List Value) (decoded : root.code.decodeAt ip = .ok instruction)
    (sink : Sink) (events : Array Event) (lastOffset : Nat) :
    Machine.fetch (standing root heap stack ip sink events lastOffset) =
      (.ok instruction, standing root heap stack instruction.next sink
        (events.push (.instruction instruction.offset instruction.opcode stack.length root.depth))
        instruction.offset) := by
  simp only [Machine.fetch, standing, Tracker.count, Tracker.refusal?, decoded]
  rfl

theorem Poised.step (poised : Poised root heap stack ip status)
    (decoded : root.code.decodeAt ip = .ok instruction) (turns : Turns root instruction heap stack after left target) :
    Poised root after left target (status.advance 1) := by
  cases poised with
  | intro sink events lastOffset =>
      have followed := Machine.dispatch_followed [] (fetch_standing heap stack decoded sink events lastOffset)
        (turns sink _ instruction.offset)
      change Poised root after left target (Machine.dispatch _).settle
      rw [followed]
      exact .intro sink _ instruction.offset

end

section

variable {code : Code Value} {load : Opcode} {index : UInt16}
  (laid : code.instructions = (bytes load index).toArray)

include laid

theorem decode_wide {offset : Nat} {opcode : Opcode} {number : UInt16} {operand : Operand Value}
    (takes : opcode.hasOperand = true) (spelled : ((bytes load index).drop offset).take 3 = wide opcode number)
    (resolved : code.resolve opcode.operandClass (offset + 3) number.toNat = .ok operand) :
    code.decodeAt offset = .ok ⟨opcode, offset, some number, operand, offset + 3⟩ := by
  have byte (place : Nat) (near : place < 3) : code.instructions[offset + place]? = (wide opcode number)[place]? := by
    rw [laid, ← spelled]
    simp [near]
  have spells : code.Spells offset ⟨opcode, offset, some number, operand, offset + 3⟩ :=
    .wide takes (byte 0 (by decide)) (byte 1 (by decide)) (byte 2 (by decide)) resolved
  exact spells.decodeAt

theorem decode_bare {offset : Nat} {opcode : Opcode} (plain : opcode.hasOperand = false)
    (spelled : (bytes load index)[offset]? = some opcode.toByte) :
    code.decodeAt offset = .ok ⟨opcode, offset, none, .none, offset + 1⟩ := by
  have spells : code.Spells offset ⟨opcode, offset, none, .none, offset + 1⟩ := by
    apply Code.Spells.bare plain
    simpa [laid] using spelled
  exact spells.decodeAt

end

section

variable {root : Frame} {heap : Heap} {stack : List Value} {v : Value} {items : List Draft} {ref : CursorRef}
  {load : Opcode} {index : UInt16}

theorem turns_build : Turns root ⟨.buildList, 0, some 0, .int 0, 3⟩ heap []
    { heap with lists := heap.lists.push #[] } [.list ⟨heap.lists.size⟩] 3 :=
  fun _ _ _ => rfl

theorem Loads.congr {other : Heap} (loads : Loads heap root load index v)
    (same : other.namespaces = heap.namespaces) : Loads other root load index v := by
  have space (place : NamespaceRef) : other.space place = heap.space place := by rw [Heap.space, Heap.space, same]
  cases loads with
  | const found => exact .const found
  | name named found => exact .name named (by rwa [space, space])
  | global named found => exact .global named (by rwa [space])
  | fast named found => exact .fast named (by rwa [space])

section

variable {name : String} {a : Active}

theorem lookup?_run (space : NamespaceRef) (name : String) (a : Active) :
    Exec.lookup? space name a = .ok ((a.world.heap.space space).get? name) a := rfl

theorem globalValue_found (found : (a.world.heap.space a.frame.globals).get? name = some v) :
    Exec.globalValue name a = .ok v a := by
  rw [Exec.globalValue, Exec.frame_bind]
  simp only [bind, EStateM.bind, lookup?_run, found, pure, EStateM.pure]

theorem localValue_found (found : (a.world.heap.space a.frame.locals).get? name = some v) :
    Exec.localValue name a = .ok v a := by
  rw [Exec.localValue, Exec.frame_bind]
  simp only [bind, EStateM.bind, lookup?_run, found, pure, EStateM.pure]

theorem nameValue_found
    (found : ((a.world.heap.space a.frame.locals).get? name).or ((a.world.heap.space a.frame.globals).get? name) =
      some v) : Exec.nameValue name a = .ok v a := by
  rw [Exec.nameValue, Exec.frame_bind]
  simp only [bind, EStateM.bind, lookup?_run]
  cases own : (a.world.heap.space a.frame.locals).get? name with
  | some value =>
      rw [own, Option.some_or] at found
      cases found
      rfl
  | none =>
      rw [own, Option.none_or] at found
      exact globalValue_found found

end

/-- An instruction that puts a value on the stack as it finds it. -/
theorem turns_read {instruction : Instruction Value} {read : Exec Value}
    (reads : execute instruction.opcode instruction.operand = Exec.thenNext (do Exec.push (← read)))
    (found : ∀ sink events lastOffset,
      read (standing root heap stack instruction.next sink events lastOffset) =
        .ok v (standing root heap stack instruction.next sink events lastOffset)) :
    Turns root instruction heap stack heap (v :: stack) instruction.next := by
  intro sink events lastOffset
  rw [reads]
  apply Exec.thenNext_ok
  simp only [bind, EStateM.bind, found sink events lastOffset]
  rfl

theorem turns_load (loads : Loads heap root load index v) : load.hasOperand = true ∧ ∃ operand,
    root.code.resolve load.operandClass 6 index.toNat = .ok operand ∧
      Turns root ⟨load, 3, some index, operand, 6⟩ heap stack heap (v :: stack) 6 := by
  cases loads with
  | const found => exact ⟨rfl, _, Assembly.resolve_const found, turns_read rfl fun _ _ _ => rfl⟩
  | name named found =>
      exact ⟨rfl, _, Assembly.resolve_name named, turns_read rfl fun _ _ _ => nameValue_found found⟩
  | global named found =>
      exact ⟨rfl, _, Assembly.resolve_name named, turns_read rfl fun _ _ _ => globalValue_found found⟩
  | fast named found =>
      exact ⟨rfl, _, Assembly.resolve_slot named, turns_read rfl fun _ _ _ => localValue_found found⟩

theorem turns_iterate (sequence : v.contents? heap = some items) :
    Turns root ⟨.getIter, 6, none, .none, 7⟩ heap (v :: stack)
      { heap with cursors := heap.cursors.push (v.cursorAt 0) } (.iterator ⟨heap.cursors.size⟩ :: stack) 7 := by
  intro sink events lastOffset
  have made : Act.iterate v ⟨heap, sink, .unlimited, events⟩ = _ := Act.iterate_sequence sequence
  apply Exec.thenNext_ok
  change EStateM.bind (Exec.act (Act.iterate v)) Exec.push _ = _
  simp only [standing, EStateM.bind, Exec.act, made]
  rfl

theorem turns_append (item iterator : Value) (list : ListRef) :
    Turns root ⟨.listAppend, 10, some 2, .int 2, 13⟩ heap [item, iterator, .list list]
      (heap.updateItems list (·.push item)) [iterator, .list list] 13 :=
  fun _ _ _ => rfl

theorem turns_repeat : Turns root ⟨.jumpAbsolute, 13, some 7, .jump 7, 16⟩ heap stack heap stack 7 :=
  fun _ _ _ => rfl

theorem turns_ask {item : Value} {after : Heap}
    (gives : ∀ world : World, world.heap = heap →
      Act.next (.iterator ref) world = .ok (some item) { world with heap := after }) :
    Turns root ⟨.forIter, 7, some 6, .jump 16, 10⟩ heap (.iterator ref :: stack) after
      (item :: .iterator ref :: stack) 10 := by
  intro sink events lastOffset
  have top : (standing root heap (.iterator ref :: stack) 10 sink events lastOffset).frame.stack =
      .iterator ref :: stack := rfl
  exact Exec.thenNext_ok (Exec.forIter_item 16 top (gives _ rfl))

theorem turns_exit (spent : ∀ world : World, world.heap = heap → Act.next (.iterator ref) world = .ok none world) :
    Turns root ⟨.forIter, 7, some 6, .jump 16, 10⟩ heap (.iterator ref :: stack) heap stack 16 := by
  intro sink events lastOffset
  have top : (standing root heap (.iterator ref :: stack) 10 sink events lastOffset).frame.stack =
      .iterator ref :: stack := rfl
  exact Exec.thenNext_ok (Exec.forIter_spent 16 top (spent _ rfl))

end

/-- While the loop runs, the only new list holds what the iterator has delivered. -/
structure Gathers (v : Value) (items : List Draft) (ref : CursorRef) (before : Array (Array Value))
    (delivered : List Value) (heap : Heap) : Prop extends Iteration.Stands v items ref delivered heap where
  gathered : heap.lists = before.push delivered.toArray

section

variable {root : Frame} {heap other : Heap} {v : Value} {items : List Draft} {ref : CursorRef}
  {before : Array (Array Value)} {delivered : List Value} {status : Status} {load : Opcode} {index : UInt16}

theorem contents?_push {first second : Array Value} (old : heap.lists = before.push first)
    (new : other.lists = before.push second) (apart : v ≠ .list ⟨before.size⟩) :
    v.contents? other = v.contents? heap := by
  cases v with
  | list ref =>
      have elsewhere : ref.index ≠ before.size := fun same => apart (congrArg (Value.list ⟨·⟩) same)
      simp [Value.contents?, Heap.items, old, new, Array.getElem?_push, elsewhere]
  | _ => rfl

/-- A sequence that has items left is not the list that they are gathered in. -/
theorem Gathers.apart (gathers : Gathers v items ref before delivered heap) (left : delivered.length < items.length) :
    v ≠ .list ⟨before.size⟩ := by
  rintro rfl
  have row : (Value.list ⟨before.size⟩).contents? heap = some (delivered.map .value) := by
    simp [Value.contents?, Heap.items, gathers.gathered]
  have same := Option.some_inj.mp (gathers.sequence.symm.trans row)
  rw [same, List.length_map] at left
  exact Nat.lt_irrefl _ left

theorem Gathers.append (gathers : Gathers v items ref before delivered heap) (left : delivered.length < items.length)
    {item : Value} (became : items[delivered.length].Becomes item) (born : Nat) :
    Gathers v items ref before (delivered ++ [item])
      (({ heap.setCursor ref (v.cursorAt (delivered.length + 1)) with born } : Heap).updateItems ⟨before.size⟩
        (·.push item)) := by
  have grown : heap.lists.modify before.size (·.push item) = before.push (delivered ++ [item]).toArray := by
    rw [gathers.gathered]
    apply Array.ext
    · simp
    · intro place _ within
      rcases Nat.lt_or_eq_of_le (Nat.le_of_lt_succ (Array.size_push _ ▸ within)) with inside | rfl
      · simp [Array.getElem_modify, Array.getElem_push, inside, inside.ne']
      · simp [Array.getElem_modify]
  have next : List.Forall₂ Draft.Becomes ((items.drop delivered.length).take [item].length) [item] := by
    rw [List.drop_eq_getElem_cons left]
    exact .cons became .nil
  refine ⟨(gathers.advance next rfl born).undisturbed ⟨rfl, ?_⟩, grown⟩
  exact contents?_push gathers.gathered grown (gathers.apart left)

/-- One turn of the loop moves one item from the sequence to the list. -/
theorem Gathers.turn (laid : root.code.instructions = (bytes load index).toArray)
    (gathers : Gathers v items ref before delivered heap) (left : delivered.length < items.length)
    (poised : Poised root heap [.iterator ref, .list ⟨before.size⟩] 7 status) :
    ∃ item after, Gathers v items ref before (delivered ++ [item]) after ∧
      Poised root after [.iterator ref, .list ⟨before.size⟩] 7 (status.advance 3) := by
  obtain ⟨item, born, became, gives⟩ :=
    Act.next_item gathers.sequence gathers.cursor (List.getElem?_eq_getElem left)
  have asked := poised.step (decode_wide laid rfl rfl rfl) (turns_ask gives)
  have appended := asked.step (decode_wide laid rfl rfl rfl) (turns_append item (.iterator ref) ⟨before.size⟩)
  have repeated := appended.step (decode_wide laid rfl rfl rfl) turns_repeat
  rw [← Status.advance_add, ← Status.advance_add] at repeated
  exact ⟨item, _, gathers.append left became born, repeated⟩

/-- Three instructions for each item that is left and one to find that there is none. -/
theorem Gathers.loop (laid : root.code.instructions = (bytes load index).toArray)
    (gathers : Gathers v items ref before delivered heap)
    (poised : Poised root heap [.iterator ref, .list ⟨before.size⟩] 7 status) :
    ∃ values after, Gathers v items ref before values after ∧ values.length = items.length ∧
      Poised root after [.list ⟨before.size⟩] 16 (status.advance (3 * (items.length - delivered.length) + 1)) := by
  -- Each turn is one step of an induction on the number of items left.
  induction rest : items.length - delivered.length generalizing delivered heap status with
  | zero =>
      have all : items.length ≤ delivered.length := by omega
      have spent : ∀ world : World, world.heap = heap → Act.next (.iterator ref) world = .ok none world := by
        rintro world rfl
        exact Act.next_spent gathers.sequence gathers.cursor all
      have left := poised.step (decode_wide laid rfl rfl rfl) (turns_exit spent)
      exact ⟨delivered, heap, gathers, le_antisymm gathers.within all, left⟩
  | succ count ih =>
      obtain ⟨item, after, gathers, poised⟩ := gathers.turn laid (by omega) poised
      obtain ⟨values, final, gathers, length, poised⟩ := ih gathers poised (by simp; omega)
      rw [← Status.advance_add] at poised
      refine ⟨values, final, gathers, length, ?_⟩
      rwa [show 3 * (count + 1) + 1 = 3 + (3 * count + 1) by omega]

theorem Poised.return {value : Value} (laid : root.code.instructions = (bytes load index).toArray)
    (blocks : root.blocks = []) (poised : Poised root heap [value] 16 status) :
    (∃ world, status.advance 1 = .finished (.ok value) world ∧ world.heap = heap) ∧
      (status.dispatched 1).length = 1 := by
  have decoded : root.code.decodeAt 16 = .ok ⟨.returnValue, 16, none, .none, 17⟩ := decode_bare laid rfl rfl
  cases poised with
  | intro sink events lastOffset =>
      have fetched := fetch_standing heap [value] decoded sink events lastOffset
      have followed := Machine.dispatch_followed [] fetched rfl
      constructor
      · change ∃ world, (Machine.dispatch _).settle = _ ∧ _
        rw [followed]
        simp only [Phase.settle, Machine.follow, Machine.settle, Active.resolve, standing, blocks, Active.drain]
        exact ⟨_, rfl, rfl⟩
      · rw [Status.dispatched, Status.fetched, fetched]
        rfl

theorem contents?_build (heap : Heap) (v : Value) :
    v.contents? { heap with lists := heap.lists.push #[] } = v.contents? heap := by
  cases v with
  | list ref =>
      by_cases last : ref.index = heap.lists.size <;>
        simp [Value.contents?, Heap.items, Array.getElem?_push, last]
  | _ => rfl

/-- Up to the loop. -/
theorem Poised.begin (laid : root.code.instructions = (bytes load index).toArray)
    (loads : Loads heap root load index v) (sequence : v.contents? heap = some items)
    (poised : Poised root heap [] 0 status) :
    ∃ ref after, Gathers v items ref heap.lists [] after ∧
      Poised root after [.iterator ref, .list ⟨heap.lists.size⟩] 7 (status.advance 3) := by
  have built := poised.step (decode_wide laid rfl rfl rfl) turns_build
  have loads : Loads { heap with lists := heap.lists.push #[] } root load index v := loads.congr rfl
  obtain ⟨takes, operand, resolved, turns⟩ := turns_load loads
  have loaded := built.step (decode_wide laid takes rfl resolved) turns
  have sequence := (contents?_build heap v).trans sequence
  have iterated := loaded.step (decode_bare laid rfl rfl) (turns_iterate sequence)
  rw [← Status.advance_add, ← Status.advance_add] at iterated
  refine ⟨_, _, ⟨⟨?_, ?_, .nil⟩, rfl⟩, iterated⟩
  · exact (Value.contents?_congr rfl v).trans sequence
  · simp

/-- From the first instruction to the last. -/
theorem Poised.run (laid : root.code.instructions = (bytes load index).toArray) (blocks : root.blocks = [])
    (loads : Loads heap root load index v) (sequence : v.contents? heap = some items)
    (poised : Poised root heap [] 0 status) :
    (∃ values final, status.advance (3 * items.length + 5) = .finished (.ok (.list ⟨heap.lists.size⟩)) final ∧
      final.heap.lists = heap.lists.push values.toArray ∧ List.Forall₂ Draft.Becomes items values ∧
      v.contents? final.heap = some items) ∧
    (status.dispatched (3 * items.length + 5)).length = 3 * items.length + 5 := by
  obtain ⟨ref, begun, gathers, poised⟩ := poised.begin laid loads sequence
  obtain ⟨values, after, gathers, length, poised⟩ := gathers.loop laid poised
  have steps : 3 + (3 * (items.length - 0) + 1) = 3 * items.length + 4 := by omega
  rw [← Status.advance_add, List.length_nil, steps] at poised
  obtain ⟨⟨final, finished, same⟩, last⟩ := poised.return laid blocks
  refine ⟨⟨values, final, ?_, ?_, ?_, ?_⟩, Status.length_dispatched last⟩
  · rw [← Status.advance_add] at finished
    exact finished
  · rw [same, gathers.gathered]
  · have became := gathers.became
    rwa [length, List.take_length] at became
  · rw [same, gathers.sequence]

theorem poised_of_launch {code : Code Value} {environment : Environment} {arguments : List Value} {world : World}
    {machine : Machine} (unlimited : world.tracker = .unlimited)
    (launched : world.launch code environment arguments = .running machine) :
    machine.active.frame.code = code ∧ machine.active.frame.blocks = [] ∧
      Poised machine.active.frame machine.active.world.heap [] 0 (.running machine) := by
  obtain ⟨heap, sink, tracker, events⟩ := world
  cases unlimited
  unfold World.launch at launched
  split at launched
  · cases launched
  · cases launched
    exact ⟨rfl, rfl, .intro _ _ 0⟩

end

end Comprehension

/-- A run of the loop ends with a new list of the items, after three instructions for each of them and five
more. The sequence and all older lists are as before, and the list that is made of the sequence at once, unless
it is refused as too large, has the same items. -/
theorem comprehension_reproduces {code : Code Value} {environment : Environment} {arguments : List Value}
    {world : World} {machine : Machine} {load : Opcode} {index : UInt16} {v : Value} {items : List Draft}
    (unlimited : world.tracker = .unlimited)
    (launched : world.launch code environment arguments = .running machine)
    (laid : code.instructions = (Comprehension.bytes load index).toArray)
    (loads : Comprehension.Loads machine.active.world.heap machine.active.frame load index v)
    (sequence : v.contents? machine.active.world.heap = some items) :
    (∃ values final, (world.launch code environment arguments).advance (3 * items.length + 5) =
        .finished (.ok (.list ⟨machine.active.world.heap.lists.size⟩)) final ∧
      final.heap.lists = machine.active.world.heap.lists.push values.toArray ∧
      List.Forall₂ Draft.Becomes items values ∧ v.contents? final.heap = some items) ∧
    (∀ more, ((world.launch code environment arguments).dispatched (3 * items.length + 5 + more)).length =
      3 * items.length + 5) ∧
    ∀ other : World, v.contents? other.heap = some items →
      (∃ ref after, Builtin.call .list [v] other = .ok (.list ref) after ∧
        List.Forall₂ Draft.Becomes items (after.heap.items ref).toList) ∨
      ∃ fault, fault.kind = .memoryError ∧ Builtin.call .list [v] other = .error (.raised fault) other := by
  obtain ⟨rfl, blocks, poised⟩ := Comprehension.poised_of_launch unlimited launched
  obtain ⟨ends, count⟩ := poised.run laid blocks loads sequence
  rw [launched]
  refine ⟨ends, fun more => ?_, fun other sequence => ?_⟩
  · obtain ⟨values, final, finished, _⟩ := ends
    have ended : (Status.finished (.ok (.list ⟨machine.active.world.heap.lists.size⟩)) final).dispatched more = [] := by
      cases more <;> rfl
    rw [Status.dispatched_add, finished, ended, List.append_nil, count]
  · rcases decision : other.refusalOf? items.length with _ | fault
    · obtain ⟨values, born, made, became⟩ := Builtin.list_of_sequence sequence decision
      refine .inl ⟨_, _, made, ?_⟩
      simpa [Heap.items] using became
    · exact .inr ⟨fault, World.kind_of_refusalOf? decision, Builtin.list_refused sequence decision⟩

/-- Makes a list of the characters of its argument. -/
def spelling : Code Value :=
  { name := "spelling", instructions := (Comprehension.bytes .loadFast 0).toArray, constants := [], names := []
    localSlots := ["text"], argCount := 1 }

theorem comprehension_reproduces_spelling :
    let world : World := { (default : World) with heap.namespaces := #[.empty] }
    let status := world.launch spelling default [.str 0 "né"]
    ∃ values final, status.advance 11 = .finished (.ok (.list ⟨0⟩)) final ∧ final.heap.lists = #[values.toArray] ∧
      List.Forall₂ Draft.Becomes [.str "n", .str "é"] values ∧ (status.dispatched 20).length = 11 := by
  intro world status
  have launched : status = .running _ := rfl
  have sequence : (Value.str 0 "né").contents? world.heap = some [.str "n", .str "é"] := rfl
  obtain ⟨⟨values, final, finished, lists, became, _⟩, count, _⟩ :=
    comprehension_reproduces rfl launched rfl (.fast rfl rfl) sequence
  exact ⟨values, final, finished, lists, became, count 9⟩

end BlockVM
