import BlockVM.Proofs.Faults
import BlockVM.Proofs.Footprint
import BlockVM.Proofs.IteratorItems

namespace BlockVM

/-! Large results are refused before they are built. The size that a refusal is decided on is the size of what
would be built, up to the largest size there is, and a refused operation has only taken its operands off. -/

theorem Size.mul_mul (a b c : Nat) : mul (mul a b) c = min (a * b * c) greatest := by
  unfold mul
  rcases Nat.eq_zero_or_pos c with rfl | positive
  · simp
  · rcases Nat.le_total (a * b) greatest with small | large
    · rw [Nat.min_eq_left small]
    · have first : greatest ≤ greatest * c := Nat.le_mul_of_pos_right _ positive
      have second : greatest ≤ a * b * c := first.trans (Nat.mul_le_mul_right c large)
      rw [Nat.min_eq_right large, Nat.min_eq_right first, Nat.min_eq_right second]

namespace Tracker

/-- The most bytes that a large result may take. -/
def resultLimit (tracker : Tracker) : Nat :=
  tracker.limits.maxResultBytes.getD (2 ^ 30)

/-- The size on which a result of so many bytes is judged. -/
def estimate (bytes : Nat) : Nat :=
  min bytes (2 ^ 64 - 1)

/-- A result is too large: it is not a small one, and it is beyond the limit. -/
def Refuses (tracker : Tracker) (bytes : Nat) : Prop :=
  100000 < estimate bytes ∧ tracker.resultLimit < estimate bytes

instance (tracker : Tracker) (bytes : Nat) : Decidable (tracker.Refuses bytes) :=
  inferInstanceAs (Decidable (_ ∧ _))

/-- The fault of a result that is too large. -/
def oversize (tracker : Tracker) (bytes : Nat) : Fault :=
  .limit (.resultSize tracker.resultLimit (estimate bytes))

variable {tracker : Tracker} {bytes count : Nat}

theorem checkResult_refused (refuses : tracker.Refuses bytes) :
    tracker.checkResult (estimate bytes) = .error (.resultSize tracker.resultLimit (estimate bytes)) := by
  rw [checkResult, Limits.freeResultBytes, if_pos refuses.1]
  exact if_pos refuses.2

theorem checkResult_admitted (admits : ¬ tracker.Refuses bytes) : tracker.checkResult (estimate bytes) = .ok () := by
  unfold checkResult
  split
  · rename_i large
    exact if_neg fun beyond => admits ⟨large, beyond⟩
  · rfl

end Tracker

theorem World.refusalOf?_refused {world : World} {count : Nat} (refuses : world.tracker.Refuses (count * 32)) :
    world.refusalOf? count = some (world.tracker.oversize (count * 32)) := by
  have refused : world.tracker.checkResult (Size.mul count Size.slot) = _ := Tracker.checkResult_refused refuses
  rw [refusalOf?, refused]
  rfl

theorem World.refusalOf?_admitted {world : World} {count : Nat} (admits : ¬ world.tracker.Refuses (count * 32)) :
    world.refusalOf? count = if world.heap.platform.addressable < count * 32 then some .resultTooLarge else none := by
  have admitted : world.tracker.checkResult (Size.mul count Size.slot) = .ok () := Tracker.checkResult_admitted admits
  rw [refusalOf?, admitted]
  rfl

/-- What is dropped from a text stands before what is left of it. -/
theorem Text.eq_append_of_dropBytes? {count : Nat} {text : String} {rest : String.Slice}
    (dropped : dropBytes? count text = some rest) :
    ∃ before : String, before.utf8ByteSize = count ∧ text = before ++ rest.copy := by
  have valid : String.Pos.Raw.IsValid text ⟨count⟩ := by
    by_contra invalid
    simp [dropBytes?, String.pos?, String.Slice.pos?, invalid] at dropped
  obtain ⟨before, after, rfl, size⟩ := String.Pos.Raw.isValid_iff_exists_append.mp valid
  have size : before.utf8ByteSize = count := (congrArg String.Pos.Raw.byteIdx size).symm
  obtain ⟨other, again, same⟩ := dropBytes?_append before after
  rw [size, dropped] at again
  cases again
  exact ⟨before, size, by rw [same]⟩

namespace Cursor

/-- The items that a cursor gives one after the other until it has none left. -/
inductive Yields (heap : Heap) : Cursor → List Draft → Prop where
  | spent {cursor : Cursor} (none : cursor.next? heap = none) : Yields heap cursor []
  | next {cursor behind : Cursor} {item : Draft} {items : List Draft}
      (found : cursor.next? heap = some (item, behind)) (rest : Yields heap behind items) :
      Yields heap cursor (item :: items)

variable {heap : Heap} {cursor behind : Cursor} {item : Draft} {items : List Draft}

theorem remaining_none (none : cursor.next? heap = none) : cursor.remaining heap = 0 := by
  cases cursor with
  | list ref index =>
      rw [next?, Option.map_eq_none_iff, Array.getElem?_eq_none_iff] at none
      exact Nat.sub_eq_zero_of_le none
  | items rest =>
      cases rest with
      | nil => rfl
      | cons => cases none
  | text source offset =>
      rw [remaining]
      cases dropped : Text.dropBytes? offset source with
      | none => rfl
      | some rest =>
          have spent : rest.front? = Option.none :=
            Option.eq_none_iff_forall_ne_some.mpr (by simpa [next?, dropped] using none)
          rw [String.Slice.front?_eq, List.head?_eq_none_iff] at spent
          rw [Option.elim_some, ← String.length_toList, spent, List.length_nil]
  | range progression index =>
      rw [next?, Option.map_eq_none_iff] at none
      refine Nat.sub_eq_zero_of_le (Nat.not_lt.mp fun inside => ?_)
      obtain ⟨element, found⟩ := Range.get?_of_lt inside
      rw [found] at none
      cases none

theorem remaining_next (found : cursor.next? heap = some (item, behind)) :
    cursor.remaining heap = behind.remaining heap + 1 := by
  cases cursor with
  | list ref index =>
      obtain ⟨value, stored, same⟩ := Option.map_eq_some_iff.mp found
      cases same
      have inside := (Array.getElem?_eq_some_iff.mp stored).1
      simp only [remaining]
      omega
  | items rest =>
      cases rest with
      | nil => cases found
      | cons => cases found; rfl
  | text source offset =>
      cases dropped : Text.dropBytes? offset source with
      | none => simp [next?, dropped] at found
      | some rest =>
          obtain ⟨c, first, same⟩ : ∃ c, rest.front? = some c ∧
              (Draft.str (String.singleton c), Cursor.text source (offset + c.utf8Size)) = (item, behind) := by
            simpa [next?, dropped, Option.bind_eq_some_iff] using found
          cases same
          rw [String.Slice.front?_eq] at first
          obtain ⟨tail, copied⟩ := List.head?_eq_some_iff.mp first
          obtain ⟨before, size, split⟩ := Text.eq_append_of_dropBytes? dropped
          obtain ⟨last, again, left⟩ := Text.dropBytes?_append (before ++ String.singleton c) (String.ofList tail)
          have whole : before ++ String.singleton c ++ String.ofList tail = source := by
            rw [split, String.append_assoc, ← String.toList_inj]
            simp [copied]
          rw [whole, String.utf8ByteSize_append, size, String.utf8ByteSize_singleton] at again
          simp [remaining, dropped, again, left, ← String.length_toList, copied]
  | range progression index =>
      obtain ⟨element, stored, same⟩ := Option.map_eq_some_iff.mp found
      cases same
      have inside : index < progression.size := by
        by_contra outside
        rw [Range.get?_of_le (Nat.not_lt.mp outside)] at stored
        cases stored
      simp only [remaining]
      omega

/-- A cursor comes to its end. -/
theorem exists_yields (heap : Heap) (cursor : Cursor) : ∃ items, Yields heap cursor items := by
  induction left : cursor.remaining heap generalizing cursor with
  | zero =>
      cases found : cursor.next? heap with
      | none => exact ⟨[], .spent found⟩
      | some pair =>
          have := remaining_next found
          omega
  | succ count ih =>
      cases found : cursor.next? heap with
      | none => exact ⟨[], .spent found⟩
      | some pair =>
          have next := remaining_next found
          obtain ⟨items, rest⟩ := ih pair.2 (by omega)
          exact ⟨pair.1 :: items, .next found rest⟩

namespace Yields

/-- The number of items is known beforehand. -/
theorem remaining (yields : Yields heap cursor items) : cursor.remaining heap = items.length := by
  induction yields with
  | spent none => exact remaining_none none
  | next found _ ih => rw [remaining_next found, ih, List.length_cons]

theorem take (yields : Yields heap cursor items) (taken : List Draft) :
    ∃ behind, cursor.take heap items.length taken = (taken.reverse ++ items, behind) := by
  induction yields generalizing taken with
  | @spent cursor _ => exact ⟨cursor, by simp [Cursor.take]⟩
  | @next cursor behind item items found _ ih =>
      obtain ⟨last, rest⟩ := ih (item :: taken)
      exact ⟨last, by simp [Cursor.take, found, rest]⟩

theorem becomes (yields : Yields heap cursor items) : ∀ draft ∈ items, ∃ value, draft.Becomes value := by
  induction yields with
  | spent => simp
  | @next cursor behind item items found _ ih =>
      rw [List.forall_mem_cons]
      refine ⟨?_, ih⟩
      cases cursor with
      | list ref index | range progression index =>
          obtain ⟨_, _, same⟩ := Option.map_eq_some_iff.mp found
          cases same
          exact ⟨_, .value _⟩
      | items rest =>
          cases rest with
          | nil => cases found
          | cons => cases found; exact ⟨_, .value _⟩
      | text source offset =>
          cases dropped : Text.dropBytes? offset source with
          | none => simp [next?, dropped] at found
          | some rest =>
              obtain ⟨c, _, same⟩ : ∃ c, rest.front? = some c ∧
                  (Draft.str (String.singleton c), Cursor.text source (offset + c.utf8Size)) = (item, behind) := by
                simpa [next?, dropped, Option.bind_eq_some_iff] using found
              cases same
              exact ⟨_, .str 0 _⟩

end Yields

end Cursor

namespace Act

variable {world : World} {value : Value} {cursor : Cursor} {items : List Draft}

theorem drain_beyond (found : value.cursor? world.heap = some cursor) (yields : cursor.Yields world.heap items)
    (refuses : world.tracker.Refuses (items.length * 32)) :
    drain value world = .error (.raised (world.tracker.oversize (items.length * 32))) world := by
  rw [drain_eq found, yields.remaining, World.refusalOf?_refused refuses]

theorem drain_accepted (found : value.cursor? world.heap = some cursor) (yields : cursor.Yields world.heap items)
    (accepted : world.refusalOf? items.length = none) :
    ∃ values after, drain value world = .ok values after ∧ List.Forall₂ Draft.Becomes items values := by
  rw [drain_eq found, yields.remaining, accepted]
  obtain ⟨behind, taken⟩ := yields.take []
  obtain ⟨values, born, placed, became⟩ := (world.heap.passed value behind).placeAll_items [] yields.becomes
  refine ⟨values, { world with heap := { world.heap.passed value behind with born } }, ?_, became⟩
  simp only [taken, List.reverse_nil, List.nil_append] at placed ⊢
  rw [allocate, placed]

theorem drain_within (found : value.cursor? world.heap = some cursor) (yields : cursor.Yields world.heap items)
    (admits : ¬ world.tracker.Refuses (items.length * 32)) :
    (items.length * 32 ≤ world.heap.platform.addressable ∧ ∃ values after, drain value world = .ok values after ∧
      List.Forall₂ Draft.Becomes items values) ∨
    (world.heap.platform.addressable < items.length * 32 ∧ drain value world = .error (.raised .resultTooLarge) world) := by
  have refusal := World.refusalOf?_admitted admits
  rcases Nat.lt_or_ge world.heap.platform.addressable (items.length * 32) with vast | fits
  · rw [if_pos vast] at refusal
    exact .inr ⟨vast, by rw [drain_eq found, yields.remaining, refusal]⟩
  · rw [if_neg (Nat.not_lt.mpr fits)] at refusal
    exact .inl ⟨fits, drain_accepted found yields refusal⟩

end Act

@[simp] def Fault.Unlimited (fault : Fault) : Prop :=
  ∀ error, fault ≠ .limit error

@[simp] def Failure.Unlimited : Failure → Prop
  | .raised fault => fault.Unlimited
  | .unending => True

/-- An operation that no limit stops. -/
def Unlimited {σ α : Type} (operation : EStateM Failure σ α) : Prop :=
  ∀ before failure after, operation before = .error failure after → failure.Unlimited

namespace Unlimited

variable {σ α β : Type} {operation : EStateM Failure σ α}

theorem pure (value : α) : Unlimited (Pure.pure value : EStateM Failure σ α) := by
  rintro before failure after ⟨⟩

theorem throw {failure : Failure} (unlimited : failure.Unlimited) :
    Unlimited (MonadExcept.throw failure : EStateM Failure σ α) := by
  rintro before other after ⟨⟩
  exact unlimited

theorem bind {next : α → EStateM Failure σ β} (first : Unlimited operation) (second : ∀ value, Unlimited (next value)) :
    Unlimited (operation >>= next) := by
  intro before failure after run
  change EStateM.bind operation next before = _ at run
  cases ran : operation before with
  | ok value between =>
      rw [EStateM.bind, ran] at run
      exact second value between failure after run
  | error other between =>
      rw [EStateM.bind, ran] at run
      cases run
      exact first before _ _ ran

theorem act {operation : Act α} (unlimited : Unlimited operation) : Unlimited (Exec.act operation) := by
  rintro ⟨world, frame, recovered⟩ failure after run
  cases ran : operation world with
  | ok value between =>
      simp only [Exec.act, ran] at run
      cases run
  | error other between =>
      simp only [Exec.act, ran] at run
      cases run
      exact unlimited _ _ _ ran

theorem allocate (create : Heap → α × Heap) : Unlimited (Act.allocate create) := by
  rintro before failure after ⟨⟩

theorem heap : Unlimited Act.heap := by
  rintro before failure after ⟨⟩

theorem changeFrame (change : Frame → Frame) : Unlimited (Exec.changeFrame change) := by
  rintro before failure after ⟨⟩

theorem ofExcept {result : Except Fault α} (errs : Errs Fault.Unlimited result) : Unlimited (Act.ofExcept result) := by
  cases result with
  | ok value => exact .pure value
  | error fault => exact .throw errs

theorem ofFailing {result : Except Failure α} (errs : Errs Failure.Unlimited result) :
    Unlimited (Act.ofFailing result) := by
  cases result with
  | ok value => exact .pure value
  | error failure => exact .throw errs

theorem ite {condition : Prop} [Decidable condition] {other : EStateM Failure σ α} (first : Unlimited operation)
    (second : Unlimited other) : Unlimited (if condition then operation else other) := by
  split
  · exact first
  · exact second

theorem foldlM {next : β → α → EStateM Failure σ β} (each : ∀ total item, Unlimited (next total item))
    (items : List α) (total : β) : Unlimited (items.foldlM next total) := by
  induction items generalizing total with
  | nil => exact .pure total
  | cons item items ih =>
      rw [List.foldlM_cons]
      exact .bind (each total item) fun between => ih between

end Unlimited

namespace Value

theorem add_unlimited (heap : Heap) (a b : Value) : Errs Fault.Unlimited (add heap a b) := by
  unfold add
  split
  · refine .map _ ?_
    unfold exactInt
    split <;> simp
  · trivial
  · split <;> trivial

theorem compareItems_unlimited {equal : Value → Value → Option Bool}
    {cmp : Value → Value → Except Failure (Option Ordering)}
    (each : ∀ a b, Errs Failure.Unlimited (cmp a b)) (xs ys : List Value) :
    Errs Failure.Unlimited (compareItems equal cmp xs ys) := by
  induction xs generalizing ys with
  | nil => cases ys <;> trivial
  | cons x xs ih =>
      cases ys with
      | nil => trivial
      | cons y ys =>
          rw [compareItems]
          split
          · trivial
          · exact ih ys
          · exact each x y

theorem compareWithin_unlimited (heap : Heap) (symbol : String) (depth : Nat) (a b : Value) :
    Errs Failure.Unlimited (compareWithin heap symbol depth a b) := by
  induction depth generalizing a b with
  | zero => trivial
  | succ depth ih =>
      unfold compareWithin
      split
      · trivial
      · split
        · trivial
        · exact compareItems_unlimited ih _ _
        · exact compareItems_unlimited ih _ _
        · simp

end Value

namespace Builtin

theorem addItem_unlimited (total item : Value) : Unlimited (addItem total item) := by
  refine .bind .heap fun heap => .bind (.ofExcept (Value.add_unlimited heap total item)) fun sum => ?_
  cases sum with
  | some draft => exact .allocate _
  | none => exact .throw (by simp)

theorem extreme_unlimited {compare? : Value → Value → Except Failure (Option Ordering)}
    (each : ∀ a b, Errs Failure.Unlimited (compare? a b)) (keep : Ordering) (best : Value) (items : List Value) :
    Errs Failure.Unlimited (extreme compare? keep best items) := by
  induction items generalizing best with
  | nil => trivial
  | cons item items ih =>
      rw [extreme]
      have compared := each item best
      split
      · rename_i failed
        rw [failed] at compared
        exact compared
      · split <;> exact ih _

end Builtin

/-- The instruction, applied to these operands with the topmost first, takes in all items of a value. -/
inductive Gathers (value : Value) : Opcode → Operand Value → List Value → Prop where
  | list : Gathers value .callFunction (.int 1) [value, .builtin .list]
  | tuple (other : ∀ id items, value ≠ .tuple id items) :
      Gathers value .callFunction (.int 1) [value, .builtin .tuple]
  | sum : Gathers value .callFunction (.int 1) [value, .builtin .sum]
  | sumFrom {start : Value} (other : ∀ id text, start ≠ .str id text) :
      Gathers value .callFunction (.int 2) [start, value, .builtin .sum]
  | max : Gathers value .callFunction (.int 1) [value, .builtin .max]
  | min : Gathers value .callFunction (.int 1) [value, .builtin .min]
  | unpack (expected : Nat) : Gathers value .unpackSequence (.int expected) [value]
  | extend (operand : Operand Value) (ref : ListRef) : Gathers value (.inplace .add) operand [value, .list ref]

/-- The operands have been taken off. -/
def Active.lowered (rest : List Value) (a : Active) : Active :=
  { a with frame := { a.frame with stack := rest } }

section

variable {a : Active} {opcode : Opcode} {operand : Operand Value} {operands rest : List Value} {value : Value}

theorem Exec.callFunction_builtin {function : Builtin} {arguments : List Value}
    (stack : a.frame.stack = arguments ++ .builtin function :: rest) :
    execute .callFunction (.int arguments.length) a =
      (do
        push (← act (function.call arguments.reverse))
        return Effect.next : Exec Effect) (a.lowered rest) := by
  have found : a.frame.stack[arguments.length]? = some (.builtin function) := by simp [stack]
  change callFunction arguments.length a = _
  rw [callFunction_found found, Active.discard, stack]
  simp
  rfl

theorem Exec.act_bind {α β : Type} (operation : Act α) (next : α → Act β) :
    act (operation >>= next) = act operation >>= fun value => act (next value) := by
  funext ⟨world, frame, recovered⟩
  change act (EStateM.bind operation next) _ = EStateM.bind (act operation) _ _
  cases ran : operation world with
  | ok value between => simp only [act, EStateM.bind, ran]
  | error failure between => simp only [act, EStateM.bind, ran]

/-- A function that takes in the items of a value and has no limit to keep from there on. -/
def Builtin.Drains (function : Builtin) (arguments : List Value) (value : Value) : Prop :=
  ∃ next : List Value → Act Value, (∀ values, Unlimited (next values)) ∧
    function.call arguments = Act.drain value >>= next

namespace Builtin

theorem list_drains (value : Value) : Drains .list [value] value :=
  ⟨fun items => Act.place (.list items.toArray), fun _ => .allocate _, rfl⟩

theorem tuple_drains (other : ∀ id items, value ≠ .tuple id items) : Drains .tuple [value] value := by
  refine ⟨fun items => Act.place (.tuple items), fun _ => .allocate _, ?_⟩
  cases value with
  | tuple id items => cases other id items rfl
  | _ => rfl

theorem sum_drains {start : Value} (other : ∀ id text, start ≠ .str id text) : Drains .sum [value, start] value := by
  refine ⟨fun items => items.foldlM addItem start, fun items => .foldlM addItem_unlimited items start, ?_⟩
  cases start with
  | str id text => cases other id text rfl
  | _ => rfl

theorem extreme_drains {function : Builtin} {keep : Ordering} {symbol : String} (value : Value)
    (calls : function.call [value] = callExtreme function keep symbol [value]) : Drains function [value] value := by
  refine ⟨_, fun items => ?_, calls⟩
  cases items with
  | nil => exact .throw (by simp)
  | cons first rest =>
      exact .bind .heap fun heap =>
        .ofFailing (extreme_unlimited (Value.compareWithin_unlimited heap symbol _) keep first rest)

end Builtin

theorem Builtin.Drains.execute_eq {function : Builtin} (arguments : List Value)
    (drains : Drains function arguments.reverse value) (stack : a.frame.stack = arguments ++ .builtin function :: rest) :
    ∃ next : List Value → Exec Effect, (∀ values, Unlimited (next values)) ∧
      execute .callFunction (.int arguments.length) a = (Exec.act (Act.drain value) >>= next) (a.lowered rest) := by
  obtain ⟨next, unlimited, calls⟩ := drains
  refine ⟨fun values => do
    Exec.push (← Exec.act (next values))
    return Effect.next, fun values => ?_, ?_⟩
  · exact .bind (.act (unlimited values)) fun _ => .bind (.changeFrame _) fun _ => .pure _
  · rw [Exec.callFunction_builtin stack, calls, Exec.act_bind, bind_assoc]

/-- The items are taken in first, and what follows is not limited. -/
theorem Gathers.execute_eq (gathers : Gathers value opcode operand operands)
    (stack : a.frame.stack = operands ++ rest) :
    ∃ next : List Value → Exec Effect, (∀ values, Unlimited (next values)) ∧
      execute opcode operand a = (Exec.act (Act.drain value) >>= next) (a.lowered rest) := by
  cases gathers with
  | list => exact (Builtin.list_drains value).execute_eq [value] stack
  | tuple other => exact (Builtin.tuple_drains other).execute_eq [value] stack
  | sum =>
      have start : ∀ id text, Value.int 0 ≠ .str id text := by simp
      have drains : Builtin.Drains .sum [value] value := Builtin.sum_drains start
      exact drains.execute_eq [value] stack
  | @sumFrom start other => exact (Builtin.sum_drains other).execute_eq [start, value] stack
  | max => exact (Builtin.extreme_drains value rfl).execute_eq [value] stack
  | min => exact (Builtin.extreme_drains value rfl).execute_eq [value] stack
  | unpack expected =>
      refine ⟨fun items => Exec.thenNext do
        if items.length < expected then Exec.raise (.tooFewValues expected items.length)
        if expected < items.length then Exec.raise (.tooManyValues expected)
        Exec.changeFrame fun frame => { frame with stack := items ++ frame.stack }, fun items => ?_, ?_⟩
      · refine .bind ?_ fun _ => .pure _
        have second : Unlimited (do
            if expected < items.length then Exec.raise (.tooManyValues expected)
            Exec.changeFrame fun frame => { frame with stack := items ++ frame.stack }) :=
          .ite (.bind (.throw (by simp)) fun _ => .changeFrame _) (.changeFrame _)
        exact .ite (.bind (.throw (by simp)) fun _ => second) second
      · obtain ⟨world, ⟨code, globals, locals, _, blocks, ip, last, level⟩, recovered⟩ := a
        cases stack
        change Exec.thenNext (Exec.act (Act.drain value) >>= _) _ = _
        rw [Exec.thenNext, bind_assoc]
        rfl
  | extend operand ref =>
      refine ⟨fun extra => Exec.thenNext do
        Exec.act (Act.changeHeap (Heap.updateItems ref (· ++ extra)))
        Exec.push (.list ref), fun extra => ?_, ?_⟩
      · exact .bind (.bind (.act (.allocate _)) fun _ => .changeFrame _) fun _ => .pure _
      · obtain ⟨world, ⟨code, globals, locals, _, blocks, ip, last, level⟩, recovered⟩ := a
        cases stack
        change Exec.thenNext (Exec.act (Act.drain value) >>= _) _ = _
        rw [Exec.thenNext, bind_assoc]
        rfl

end

/-- The bytes that the parts of a new sequence take. -/
def Draft.bytes : Draft → Nat
  | .value _ => 0
  | .str text => text.utf8ByteSize
  | .list items => items.size * 32
  | .tuple items => items.length * 32

namespace Value

/-- A text, a list or a tuple, `count` times one after the other. -/
def repeated? (heap : Heap) (count : Nat) : Value → Option Draft
  | .str _ text => some (.str (String.ofList (List.replicate count text.toList).flatten))
  | .list ref => some (.list (List.replicate count (heap.items ref).toList).flatten.toArray)
  | .tuple _ items => some (.tuple (List.replicate count items).flatten)
  | _ => none

/-- The bytes that the parts of a sequence take. -/
def payload (heap : Heap) : Value → Nat
  | .str _ text => text.utf8ByteSize
  | .list ref => (heap.items ref).size * 32
  | .tuple _ items => items.length * 32
  | _ => 0

/-- The factors of a repetition, in either order. -/
inductive Factors (sequence : Value) (count : Int64) : Value → Value → Prop where
  | after {number : Value} (counts : number.int? = some count) : Factors sequence count sequence number
  | before {number : Value} (counts : number.int? = some count) : Factors sequence count number sequence

theorem Factors.swap {sequence left right : Value} {count : Int64} (factors : Factors sequence count left right) :
    Factors sequence count right left := by
  cases factors with
  | after counts => exact .before counts
  | before counts => exact .after counts

theorem repeatText_eq (count : Nat) (text : String) :
    repeatText count text = String.ofList (List.replicate count text.toList).flatten := by
  unfold repeatText
  split
  · rename_i empty
    obtain rfl := String.isEmpty_iff.mp empty
    simp
  · induction count with
    | zero => rfl
    | succ count ih => simp [Nat.repeat, ih, List.replicate_succ']

theorem repeatItems_eq {α : Type} (count : Nat) (items : List α) :
    repeatItems count items = (List.replicate count items).flatten := by
  unfold repeatItems
  split
  · rename_i empty
    obtain rfl := List.isEmpty_iff.mp empty
    simp
  · induction count with
    | zero => rfl
    | succ count ih => simp [Nat.repeat, ih, List.replicate_succ]

theorem repeatArray_eq {α : Type} (count : Nat) (items : Array α) :
    repeatArray count items = (List.replicate count items.toList).flatten.toArray := by
  unfold repeatArray
  split
  · rename_i empty
    obtain rfl := Array.isEmpty_iff.mp empty
    simp
  · induction count with
    | zero => rfl
    | succ count ih => simp [Nat.repeat, ih, List.replicate_succ']

variable {heap : Heap} {sequence left right : Value} {count : Int64} {built : Draft}

theorem number?_of_repeated? {count : Nat} (builds : sequence.repeated? heap count = some built) :
    sequence.number? = none ∧ sequence.int? = none := by
  cases sequence with
  | str | list | tuple => exact ⟨rfl, rfl⟩
  | _ => cases builds

theorem repetition?_eq (factors : Factors sequence count left right)
    (builds : sequence.repeated? heap count.toInt.toNat = some built) :
    repetition? left right = some (sequence, count.toInt.toNat) := by
  obtain ⟨plain, uncounted⟩ := number?_of_repeated? builds
  cases factors with
  | after counts | before counts => simp only [repetition?, plain, uncounted, counts, number?_of_int? counts]

theorem utf8ByteSize_replicate (count : Nat) (text : String) :
    (String.ofList (List.replicate count text.toList).flatten).utf8ByteSize = text.utf8ByteSize * count := by
  induction count with
  | zero => rfl
  | succ count ih =>
      rw [List.replicate_succ, List.flatten_cons, String.ofList_append, String.ofList_toList,
        String.utf8ByteSize_append, ih, Nat.mul_succ, Nat.add_comm]

theorem bytes_of_repeated? {count : Nat} (builds : sequence.repeated? heap count = some built) :
    built.bytes = sequence.payload heap * count := by
  cases sequence with
  | str id text =>
      cases builds
      exact utf8ByteSize_replicate count text
  | list ref =>
      cases builds
      simp [Draft.bytes, payload, Nat.mul_comm, Nat.mul_left_comm]
  | tuple id items =>
      cases builds
      simp only [Draft.bytes, payload, List.length_flatten, List.map_replicate, List.sum_replicate_nat]
      rw [Nat.mul_comm count, Nat.mul_right_comm]
  | _ => cases builds

/-- The size that is asked about is the size of the sequence that would be built. -/
theorem repetitionBytes?_eq (factors : Factors sequence count left right)
    (builds : sequence.repeated? heap count.toInt.toNat = some built) :
    repetitionBytes? heap left right = some (Tracker.estimate built.bytes) := by
  rw [repetitionBytes?, repetition?_eq factors builds, bytes_of_repeated? builds]
  cases sequence with
  | str id text => rfl
  | list ref | tuple id items =>
      simp only [Size.mul_mul]
      rfl
  | _ => cases builds

/-- What is built is the sequence repeated, unless no memory could hold it. -/
theorem multiply_eq (factors : Factors sequence count left right)
    (builds : sequence.repeated? heap count.toInt.toNat = some built) :
    multiply heap left right =
      if heap.platform.addressable < built.bytes then .error .resultTooLarge else .ok (some built) := by
  have repetition := repetition?_eq factors builds
  have reserved : reserve heap.platform (sequence.payload heap) count.toInt.toNat =
      if heap.platform.addressable < built.bytes then .error .resultTooLarge else .ok () := by
    rw [bytes_of_repeated? builds, reserve]
  have mixed : multiply heap left right =
      (reserve heap.platform (sequence.payload heap) count.toInt.toNat).map fun _ => some built := by
    obtain ⟨plain, _⟩ := number?_of_repeated? builds
    have either : left.number? = none ∨ right.number? = none := by
      cases factors with
      | after => exact .inl plain
      | before => exact .inr plain
    unfold multiply
    split
    · simp_all
    · simp_all
    · rw [repetition]
      cases sequence with
      | str id text =>
          cases builds
          simp only [repeatText_eq]
          rfl
      | list ref =>
          cases builds
          simp only [repeatArray_eq]
          rfl
      | tuple id items =>
          cases builds
          simp only [repeatItems_eq]
          rfl
      | _ => cases builds
  rw [mixed, reserved]
  split <;> rfl

end Value

/-- A new sequence lies on top of the values that are left. -/
def Active.placed (draft : Draft) (rest : List Value) (a : Active) : Active :=
  let (value, heap) := a.world.heap.place draft
  { a with world := { a.world with heap }, frame := { a.frame with stack := value :: rest } }

/-- An instruction of which the result takes so many bytes is refused if these are too many, and then it has only
taken its operands off. If it is not refused, no other limit stops it. -/
structure Gated (opcode : Opcode) (operand : Operand Value) (rest : List Value) (bytes : Nat) (a : Active) : Prop where
  refused : a.world.tracker.Refuses bytes →
    execute opcode operand a = .error (.raised (a.world.tracker.oversize bytes)) (a.lowered rest)
  kind : (a.world.tracker.oversize bytes).kind = .memoryError
  admitted : ¬ a.world.tracker.Refuses bytes →
    ∀ failure after, execute opcode operand a = .error failure after → failure.Unlimited

section

variable {a : Active} {opcode : Opcode} {operand : Operand Value} {operands rest : List Value}

theorem Gathers.gated {value : Value} {cursor : Cursor} {items : List Draft}
    (gathers : Gathers value opcode operand operands) (stack : a.frame.stack = operands ++ rest)
    (found : value.cursor? a.world.heap = some cursor) (yields : cursor.Yields a.world.heap items) :
    Gated opcode operand rest (items.length * 32) a := by
  obtain ⟨next, unlimited, executes⟩ := gathers.execute_eq stack
  refine ⟨fun refuses => ?_, rfl, fun admits failure after run => ?_⟩
  · rw [executes]
    change EStateM.bind (Exec.act (Act.drain value)) next _ = _
    simp only [EStateM.bind, Exec.act, Active.lowered, Act.drain_beyond found yields refuses]
  · rw [executes] at run
    change EStateM.bind (Exec.act (Act.drain value)) next _ = _ at run
    rcases Act.drain_within found yields admits with ⟨_, values, drained, ran, _⟩ | ⟨_, ran⟩
    · simp only [EStateM.bind, Exec.act, Active.lowered, ran] at run
      exact unlimited values _ _ _ run
    · simp only [EStateM.bind, Exec.act, Active.lowered, ran] at run
      cases run
      simp

theorem execute_repetition {sequence left right : Value} {count : Int64} {built : Draft}
    (multiplies : opcode = .binary .multiply ∨ opcode = .inplace .multiply)
    (factors : Value.Factors sequence count left right)
    (builds : sequence.repeated? a.world.heap count.toInt.toNat = some built)
    (stack : a.frame.stack = [right, left] ++ rest) :
    execute opcode operand a =
      if a.world.tracker.Refuses built.bytes then .error (.raised (a.world.tracker.oversize built.bytes)) (a.lowered rest)
      else if a.world.heap.platform.addressable < built.bytes then .error (.raised .resultTooLarge) (a.lowered rest)
      else .ok .next (a.placed built rest) := by
  have applied : execute opcode operand a = Exec.thenNext (Exec.apply .multiply left right) (a.lowered rest) := by
    obtain ⟨world, ⟨code, globals, locals, _, blocks, ip, last, level⟩, recovered⟩ := a
    cases stack
    rcases multiplies with rfl | rfl
    · rfl
    · rfl
  have estimate := Value.repetitionBytes?_eq factors builds
  have product : Value.apply a.world.heap .multiply left right = _ := Value.multiply_eq factors builds
  rw [applied, Exec.apply, Exec.thenNext_get]
  -- The tracker is asked before anything is built, so its refusal comes ahead of the other one.
  by_cases refuses : a.world.tracker.Refuses built.bytes
  · rw [if_pos refuses]
    refine Exec.thenNext_error ?_
    simp only [bind, EStateM.bind, if_true, Exec.act, Active.lowered, estimate, Act.checkResult_run,
      Tracker.checkResult_refused refuses]
    rfl
  · have checked := Tracker.checkResult_admitted refuses
    rw [if_neg refuses]
    by_cases vast : a.world.heap.platform.addressable < built.bytes
    · rw [if_pos vast] at product ⊢
      refine Exec.thenNext_error ?_
      simp only [bind, EStateM.bind, if_true, Exec.act, Active.lowered, estimate, Act.checkResult_run, checked, product]
      rfl
    · rw [if_neg vast] at product ⊢
      refine Exec.thenNext_ok ?_
      simp only [bind, EStateM.bind, if_true, Exec.act, Active.lowered, estimate, Act.checkResult_run, checked, product]
      rfl

/-- Operations that take in all items of an iterable, and repetitions, are judged on the size of what they would
build. A repetition that succeeds builds the sequence as many times as the count says, whichever factor stands
first. -/
theorem result_admission_exact (opcode : Opcode) (operand : Operand Value) (stack : a.frame.stack = operands ++ rest) :
    (∀ value cursor, Gathers value opcode operand operands → value.cursor? a.world.heap = some cursor →
      ∃ items, cursor.Yields a.world.heap items ∧ Gated opcode operand rest (items.length * 32) a ∧
        (¬ a.world.tracker.Refuses (items.length * 32) → items.length * 32 ≤ a.world.heap.platform.addressable →
          ∃ values after, Act.drain value a.world = .ok values after ∧ List.Forall₂ Draft.Becomes items values)) ∧
    (∀ sequence count left right built, (opcode = .binary .multiply ∨ opcode = .inplace .multiply) →
      operands = [right, left] → Value.Factors sequence count left right →
      sequence.repeated? a.world.heap count.toInt.toNat = some built →
        Value.repetitionBytes? a.world.heap left right = some (Tracker.estimate built.bytes) ∧
        Gated opcode operand rest built.bytes a ∧
        (∀ effect after, execute opcode operand a = .ok effect after ↔
          ¬ a.world.tracker.Refuses built.bytes ∧ built.bytes ≤ a.world.heap.platform.addressable ∧ effect = .next ∧
            after = a.placed built rest) ∧
        execute opcode operand (a.lowered ([left, right] ++ rest)) = execute opcode operand a) := by
  constructor
  · intro value cursor gathers found
    obtain ⟨items, yields⟩ := cursor.exists_yields a.world.heap
    refine ⟨items, yields, gathers.gated stack found yields, fun admits fits => ?_⟩
    rcases Act.drain_within found yields admits with ⟨_, drained⟩ | ⟨vast, _⟩
    · exact drained
    · cases Nat.not_lt.mpr fits vast
  · rintro sequence count left right built multiplies rfl factors builds
    have executes : execute opcode operand a = _ := execute_repetition multiplies factors builds stack
    refine ⟨Value.repetitionBytes?_eq factors builds, ⟨fun refuses => ?_, rfl, fun admits failure after run => ?_⟩,
      fun effect after => ?_, ?_⟩
    · rw [executes, if_pos refuses]
    · rw [executes, if_neg admits] at run
      split at run <;> cases run
      simp
    · rw [executes]
      by_cases refuses : a.world.tracker.Refuses built.bytes
      · simp [refuses]
      · by_cases vast : a.world.heap.platform.addressable < built.bytes
        · simp [refuses, vast]
        · simp [refuses, vast, Nat.not_lt.mp vast, eq_comm]
    · rw [executes]
      exact execute_repetition (a := a.lowered ([left, right] ++ rest)) multiplies factors.swap builds rfl

end

/-- Two hundred thousand copies of a letter of two bytes, under a limit of a thousand bytes. -/
theorem result_admission_exact_accented :
    ∃ a : Active, a.frame.stack = [.int 200000, .str 0 "é"] ∧ a.world.tracker.resultLimit = 1000 ∧
      execute (.binary .multiply) .none a = .error (.raised (.limit (.resultSize 1000 400000))) (a.lowered []) := by
  let frame : Frame := { code := default, globals := ⟨0⟩, locals := ⟨0⟩, stack := [.int 200000, .str 0 "é"], depth := 1 }
  let a : Active := ⟨.start (.ofLimits { maxResultBytes := some 1000 }) default, frame, none⟩
  have builds : (Value.str 0 "é").repeated? a.world.heap (200000 : Int64).toInt.toNat = some _ := rfl
  have bytes := Value.bytes_of_repeated? builds
  have size : (Value.str 0 "é").payload a.world.heap * (200000 : Int64).toInt.toNat = 400000 := by decide
  obtain ⟨_, gated, _⟩ := (result_admission_exact (a := a) (.binary .multiply) .none rfl).2 _ _ _ _ _ (.inl rfl) rfl
    (.after rfl) builds
  rw [bytes, size] at gated
  exact ⟨a, rfl, rfl, gated.refused (by decide)⟩

end BlockVM
