import BlockVM.Machine.Execute

namespace BlockVM

/-! Faults that a program can bring about, and those that it cannot: an operand of the wrong sort, an empty slot that
is needed, a block without a target, and a place to continue at that no word can hold. Operations on values never
raise the latter, nor do they find the data stack too short. -/

/-- Only a machine in disorder would raise such a fault. -/
@[simp] def Fault.isInternal : Fault → Bool
  | .operandMismatch _ | .noFrame | .missingTarget _ | .missingException | .endedWithoutException
  | .continueTooFar => true
  | _ => false

@[simp] def Fault.Ordinary (fault : Fault) : Prop :=
  fault.isInternal = false

@[simp] def Failure.Ordinary : Failure → Prop
  | .raised fault => fault.Ordinary
  | .unending => True

@[simp] def Fault.isOffStack : Fault → Bool
  | .stackUnderflow | .sink _ => false
  | fault => !fault.isInternal

/-- An ordinary fault that comes neither from the data stack nor from the sink. -/
@[simp] def Fault.OffStack (fault : Fault) : Prop :=
  fault.isOffStack = true

@[simp] def Failure.OffStack : Failure → Prop
  | .raised fault => fault.OffStack
  | .unending => True

theorem Fault.OffStack.ordinary {fault : Fault} (off : fault.OffStack) : fault.Ordinary := by
  cases fault <;> first | rfl | cases off

theorem Fault.OffStack.kind {fault : Fault} (off : fault.OffStack) : fault.kind ≠ .stackUnderflow := by
  cases fault with
  | limit error => cases error <;> nofun
  | stackUnderflow | sink error => cases off
  | _ => nofun

theorem Failure.OffStack.ordinary {failure : Failure} (off : failure.OffStack) : failure.Ordinary := by
  cases failure with
  | raised fault => exact Fault.OffStack.ordinary off
  | unending => trivial

section

variable {ε α β : Type} {admits : ε → Prop}

/-- If a result is an error, it is one of those admitted. -/
@[simp] def Errs (admits : ε → Prop) : Except ε α → Prop
  | .ok _ => True
  | .error error => admits error

namespace Errs

theorem bind {result : Except ε α} {next : α → Except ε β} (first : Errs admits result)
    (second : ∀ value, Errs admits (next value)) : Errs admits (result >>= next) := by
  cases result with
  | ok value => exact second value
  | error error => exact first

theorem map {result : Except ε α} (change : α → β) (errs : Errs admits result) :
    Errs admits (result.map change) := by
  cases result with
  | ok value => trivial
  | error error => exact errs

theorem mapM {operation : α → Except ε β} (each : ∀ item, Errs admits (operation item)) (items : List α) :
    Errs admits (items.mapM operation) := by
  induction items with
  | nil => trivial
  | cons item items ih =>
      rw [List.mapM_cons]
      exact .bind (each item) fun _ => .bind ih fun _ => trivial

end Errs

end

namespace Value

theorem exactInt_errs (result : Option Int64) : Errs Fault.OffStack (exactInt result) := by
  cases result <;> simp [exactInt]

theorem subtract_errs (a b : Value) : Errs Fault.OffStack (subtract a b) := by
  unfold subtract
  split
  · exact exactInt_errs _
  · trivial
  · trivial

theorem trueDivide_errs (a b : Value) : Errs Fault.OffStack (trueDivide a b) := by
  unfold trueDivide
  split
  · dsimp only
    split <;> simp
  · trivial

theorem floorDivide_errs (a b : Value) : Errs Fault.OffStack (floorDivide a b) := by
  unfold floorDivide
  split
  · split
    · exact rfl
    · exact exactInt_errs _
  · dsimp only
    split <;> simp
  · trivial

theorem modulo_errs (a b : Value) : Errs Fault.OffStack (modulo a b) := by
  unfold modulo
  split
  · split <;> simp
  · dsimp only
    split <;> simp
  · trivial

theorem power_errs (a b : Value) : Errs Fault.OffStack (power a b) := by
  unfold power
  split
  · split
    · split <;> simp
    · exact exactInt_errs _
  · dsimp only
    split <;> simp
  · trivial

theorem shiftLeft_errs (a b : Value) : Errs Fault.OffStack (shiftLeft a b) := by
  unfold shiftLeft
  split
  · split
    · exact rfl
    · split
      · trivial
      · exact exactInt_errs _
  · trivial

theorem shiftRight_errs (a b : Value) : Errs Fault.OffStack (shiftRight a b) := by
  unfold shiftRight
  split
  · split <;> trivial
  · trivial

theorem negate_errs (a : Value) : Errs Fault.OffStack (negate a) := by
  unfold negate
  split
  · exact exactInt_errs _
  · trivial
  · trivial

theorem add_errs (heap : Heap) (a b : Value) : Errs Fault.OffStack (add heap a b) := by
  unfold add
  split
  · exact (exactInt_errs _).map _
  · trivial
  · split <;> trivial

theorem reserve_errs (platform : Platform) (bytes count : Nat) : Errs Fault.OffStack (reserve platform bytes count) := by
  unfold reserve
  split <;> simp

theorem multiply_errs (heap : Heap) (a b : Value) : Errs Fault.OffStack (multiply heap a b) := by
  unfold multiply
  split
  · exact (exactInt_errs _).map _
  · trivial
  · split
    · exact .bind (reserve_errs _ _ _) fun _ => trivial
    · exact .bind (reserve_errs _ _ _) fun _ => trivial
    · exact .bind (reserve_errs _ _ _) fun _ => trivial
    · trivial

theorem apply_errs (heap : Heap) (operator : BinaryOperator) (a b : Value) :
    Errs Fault.OffStack (apply heap operator a b) := by
  cases operator with
  | power => exact (power_errs a b).map _
  | multiply => exact multiply_errs heap a b
  | modulo => exact (modulo_errs a b).map _
  | add => exact add_errs heap a b
  | subtract => exact (subtract_errs a b).map _
  | floorDivide => exact (floorDivide_errs a b).map _
  | trueDivide => exact (trueDivide_errs a b).map _
  | shiftLeft => exact (shiftLeft_errs a b).map _
  | shiftRight => exact (shiftRight_errs a b).map _
  | and | xor | or => trivial

theorem position_errs (index : Value) (length : Nat) (container : String) :
    Errs Fault.OffStack (index.position length container) := by
  unfold position
  split
  · exact rfl
  · dsimp only
    split <;> split <;> simp

theorem item_errs (heap : Heap) (container index : Value) :
    Errs Fault.OffStack (item heap container index) := by
  cases container with
  | list ref => exact .bind (position_errs _ _ _) fun _ => trivial
  | tuple id items => exact .bind (position_errs _ _ _) fun _ => trivial
  | str id text => exact .bind (position_errs _ _ _) fun _ => trivial
  | range progression =>
      refine .bind (position_errs _ _ _) fun i => ?_
      split
      · trivial
      · exact rfl
  | _ => exact rfl

theorem setItem_errs (heap : Heap) (container index value : Value) :
    Errs Fault.OffStack (setItem heap container index value) := by
  cases container with
  | list ref => exact .bind (position_errs _ _ _) fun _ => trivial
  | _ => exact rfl

theorem compareItems_errs {equal : Value → Value → Option Bool}
    {cmp : Value → Value → Except Failure (Option Ordering)}
    (each : ∀ a b, Errs Failure.OffStack (cmp a b)) (xs ys : List Value) :
    Errs Failure.OffStack (compareItems equal cmp xs ys) := by
  induction xs generalizing ys with
  | nil => cases ys <;> trivial
  | cons x xs ih =>
      cases ys with
      | nil => trivial
      | cons y ys =>
          rw [compareItems]
          split
          · trivial
          · exact ih ys
          · exact each x y

theorem compareWithin_errs (heap : Heap) (symbol : String) (depth : Nat) (a b : Value) :
    Errs Failure.OffStack (compareWithin heap symbol depth a b) := by
  induction depth generalizing a b with
  | zero => trivial
  | succ depth ih =>
      unfold compareWithin
      split
      · trivial
      · split
        · trivial
        · exact compareItems_errs ih _ _
        · exact compareItems_errs ih _ _
        · exact rfl

theorem compare?_errs (heap : Heap) (symbol : String) (a b : Value) :
    Errs Failure.OffStack (compare? heap symbol a b) :=
  compareWithin_errs heap symbol _ a b

theorem contains_errs (heap : Heap) (container value : Value) :
    Errs Failure.OffStack (contains heap container value) := by
  unfold contains
  dsimp only
  split
  · split <;> trivial
  · split <;> trivial
  · trivial
  · split <;> simp
  · exact rfl

end Value

namespace Builtin

theorem callAbs_errs (argument : Value) : Errs Fault.OffStack (callAbs argument) := by
  cases argument with
  | int i =>
      simp only [callAbs]
      cases Word.ofInt? i.toInt.natAbs <;> simp
  | _ => simp [callAbs]

theorem callFloat_errs (argument : Value) : Errs Fault.OffStack (callFloat argument) := by
  unfold callFloat
  split
  · trivial
  · split <;> simp
  · split <;> simp

theorem callInt_errs (argument : Value) : Errs Fault.OffStack (callInt argument) := by
  unfold callInt
  split
  · split
    · exact rfl
    · split <;> simp
  · split <;> simp
  · split <;> simp

theorem rangeBound_errs (argument : Value) : Errs Fault.OffStack (rangeBound argument) := by
  unfold rangeBound
  split <;> simp

theorem newRange_errs (start stop step : Int64) : Errs Fault.OffStack (newRange start stop step) := by
  unfold newRange
  split <;> simp

theorem callRange_errs (arguments : List Value) : Errs Fault.OffStack (callRange arguments) := by
  refine .bind (.mapM rangeBound_errs arguments) fun bounds => ?_
  split
  · exact .bind (newRange_errs _ _ _) fun _ => trivial
  · exact .bind (newRange_errs _ _ _) fun _ => trivial
  · exact .bind (newRange_errs _ _ _) fun _ => trivial
  · exact rfl

theorem extreme_errs {compare? : Value → Value → Except Failure (Option Ordering)}
    (each : ∀ a b, Errs Failure.OffStack (compare? a b)) (keep : Ordering) (best : Value)
    (items : List Value) : Errs Failure.OffStack (extreme compare? keep best items) := by
  induction items generalizing best with
  | nil => trivial
  | cons item items ih =>
      have compared := each item best
      unfold extreme
      split
      · rename_i failure failed
        rw [failed] at compared
        exact compared
      · split <;> exact ih _

end Builtin

namespace Exec

theorem catches_errs (raised : ExceptionKind) (handlers : List Value) :
    Errs Fault.OffStack (catches raised handlers) := by
  refine .bind (.mapM (fun handler => ?_) handlers) fun _ => trivial
  cases handler <;> simp [pure, Except.pure, throw, throwThe, MonadExceptOf.throw]

theorem exceptionMatch_errs (raised handler : Value) : Errs Fault.OffStack (exceptionMatch raised handler) := by
  unfold exceptionMatch
  dsimp only
  split
  · split
    · exact catches_errs _ _
    · exact catches_errs _ _
    · exact rfl
  · split
    · exact catches_errs _ _
    · exact catches_errs _ _
    · exact rfl
  · trivial

theorem compare_errs (heap : Heap) (comparison : Comparison) (left right : Value) :
    Errs Failure.OffStack (compare heap comparison left right) := by
  cases comparison with
  | less | lessEqual | greater | greaterEqual => exact (Value.compare?_errs heap _ left right).map _
  | equal =>
      simp only [compare]
      split <;> trivial
  | notEqual =>
      refine .map _ ?_
      split <;> trivial
  | member => exact Value.contains_errs heap right left
  | notMember => exact (Value.contains_errs heap right left).map _
  | same | notSame => trivial
  | exceptionMatch =>
      have matched := exceptionMatch_errs left right
      cases found : exceptionMatch left right with
      | ok result => simp only [compare, found]; trivial
      | error fault =>
          rw [found] at matched
          simp only [compare, found]
          exact matched

end Exec

namespace Code

variable {α β : Type} (code : Code α)

theorem lookup_errs (table : Table) (entries : List β) (index : Nat) :
    Errs Fault.Ordinary (code.lookup table entries index) := by
  unfold lookup
  split <;> simp

theorem resolve_errs (operandClass : OperandClass) (next index : Nat) :
    Errs Fault.Ordinary (code.resolve operandClass next index) := by
  cases operandClass with
  | const | name | slot => exact (code.lookup_errs _ _ _).map _
  | none | jumpRelative | jumpAbsolute | int => trivial

theorem decodeAt_errs (offset : Nat) : Errs Fault.Ordinary (code.decodeAt offset) := by
  unfold decodeAt
  split
  · exact rfl
  · split
    · exact rfl
    · split
      · split
        · exact (code.resolve_errs _ _ _).map _
        · exact rfl
      · trivial

end Code

theorem Code.params_errs {α : Type} (code : Code α) : Errs Fault.OffStack code.params := by
  unfold params
  split <;> simp

theorem Code.bindArguments_errs (code : Code Value) (arguments defaults : List Value) :
    Errs Fault.OffStack (code.bindArguments arguments defaults) := by
  refine .bind code.params_errs fun params => ?_
  dsimp only
  split
  · exact rfl
  · trivial

theorem Raised.ofValues_errs (kind value trace : Value) (heap : Heap) :
    Errs Fault.OffStack (Raised.ofValues kind value trace heap) := by
  cases kind with
  | exceptionKind known =>
      cases value with
      | nothing | exception object =>
          cases trace with
          | nothing | traceback frames => trivial
          | _ => exact rfl
      | _ => exact rfl
  | _ => exact rfl

theorem Active.release_errs (block : Block) (a : Active) : Errs Fault.Ordinary (a.release block).1 := by
  unfold release
  split
  · split
    · exact rfl
    · split
      · rename_i kind value trace rest _
        have built := Raised.ofValues_errs kind value trace a.world.heap
        dsimp only
        split
        · trivial
        · rename_i fault failed
          rw [failed] at built
          exact built.ordinary
      · exact rfl
  · split
    · exact rfl
    · trivial

end BlockVM
