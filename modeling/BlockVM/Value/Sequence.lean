import BlockVM.Text.Basic
import BlockVM.Value.Arithmetic
import BlockVM.Value.Equality

namespace BlockVM

namespace Value

def truthy (heap : Heap) : Value → Bool
  | .nothing => false
  | .bool value => value
  | .int i => i != 0
  | .float x => x != 0
  | .str _ text => !text.isEmpty
  | .list ref => !(heap.items ref).isEmpty
  | .tuple _ items => !items.isEmpty
  | .range progression => !progression.isEmpty
  | _ => true

def length? (heap : Heap) : Value → Option Nat
  | .str _ text => some text.length
  | .list ref => some (heap.items ref).size
  | .tuple _ items => some items.length
  | .range progression => some progression.size
  | _ => none

/-- The position that an index denotes in a sequence of `length` items, negative ones counting
from the end. Only the first `Word.greatest` positions can be denoted. -/
def position (index : Value) (length : Nat) (container : String) : Except Fault Nat :=
  match index.int? with
  | none => .error (.indexNotInteger container index.typeName)
  | some i =>
      let bound : Int := min length Word.greatest
      let resolved := if i < 0 then i.toInt + bound else i.toInt
      if 0 ≤ resolved ∧ resolved < bound then .ok resolved.toNat
      else .error (.indexOutOfRange container)

/-- The item at an index. A character of a string is a new string. -/
def item (heap : Heap) (container index : Value) : Except Fault Draft :=
  match container with
  | .list ref => do
      let i ← index.position (heap.items ref).size "list"
      return .value ((heap.items ref).getD i .nothing)
  | .tuple _ items => do
      let i ← index.position items.length "tuple"
      return .value (items.getD i .nothing)
  | .str _ text => do
      let i ← index.position text.length "string"
      return .str (String.singleton (text.toList.getD i '\x00'))
  | .range progression => do
      let i ← index.position progression.size "range object"
      match progression.get? i with
      | some element => return .value (.int element)
      | none => throw (.indexOutOfRange "range object")
  | other => .error (.notSubscriptable other.typeName)

/-- Assigns to an item of a list. -/
def setItem (heap : Heap) (container index value : Value) : Except Fault Heap :=
  match container with
  | .list ref => do
      let i ← index.position (heap.items ref).size "list assignment"
      return heap.updateItems ref (·.setIfInBounds i value)
  | other => .error (.noItemAssignment other.typeName)

def add (heap : Heap) (a b : Value) : Except Fault (Option Draft) :=
  match a.number?, b.number? with
  | some (.int x), some (.int y) =>
      (exactInt (Word.add? x y)).map (·.map .value)
  | some x, some y => .ok (some (.value (.float (x.toFloat + y.toFloat))))
  | _, _ =>
      match a, b with
      | .str _ s, .str _ t => .ok (some (.str (s ++ t)))
      | .list r, .list s => .ok (some (.list (heap.items r ++ heap.items s)))
      | .tuple _ xs, .tuple _ ys => .ok (some (.tuple (xs ++ ys)))
      | _, _ => .ok none

/-- The sequence and the count of a repetition, which may stand in either order. A negative count
is zero. -/
def repetition? (a b : Value) : Option (Value × Nat) :=
  match a.number?, b.number? with
  | some _, some _ => none
  | _, _ =>
      match a.int?, b.int? with
      | _, some count => some (a, count.toInt.toNat)
      | some count, none => some (b, count.toInt.toNat)
      | none, none => none

/-- The bytes that a repetition takes. -/
def repetitionBytes? (heap : Heap) (a b : Value) : Option Nat :=
  match repetition? a b with
  | some (.str _ text, count) => some (Size.mul text.utf8ByteSize count)
  | some (.list ref, count) => some (Size.mul (Size.mul (heap.items ref).size Size.slot) count)
  | some (.tuple _ items, count) => some (Size.mul (Size.mul items.length Size.slot) count)
  | _ => none

/-- Refuses `count` copies of a sequence of `bytes` bytes if no memory could hold them. -/
def reserve (platform : Platform) (bytes count : Nat) : Except Fault Unit :=
  if platform.addressable < bytes * count then .error .resultTooLarge else .ok ()

def repeatText (count : Nat) (text : String) : String :=
  if text.isEmpty then "" else Nat.repeat (· ++ text) count ""

def repeatItems {α : Type} (count : Nat) (items : List α) : List α :=
  if items.isEmpty then [] else Nat.repeat (items ++ ·) count []

def repeatArray {α : Type} (count : Nat) (items : Array α) : Array α :=
  if items.isEmpty then #[] else Nat.repeat (· ++ items) count #[]

def multiply (heap : Heap) (a b : Value) : Except Fault (Option Draft) :=
  match a.number?, b.number? with
  | some (.int x), some (.int y) =>
      (exactInt (Word.multiply? x y)).map (·.map .value)
  | some x, some y => .ok (some (.value (.float (x.toFloat * y.toFloat))))
  | _, _ =>
      match repetition? a b with
      | some (.str _ text, count) => do
          reserve heap.platform text.utf8ByteSize count
          return some (.str (repeatText count text))
      | some (.list ref, count) => do
          reserve heap.platform ((heap.items ref).size * Size.slot) count
          return some (.list (repeatArray count (heap.items ref)))
      | some (.tuple _ items, count) => do
          reserve heap.platform (items.length * Size.slot) count
          return some (.tuple (repeatItems count items))
      | _ => .ok none

/-- The result of a binary operator, or `none` if the operands do not have it. -/
def apply (heap : Heap) (operator : BinaryOperator) (a b : Value) : Except Fault (Option Draft) :=
  let plain (result : Except Fault (Option Value)) : Except Fault (Option Draft) :=
    result.map (·.map .value)
  match operator with
  | .power => plain (power a b)
  | .multiply => multiply heap a b
  | .modulo => plain (modulo a b)
  | .add => add heap a b
  | .subtract => plain (subtract a b)
  | .floorDivide => plain (floorDivide a b)
  | .trueDivide => plain (trueDivide a b)
  | .shiftLeft => plain (shiftLeft a b)
  | .shiftRight => plain (shiftRight a b)
  | .and => plain (.ok (bitwise Bool.and (· &&& ·) a b))
  | .xor => plain (.ok (bitwise Bool.xor (· ^^^ ·) a b))
  | .or => plain (.ok (bitwise Bool.or (· ||| ·) a b))

def containsText (needle : List Char) : List Char → Bool
  | [] => needle.isEmpty
  | c :: text => needle.isPrefixOf (c :: text) || containsText needle text

/-- Whether some item is equal; it stops at the first that is. -/
def anyEqual (equal : Value → Value → Option Bool) (value : Value) : List Value → Option Bool
  | [] => some false
  | item :: items =>
      match equal item value with
      | some false => anyEqual equal value items
      | other => other

/-- Membership. -/
def contains (heap : Heap) (container value : Value) : Except Failure Bool :=
  let search (items : List Value) : Except Failure Bool :=
    match anyEqual (equal? heap) value items with
    | some found => .ok found
    | none => .error .unending
  match container with
  | .list ref => search (heap.items ref).toList
  | .tuple _ items => search items
  | .range progression =>
      .ok (match value.int? with
        | some i => progression.contains i
        | none => false)
  | .str _ text =>
      match value with
      | .str _ needle => .ok (containsText needle.toList text.toList)
      | other => .error (.raised (.needleNotString other.typeName))
  | other => .error (.raised (.notContainer other.typeName))

end Value

namespace Cursor

/-- The next item and the cursor behind it. -/
def next? (heap : Heap) : Cursor → Option (Draft × Cursor)
  | .list ref index => (heap.items ref)[index]?.map fun item => (.value item, .list ref (index + 1))
  | .items [] => none
  | .items (item :: rest) => some (.value item, .items rest)
  | .text source offset => do
      let rest ← Text.dropBytes? offset source
      let c ← rest.front?
      return (.str (String.singleton c), .text source (offset + c.utf8Size))
  | .range progression index =>
      (progression.get? index).map fun i => (.value (.int i), .range progression (index + 1))

/-- How many items are left. -/
def remaining (heap : Heap) : Cursor → Nat
  | .list ref index => (heap.items ref).size - index
  | .items rest => rest.length
  | .text source offset => (Text.dropBytes? offset source).elim 0 (·.copy.length)
  | .range progression index => progression.size - index

/-- The next `count` items, last first on top of `taken`, and the cursor behind them. -/
def take (heap : Heap) : Nat → List Draft → Cursor → List Draft × Cursor
  | 0, taken, cursor => (taken.reverse, cursor)
  | count + 1, taken, cursor =>
      match cursor.next? heap with
      | some (item, behind) => take heap count (item :: taken) behind
      | none => (taken.reverse, cursor)

end Cursor

/-- The cursor at the start of an iterable; an iterator has its own. -/
def Value.cursor? (heap : Heap) : Value → Option Cursor
  | .iterator ref => some (heap.cursor ref)
  | .list ref => some (.list ref 0)
  | .tuple _ items => some (.items items)
  | .str _ text => some (.text text 0)
  | .range progression => some (.range progression 0)
  | _ => none

end BlockVM
