import BlockVM.Namespace
import BlockVM.Value.Basic

namespace BlockVM

/-! The heap holds what can change: lists, the cursors of iterators, and namespaces. References
are never reused. -/

/-- Where an iterator stands. A list is read as it is at each step. -/
inductive Cursor where
  | list (ref : ListRef) (index : Nat)
  | items (rest : List Value)
  /-- The offset counts bytes. -/
  | text (source : String) (offset : Nat)
  | range (range : Range) (index : Nat)
deriving Inhabited

structure NamespaceRef where
  index : Nat
deriving Repr, DecidableEq, Inhabited

/-- What the machine underneath has room for. How much that is differs between machines; the defaults are those
of one with 64 bits and a stack of the usual size. -/
structure Platform where
  /-- No request for more bytes than this can be met. -/
  addressable : Nat := 1 <<< 47
  /-- How many values may lie in one another before a comparison of them is taken for endless. -/
  patience : Nat := 10000
  patient : Value.nestingLimit < patience := by decide

instance : Inhabited Platform := ⟨{}⟩

structure Heap where
  lists : Array (Array Value)
  cursors : Array Cursor
  namespaces : Array Namespace
  /-- Identities given out so far. -/
  born : Nat
  platform : Platform
deriving Inhabited

/-- A result that is still to be placed in the heap. -/
inductive Draft where
  | value (value : Value)
  | str (text : String)
  | list (items : Array Value)
  | tuple (items : List Value)

namespace Heap

def empty (platform : Platform := default) : Heap :=
  { lists := #[], cursors := #[], namespaces := #[], born := 0, platform }

/-- A new identity. -/
def fresh (heap : Heap) : Nat × Heap :=
  (heap.born, { heap with born := heap.born + 1 })

def newStr (text : String) (heap : Heap) : Value × Heap :=
  let (id, heap) := heap.fresh
  (.str id text, heap)

def newTuple (items : List Value) (heap : Heap) : Value × Heap :=
  let (id, heap) := heap.fresh
  (.tuple id items, heap)

def newList (items : Array Value) (heap : Heap) : Value × Heap :=
  (.list ⟨heap.lists.size⟩, { heap with lists := heap.lists.push items })

def newIterator (cursor : Cursor) (heap : Heap) : Value × Heap :=
  (.iterator ⟨heap.cursors.size⟩, { heap with cursors := heap.cursors.push cursor })

def newNamespace (space : Namespace) (heap : Heap) : NamespaceRef × Heap :=
  (⟨heap.namespaces.size⟩, { heap with namespaces := heap.namespaces.push space })

def place : Draft → Heap → Value × Heap
  | .value value, heap => (value, heap)
  | .str text, heap => heap.newStr text
  | .list items, heap => heap.newList items
  | .tuple items, heap => heap.newTuple items

/-- Places drafts in order; `placed` are the values before, last first. -/
def placeAll (placed : List Value) : List Draft → Heap → List Value × Heap
  | [], heap => (placed.reverse, heap)
  | draft :: drafts, heap =>
      let (value, heap) := heap.place draft
      placeAll (value :: placed) drafts heap

/-- The items of a list. -/
def items (heap : Heap) (ref : ListRef) : Array Value :=
  heap.lists.getD ref.index #[]

def updateItems (ref : ListRef) (change : Array Value → Array Value) (heap : Heap) : Heap :=
  { heap with lists := heap.lists.modify ref.index change }

def cursor (heap : Heap) (ref : CursorRef) : Cursor :=
  heap.cursors.getD ref.index (.items [])

def setCursor (ref : CursorRef) (cursor : Cursor) (heap : Heap) : Heap :=
  { heap with cursors := heap.cursors.setIfInBounds ref.index cursor }

def space (heap : Heap) (ref : NamespaceRef) : Namespace :=
  heap.namespaces.getD ref.index .empty

def updateSpace (ref : NamespaceRef) (change : Namespace → Namespace) (heap : Heap) : Heap :=
  { heap with namespaces := heap.namespaces.modify ref.index change }

end Heap

/-! Loading code gives each constant its identity: one object for each place in a table. -/

mutual

def Constant.load : Constant → Heap → Value × Heap
  | .nothing, heap => (.nothing, heap)
  | .bool value, heap => (.bool value, heap)
  | .int value, heap => (.int value, heap)
  | .float value, heap => (.float value, heap)
  | .str text, heap => heap.newStr text
  | .list items, heap =>
      let (values, heap) := Constant.loadList items heap
      heap.newList values.toArray
  | .tuple items, heap =>
      let (values, heap) := Constant.loadList items heap
      heap.newTuple values
  | .range progression, heap => (.range progression, heap)
  | .builtin function, heap => (.builtin function, heap)
  | .exceptionKind kind, heap => (.exceptionKind kind, heap)
  | .code unit, heap =>
      let (loaded, heap) := Constant.loadCode unit heap
      let (id, heap) := heap.fresh
      (.code id loaded, heap)

def Constant.loadList : List Constant → Heap → List Value × Heap
  | [], heap => ([], heap)
  | constant :: constants, heap =>
      let (value, heap) := constant.load heap
      let (values, heap) := Constant.loadList constants heap
      (value :: values, heap)

def Constant.loadCode : Code Constant → Heap → Code Value × Heap
  | ⟨name, instructions, constants, names, localSlots, argCount⟩, heap =>
      let (values, heap) := Constant.loadList constants heap
      (⟨name, instructions, values, names, localSlots, argCount⟩, heap)

end

/-- A code object ready to run. -/
def Code.load (code : Code Constant) (heap : Heap) : Code Value × Heap :=
  Constant.loadCode code heap

end BlockVM
