import BlockVM.Machine.Run

namespace BlockVM

/-! # Registered values

A register holds the objects that have been made: each text and each tuple is entered under its identity when it is
made, and is found there ever after. Operations on the world bring nothing else into it. Where identities do not matter
no account of them is kept, and what is left is that no value stands for an exception under way. -/

/-- The texts and tuples made so far, each under its identity. -/
inductive Register where
  | untracked
  | tracked (objects : List Value)

namespace Register

def Entered : Register → Nat → Value → Prop
  | .untracked, _, _ => True
  | .tracked objects, id, object => objects[id]? = some object

/-- So many identities have been given out. -/
def Counts : Register → Nat → Prop
  | .untracked, _ => True
  | .tracked objects, born => born = objects.length

def enter (entry : Value) : Register → Register
  | .untracked => .untracked
  | .tracked objects => .tracked (objects ++ [entry])

/-- Nothing that was entered is lost. -/
inductive Grows : Register → Register → Prop where
  | untracked : Grows .untracked .untracked
  | tracked {objects more : List Value} (grown : objects <+: more) : Grows (.tracked objects) (.tracked more)

/-- Identities are kept account of. -/
def Tracks (register : Register) : Prop :=
  ∃ objects, register = .tracked objects

variable {register more last : Register} {id : Nat} {object : Value}

theorem Grows.refl (register : Register) : register.Grows register := by
  cases register with
  | untracked => exact .untracked
  | tracked objects => exact .tracked List.prefix_rfl

theorem Grows.trans (first : register.Grows more) (second : more.Grows last) : register.Grows last := by
  cases first with
  | untracked => exact second
  | tracked grown =>
      cases second with
      | tracked grows => exact .tracked (grown.trans grows)

theorem grows_enter (register : Register) (entry : Value) : register.Grows (register.enter entry) := by
  cases register with
  | untracked => exact .untracked
  | tracked objects => exact .tracked (List.prefix_append objects [entry])

theorem Grows.entered (grown : register.Grows more) (entered : register.Entered id object) :
    more.Entered id object := by
  cases grown with
  | untracked => trivial
  | tracked grown =>
      obtain ⟨rest, rfl⟩ := grown
      rw [Entered] at entered ⊢
      rw [List.getElem?_append_left (List.getElem?_eq_some_iff.mp entered).1, entered]

theorem Grows.tracks (grown : register.Grows more) (tracks : register.Tracks) : more.Tracks := by
  obtain ⟨objects, rfl⟩ := tracks
  cases grown
  exact ⟨_, rfl⟩

theorem Tracks.unique {other : Value} (tracks : register.Tracks) (first : register.Entered id object)
    (second : register.Entered id other) : object = other := by
  obtain ⟨objects, rfl⟩ := tracks
  exact Option.some_inj.mp (Eq.trans (Eq.symm first) second)

theorem Counts.enter {born : Nat} (counts : register.Counts born) (entry : Value) :
    (register.enter entry).Counts (born + 1) := by
  cases register with
  | untracked => trivial
  | tracked objects =>
      rw [Counts] at counts
      rw [Register.enter, Counts, List.length_append, counts, List.length_singleton]

theorem Counts.entered {born : Nat} (counts : register.Counts born) (entry : Value) :
    (register.enter entry).Entered born entry := by
  cases register with
  | untracked => trivial
  | tracked objects =>
      rw [Counts] at counts
      simp [Register.enter, Entered, counts]

end Register

namespace Value

/-- A value that holds no other values, or only those that the heap holds for it, and does not stand for an exception
under way. -/
def isAtom : Value → Bool
  | .str .. | .tuple .. | .function .. | .code .. | .signal .raising => false
  | _ => true

/-- All texts and tuples in a value are in the register. -/
inductive Registered (register : Register) : Value → Prop where
  | atom {v : Value} (atom : v.isAtom = true) : Registered register v
  | str {id : Nat} {text : String} (entered : register.Entered id (.str id text)) : Registered register (.str id text)
  | tuple {id : Nat} {items : List Value} (entered : register.Entered id (.tuple id items))
      (held : ∀ item ∈ items, Registered register item) : Registered register (.tuple id items)
  | function {id : Nat} {name : String} {code : Code Value} {defaults : List Value}
      (constants : ∀ constant ∈ code.constants, Registered register constant)
      (held : ∀ value ∈ defaults, Registered register value) : Registered register (.function id name code defaults)
  | code {id : Nat} {code : Code Value} (constants : ∀ constant ∈ code.constants, Registered register constant) :
      Registered register (.code id code)

theorem Registered.mono {register more : Register} {v : Value} (registered : v.Registered register)
    (grown : register.Grows more) : v.Registered more := by
  induction registered with
  | atom atom => exact .atom atom
  | str entered => exact .str (grown.entered entered)
  | tuple entered _ ih => exact .tuple (grown.entered entered) ih
  | function _ _ first second => exact .function first second
  | code _ ih => exact .code ih

/-- All of several values. -/
def AllRegistered (register : Register) (values : List Value) : Prop :=
  ∀ v ∈ values, v.Registered register

theorem AllRegistered.mono {register more : Register} {values : List Value} (registered : AllRegistered register values)
    (grown : register.Grows more) : AllRegistered more values :=
  fun v member => (registered v member).mono grown

@[simp] theorem allRegistered_nil {register : Register} : AllRegistered register [] := nofun

@[simp] theorem allRegistered_cons {register : Register} {values : List Value} {v : Value} :
    AllRegistered register (v :: values) ↔ v.Registered register ∧ AllRegistered register values :=
  List.forall_mem_cons

end Value

open Value (AllRegistered allRegistered_cons allRegistered_nil)

def Draft.Registered (register : Register) : Draft → Prop
  | .value v => v.Registered register
  | .str _ => True
  | .list items => AllRegistered register items.toList
  | .tuple items => AllRegistered register items

theorem Draft.Registered.mono {register more : Register} {draft : Draft} (registered : draft.Registered register)
    (grown : register.Grows more) : draft.Registered more := by
  cases draft with
  | value value => exact Value.Registered.mono registered grown
  | str text => trivial
  | list items => exact AllRegistered.mono registered grown
  | tuple items => exact AllRegistered.mono registered grown

def Cursor.Registered (register : Register) : Cursor → Prop
  | .items rest => AllRegistered register rest
  | _ => True

theorem Cursor.Registered.mono {register more : Register} {cursor : Cursor} (registered : cursor.Registered register)
    (grown : register.Grows more) : cursor.Registered more := by
  cases cursor with
  | items rest => exact AllRegistered.mono registered grown
  | _ => trivial

def Namespace.Registered (register : Register) (space : Namespace) : Prop :=
  AllRegistered register (space.entries.map (·.2))

/-- The heap holds registered values only, and has given out as many identities as there are entries. -/
structure Heap.Registered (register : Register) (heap : Heap) : Prop where
  born : register.Counts heap.born
  lists : ∀ items ∈ heap.lists, AllRegistered register items.toList
  cursors : ∀ cursor ∈ heap.cursors, cursor.Registered register
  spaces : ∀ space ∈ heap.namespaces, space.Registered register

/-- Some larger register has the property. -/
def Later (register : Register) (holds : Register → Prop) : Prop :=
  ∃ more, register.Grows more ∧ holds more

theorem Later.now {register : Register} {holds : Register → Prop} (held : holds register) : Later register holds :=
  ⟨register, .refl register, held⟩

theorem Later.after {register more : Register} {holds : Register → Prop} (later : Later more holds)
    (grown : register.Grows more) : Later register holds := by
  obtain ⟨last, grows, held⟩ := later
  exact ⟨last, grown.trans grows, held⟩

/-- A value and a state that a larger register accounts for. -/
def Accounted {σ α : Type} (holds : Register → σ → Prop) (register : Register) (result : Register → α → Prop)
    (value : α) (after : σ) : Prop :=
  Later register fun more => holds more after ∧ result more value

section

variable {σ α β : Type} {holds : Register → σ → Prop} {register : Register} {result : Register → α → Prop}
  {value : α} {after : σ}

theorem Accounted.now (state : holds register after) (known : result register value) :
    Accounted holds register result value after :=
  Later.now ⟨state, known⟩

/-- A result in which there is nothing to be registered. -/
abbrev Valueless {α : Type} (_ : Register) (_ : α) : Prop := True

/-- From any state that the register accounts for, the operation leads to a state and a result that are
accounted for again. -/
def Registers (holds : Register → σ → Prop) (register : Register) (result : Register → α → Prop)
    (operation : EStateM Failure σ α) : Prop :=
  ∀ before, holds register before → match operation before with
    | .ok value after => Accounted holds register result value after
    | .error _ after => Accounted holds register Valueless () after

namespace Registers

variable {operation : EStateM Failure σ α} {other : Register → β → Prop}

theorem pure (known : result register value) : Registers holds register result (Pure.pure value) :=
  fun _ state => .now state known

theorem plain (value : α) : Registers holds register Valueless (Pure.pure value) :=
  .pure trivial

theorem throw {failure : Failure} : Registers holds register result (MonadExcept.throw failure) :=
  fun _ state => .now state trivial

theorem throw_bind {failure : Failure} {next : α → EStateM Failure σ β} :
    Registers holds register other (MonadExcept.throw failure >>= next) :=
  fun _ state => .now state trivial

theorem bind {next : α → EStateM Failure σ β} (first : Registers holds register result operation)
    (second : ∀ value more, register.Grows more → result more value → Registers holds more other (next value)) :
    Registers holds register other (operation >>= next) := by
  intro before state
  change match EStateM.bind operation next before with | .ok .. => _ | .error .. => _
  have begun := first before state
  rw [EStateM.bind]
  cases ran : operation before with
  | ok value between =>
      rw [ran] at begun
      obtain ⟨more, grown, state, known⟩ := begun
      have ended := second value more grown known between state
      dsimp only
      split
      · rename_i done
        rw [done] at ended
        exact Later.after ended grown
      · rename_i done
        rw [done] at ended
        exact Later.after ended grown
  | error failure between =>
      rw [ran] at begun
      exact begun

theorem ite {condition : Prop} [Decidable condition] {otherwise : EStateM Failure σ α}
    (first : Registers holds register result operation) (second : Registers holds register result otherwise) :
    Registers holds register result (if condition then operation else otherwise) := by
  split
  · exact first
  · exact second

/-- What is read of the state is accounted for. -/
theorem get {next : σ → EStateM Failure σ α} (second : ∀ before, holds register before →
    Registers holds register result (next before)) : Registers holds register result (MonadState.get >>= next) :=
  fun before state => second before state before state

theorem modify {change : σ → σ}
    (later : ∀ before, holds register before → Later register fun more => holds more (change before)) :
    Registers holds register Valueless (modify change : EStateM Failure σ PUnit) := by
  intro before state
  obtain ⟨more, grown, held⟩ := later before state
  exact ⟨more, grown, held, trivial⟩

theorem set {after : σ} (later : Later register fun more => holds more after) :
    Registers holds register Valueless (MonadStateOf.set after : EStateM Failure σ PUnit) := by
  intro before _
  obtain ⟨more, grown, held⟩ := later
  exact ⟨more, grown, held, trivial⟩

end Registers

end

theorem forall_mem_modify {α : Type} {admits : α → Prop} {row : Array α} {change : α → α} (index : Nat)
    (before : ∀ x ∈ row, admits x) (keeps : ∀ x, admits x → admits (change x)) :
    ∀ x ∈ row.modify index change, admits x := by
  intro x member
  obtain ⟨place, inside, rfl⟩ := Array.mem_iff_getElem.mp member
  rw [Array.size_modify] at inside
  have held := before _ (Array.getElem_mem inside)
  rw [Array.getElem_modify]
  split
  · exact keeps _ held
  · exact held

namespace Heap

variable {heap : Heap} {register : Register}

/-- A new identity is entered in the register. -/
theorem Registered.enter (registered : heap.Registered register) (entry : Value) :
    Registered (register.enter entry) { heap with born := heap.born + 1 } where
  born := registered.born.enter entry
  lists items member := (registered.lists items member).mono (register.grows_enter entry)
  cursors cursor member := (registered.cursors cursor member).mono (register.grows_enter entry)
  spaces space member := AllRegistered.mono (registered.spaces space member) (register.grows_enter entry)

variable (registered : heap.Registered register)

include registered

theorem Registered.fresh : Accounted Registered register Valueless heap.fresh.1 heap.fresh.2 :=
  ⟨_, register.grows_enter .nothing, registered.enter _, trivial⟩

theorem Registered.newStr (text : String) :
    Accounted Registered register Value.Registered (heap.newStr text).1 (heap.newStr text).2 := by
  exact ⟨_, register.grows_enter (.str heap.born text), registered.enter _, .str (registered.born.entered _)⟩

theorem Registered.newTuple {items : List Value} (known : AllRegistered register items) :
    Accounted Registered register Value.Registered (heap.newTuple items).1 (heap.newTuple items).2 := by
  have grown := register.grows_enter (.tuple heap.born items)
  exact ⟨_, grown, registered.enter _, .tuple (registered.born.entered _) (known.mono grown)⟩

theorem Registered.newList {items : Array Value} (known : AllRegistered register items.toList) :
    Accounted Registered register Value.Registered (heap.newList items).1 (heap.newList items).2 := by
  refine .now ⟨registered.born, ?_, registered.cursors, registered.spaces⟩ (.atom rfl)
  intro row member
  rcases Array.mem_push.mp member with member | rfl
  · exact registered.lists row member
  · exact known

theorem Registered.newIterator {cursor : Cursor} (known : cursor.Registered register) :
    Accounted Registered register Value.Registered (heap.newIterator cursor).1 (heap.newIterator cursor).2 := by
  refine .now ⟨registered.born, registered.lists, ?_, registered.spaces⟩ (.atom rfl)
  intro other member
  rcases Array.mem_push.mp member with member | rfl
  · exact registered.cursors other member
  · exact known

theorem Registered.newNamespace {space : Namespace} (known : space.Registered register) :
    Accounted Registered register Valueless (heap.newNamespace space).1 (heap.newNamespace space).2 := by
  refine .now ⟨registered.born, registered.lists, registered.cursors, ?_⟩ trivial
  intro other member
  rcases Array.mem_push.mp member with member | rfl
  · exact registered.spaces other member
  · exact known

theorem Registered.place {draft : Draft} (known : draft.Registered register) :
    Accounted Registered register Value.Registered (heap.place draft).1 (heap.place draft).2 := by
  cases draft with
  | value value => exact .now registered known
  | str text => exact registered.newStr text
  | list items => exact registered.newList known
  | tuple items => exact registered.newTuple known

omit registered in
theorem Registered.placeAll {heap : Heap} {register : Register} (registered : heap.Registered register)
    {drafts : List Draft} {placed : List Value} (known : ∀ draft ∈ drafts, draft.Registered register)
    (before : AllRegistered register placed) :
    Accounted Registered register AllRegistered (heap.placeAll placed drafts).1 (heap.placeAll placed drafts).2 := by
  induction drafts generalizing heap register placed with
  | nil => exact .now registered fun v member => before v (List.mem_reverse.mp member)
  | cons draft drafts ih =>
      obtain ⟨more, grown, state, value⟩ := registered.place (known draft List.mem_cons_self)
      refine Later.after (ih state (fun other member => ?_) ?_) grown
      · exact (known other (List.mem_cons_of_mem draft member)).mono grown
      · exact allRegistered_cons.mpr ⟨value, before.mono grown⟩

theorem Registered.items (ref : ListRef) : AllRegistered register (heap.items ref).toList := by
  rw [Heap.items, Array.getD_eq_getD_getElem?]
  cases stored : heap.lists[ref.index]? with
  | none => exact allRegistered_nil
  | some row => exact registered.lists row (Array.mem_of_getElem? stored)

theorem Registered.cursor (ref : CursorRef) : (heap.cursor ref).Registered register := by
  rw [Heap.cursor, Array.getD_eq_getD_getElem?]
  cases stored : heap.cursors[ref.index]? with
  | none => exact allRegistered_nil
  | some cursor => exact registered.cursors cursor (Array.mem_of_getElem? stored)

theorem Registered.space (ref : NamespaceRef) : (heap.space ref).Registered register := by
  rw [Heap.space, Array.getD_eq_getD_getElem?]
  cases stored : heap.namespaces[ref.index]? with
  | none => exact allRegistered_nil
  | some space => exact registered.spaces space (Array.mem_of_getElem? stored)

theorem Registered.updateItems {ref : ListRef} {change : Array Value → Array Value}
    (keeps : ∀ items : Array Value, AllRegistered register items.toList → AllRegistered register (change items).toList) :
    Registered register (heap.updateItems ref change) := by
  exact ⟨registered.born, forall_mem_modify ref.index registered.lists keeps, registered.cursors,
    registered.spaces⟩

theorem Registered.setCursor {ref : CursorRef} {cursor : Cursor} (known : cursor.Registered register) :
    Registered register (heap.setCursor ref cursor) := by
  refine ⟨registered.born, registered.lists, ?_, registered.spaces⟩
  intro other member
  rcases Array.mem_or_eq_of_mem_setIfInBounds member with member | rfl
  · exact registered.cursors other member
  · exact known

theorem Registered.updateSpace {ref : NamespaceRef} {change : Namespace → Namespace}
    (keeps : ∀ space : Namespace, space.Registered register → (change space).Registered register) :
    Registered register (heap.updateSpace ref change) := by
  exact ⟨registered.born, registered.lists, registered.cursors,
    forall_mem_modify ref.index registered.spaces keeps⟩

end Heap

namespace Namespace

variable {space : Namespace} {register : Register} {name : String} {value : Value}

theorem Registered.get? (registered : space.Registered register) (found : space.get? name = some value) :
    value.Registered register := by
  obtain ⟨before, behind, split, _⟩ := List.lookup_eq_some_iff.mp found
  exact registered value (List.mem_map.mpr ⟨(name, value), by simp [split], rfl⟩)

theorem Registered.set (registered : space.Registered register) (known : value.Registered register) :
    (space.set name value).Registered register := by
  obtain ⟨entries⟩ := space
  change AllRegistered register ((assign name value entries).map (·.2))
  induction entries with
  | nil => exact allRegistered_cons.mpr ⟨known, allRegistered_nil⟩
  | cons entry entries ih =>
      obtain ⟨first, rest⟩ := allRegistered_cons.mp registered
      rw [assign]
      split
      · exact allRegistered_cons.mpr ⟨known, rest⟩
      · exact allRegistered_cons.mpr ⟨first, ih rest⟩

theorem Registered.remove (registered : space.Registered register) : (space.remove name).Registered register := by
  intro v member
  obtain ⟨entry, kept, rfl⟩ := List.mem_map.mp member
  exact registered _ (List.mem_map.mpr ⟨entry, List.mem_of_mem_eraseP kept, rfl⟩)

theorem Registered.setAll {bindings : List (String × Value)} (registered : space.Registered register)
    (known : AllRegistered register (bindings.map (·.2))) :
    (bindings.foldl (fun space (name, value) => space.set name value) space).Registered register := by
  induction bindings generalizing space with
  | nil => exact registered
  | cons binding bindings ih =>
      obtain ⟨first, rest⟩ := allRegistered_cons.mp known
      exact ih (registered.set first) rest

theorem Registered.ofList {bindings : List (String × Value)} (known : AllRegistered register (bindings.map (·.2))) :
    (Namespace.ofList bindings).Registered register := by
  have empty : Namespace.empty.Registered register := allRegistered_nil
  exact empty.setAll known

end Namespace

namespace Cursor

variable {heap : Heap} {register : Register} {cursor behind : Cursor} {item : Draft}

theorem Registered.next? (registered : heap.Registered register) (known : cursor.Registered register)
    (found : cursor.next? heap = some (item, behind)) : item.Registered register ∧ behind.Registered register := by
  cases cursor with
  | list ref index =>
      obtain ⟨value, stored, same⟩ := Option.map_eq_some_iff.mp found
      cases same
      exact ⟨registered.items ref value (Array.mem_toList_iff.mpr (Array.mem_of_getElem? stored)), trivial⟩
  | items rest =>
      cases rest with
      | nil => cases found
      | cons first rest =>
          cases found
          exact List.forall_mem_cons.mp known
  | text source offset =>
      simp only [Cursor.next?, Option.bind_eq_bind, Option.bind_eq_some_iff] at found
      obtain ⟨rest, _, c, _, same⟩ := found
      cases same
      exact ⟨trivial, trivial⟩
  | range progression index =>
      obtain ⟨element, _, same⟩ := Option.map_eq_some_iff.mp found
      cases same
      exact ⟨.atom rfl, trivial⟩

theorem Registered.take (registered : heap.Registered register) (known : cursor.Registered register) (count : Nat)
    (taken : List Draft) (before : ∀ draft ∈ taken, draft.Registered register) :
    (∀ draft ∈ (cursor.take heap count taken).1, draft.Registered register) ∧
      (cursor.take heap count taken).2.Registered register := by
  induction count generalizing cursor taken with
  | zero => exact ⟨fun draft member => before draft (List.mem_reverse.mp member), known⟩
  | succ count ih =>
      rw [Cursor.take]
      split
      · rename_i item behind found
        obtain ⟨first, rest⟩ := Registered.next? registered known found
        exact ih rest _ (List.forall_mem_cons.mpr ⟨first, before⟩)
      · exact ⟨fun draft member => before draft (List.mem_reverse.mp member), known⟩

end Cursor

/-- If there is a result, it is one of those admitted. -/
@[simp] def Gives {ε α : Type} (admits : α → Prop) : Except ε α → Prop
  | .ok value => admits value
  | .error _ => True

namespace Gives

variable {ε α β : Type} {admits : α → Prop} {other : β → Prop} {result : Except ε α}

theorem any : Gives (fun _ => True) result := by
  cases result <;> trivial

theorem weaken {weaker : α → Prop} (gives : Gives admits result) (weakens : ∀ value, admits value → weaker value) :
    Gives weaker result := by
  cases result with
  | ok value => exact weakens value gives
  | error error => trivial

theorem map {change : α → β} (gives : Gives admits result) (turns : ∀ value, admits value → other (change value)) :
    Gives other (result.map change) := by
  cases result with
  | ok value => exact turns value gives
  | error error => trivial

theorem bind {next : α → Except ε β} (gives : Gives admits result)
    (turns : ∀ value, admits value → Gives other (next value)) : Gives other (result >>= next) := by
  cases result with
  | ok value => exact turns value gives
  | error error => trivial

end Gives

namespace Value

variable {heap : Heap} {register : Register} {a b : Value}

theorem cursor?_registered {cursor : Cursor} (registered : heap.Registered register) (known : a.Registered register)
    (found : a.cursor? heap = some cursor) : cursor.Registered register := by
  cases a with
  | iterator ref =>
      cases found
      exact registered.cursor ref
  | tuple id items =>
      cases found
      cases known with
      | atom atom => cases atom
      | tuple _ held => exact held
  | list | str | range => cases found; trivial
  | _ => cases found

/-- There is nothing to be registered in a result. -/
@[simp] def Bare : Option Value → Prop
  | some v => v.isAtom = true
  | none => True

theorem exactInt_bare (result : Option Int64) : Gives Bare (exactInt result) := by
  cases result <;> trivial

theorem subtract_bare (a b : Value) : Gives Bare (subtract a b) := by
  unfold subtract
  split
  · exact exactInt_bare _
  · exact rfl
  · trivial

theorem trueDivide_bare (a b : Value) : Gives Bare (trueDivide a b) := by
  unfold trueDivide
  split
  · dsimp only
    split <;> trivial
  · trivial

theorem floorDivide_bare (a b : Value) : Gives Bare (floorDivide a b) := by
  unfold floorDivide
  split
  · split
    · trivial
    · exact exactInt_bare _
  · dsimp only
    split <;> trivial
  · trivial

theorem modulo_bare (a b : Value) : Gives Bare (modulo a b) := by
  unfold modulo
  split
  · split <;> trivial
  · dsimp only
    split <;> trivial
  · trivial

theorem power_bare (a b : Value) : Gives Bare (power a b) := by
  unfold power
  split
  · split
    · split <;> trivial
    · exact exactInt_bare _
  · dsimp only
    split <;> trivial
  · trivial

theorem shiftLeft_bare (a b : Value) : Gives Bare (shiftLeft a b) := by
  unfold shiftLeft
  split
  · split
    · trivial
    · split
      · exact rfl
      · exact exactInt_bare _
  · trivial

theorem shiftRight_bare (a b : Value) : Gives Bare (shiftRight a b) := by
  unfold shiftRight
  split
  · split <;> trivial
  · trivial

theorem bitwise_bare (bools : Bool → Bool → Bool) (ints : Int64 → Int64 → Int64) (a b : Value) :
    Bare (bitwise bools ints a b) := by
  unfold bitwise
  split
  · exact rfl
  · split <;> trivial

theorem negate_bare (a : Value) : Gives Bare (negate a) := by
  unfold negate
  split
  · exact exactInt_bare _
  · exact rfl
  · trivial

theorem positive_bare (a : Value) : Bare (positive a) := by
  unfold positive
  split <;> trivial

theorem invert_bare (a : Value) : Bare (invert a) := by
  unfold invert
  cases a.int? <;> trivial

/-- An optional result that is accounted for. -/
def FoundRegistered (register : Register) : Option Draft → Prop
  | some draft => draft.Registered register
  | none => True

theorem FoundRegistered.mono {register more : Register} {found : Option Draft}
    (known : FoundRegistered register found) (grown : register.Grows more) : FoundRegistered more found := by
  cases found with
  | none => trivial
  | some draft => exact Draft.Registered.mono known grown

theorem Bare.found {result : Option Value} (bare : Bare result) : FoundRegistered register (result.map .value) := by
  cases result with
  | none => trivial
  | some v => exact .atom bare

theorem Registered.items {id : Nat} {items : List Value} (known : (Value.tuple id items).Registered register) :
    AllRegistered register items := by
  cases known with
  | atom atom => cases atom
  | tuple _ held => exact held

theorem Registered.constants {id : Nat} {code : Code Value} (known : (Value.code id code).Registered register) :
    AllRegistered register code.constants := by
  cases known with
  | atom atom => cases atom
  | code constants => exact constants

theorem Registered.parts {id : Nat} {name : String} {code : Code Value} {defaults : List Value}
    (known : (Value.function id name code defaults).Registered register) :
    AllRegistered register code.constants ∧ AllRegistered register defaults := by
  cases known with
  | atom atom => cases atom
  | function constants held => exact ⟨constants, held⟩

theorem AllRegistered.append {xs ys : List Value} (first : AllRegistered register xs) (second : AllRegistered register ys) :
    AllRegistered register (xs ++ ys) :=
  fun v member => (List.mem_append.mp member).elim (first v) (second v)

theorem add_registered (registered : heap.Registered register) (left : a.Registered register) (right : b.Registered register) :
    Gives (FoundRegistered register) (add heap a b) := by
  unfold add
  split
  · exact (exactInt_bare _).map fun _ => Bare.found
  · exact .atom rfl
  · split
    · trivial
    · change AllRegistered register (_ ++ _ : Array Value).toList
      rw [Array.toList_append]
      exact (registered.items _).append (registered.items _)
    · exact left.items.append right.items
    · trivial

theorem repeatItems_registered {items : List Value} (known : AllRegistered register items) (count : Nat) :
    AllRegistered register (repeatItems count items) := by
  unfold repeatItems
  split
  · exact nofun
  · induction count with
    | zero => exact nofun
    | succ count ih => exact known.append ih

theorem repeatArray_registered {items : Array Value} (known : AllRegistered register items.toList) (count : Nat) :
    AllRegistered register (repeatArray count items).toList := by
  unfold repeatArray
  split
  · exact nofun
  · induction count with
    | zero => exact nofun
    | succ count ih =>
        rw [Nat.repeat, Array.toList_append]
        exact ih.append known

theorem multiply_registered (registered : heap.Registered register) (left : a.Registered register)
    (right : b.Registered register) : Gives (FoundRegistered register) (multiply heap a b) := by
  have either {sequence : Value} {count : Nat} (found : repetition? a b = some (sequence, count)) :
      sequence.Registered register := by
    unfold repetition? at found
    split at found
    · cases found
    · split at found <;> cases found
      · exact left
      · exact right
  have reserved {α : Type} {admits : α → Prop} {bytes count : Nat} {value : α} (known : admits value) :
      Gives admits (do
        reserve heap.platform bytes count
        return value : Except Fault α) := by
    unfold reserve
    split
    · trivial
    · exact known
  unfold multiply
  split
  · exact (exactInt_bare _).map fun _ => Bare.found
  · exact .atom rfl
  · split
    · exact reserved trivial
    · exact reserved (repeatArray_registered (registered.items _) _)
    · rename_i found
      exact reserved (repeatItems_registered (either found).items _)
    · trivial

theorem apply_registered (operator : BinaryOperator) (registered : heap.Registered register)
    (left : a.Registered register) (right : b.Registered register) :
    Gives (FoundRegistered register) (apply heap operator a b) := by
  have plain {result : Except Fault (Option Value)} (bare : Gives Bare result) :
      Gives (FoundRegistered register) (result.map (·.map .value)) := bare.map fun _ => Bare.found
  cases operator with
  | power => exact plain (power_bare a b)
  | multiply => exact multiply_registered registered left right
  | modulo => exact plain (modulo_bare a b)
  | add => exact add_registered registered left right
  | subtract => exact plain (subtract_bare a b)
  | floorDivide => exact plain (floorDivide_bare a b)
  | trueDivide => exact plain (trueDivide_bare a b)
  | shiftLeft => exact plain (shiftLeft_bare a b)
  | shiftRight => exact plain (shiftRight_bare a b)
  | and | xor | or => exact Bare.found (bitwise_bare _ _ a b)

theorem getD_registered {values : List Value} (known : AllRegistered register values) (index : Nat) :
    (values.getD index .nothing).Registered register := by
  rw [List.getD_eq_getElem?_getD]
  cases stored : values[index]? with
  | none => exact .atom rfl
  | some v => exact known v (List.mem_of_getElem? stored)

theorem item_registered (registered : heap.Registered register) (known : a.Registered register) :
    Gives (Draft.Registered register) (item heap a b) := by
  cases a with
  | list ref =>
      refine Gives.any.bind fun i _ => ?_
      have stored := getD_registered (registered.items ref) i
      rwa [List.getD_eq_getElem?_getD, Array.getElem?_toList, ← Array.getD_eq_getD_getElem?] at stored
  | tuple id items => exact Gives.any.bind fun i _ => getD_registered known.items i
  | str id text => exact Gives.any.bind fun _ _ => trivial
  | range progression =>
      refine Gives.any.bind fun i _ => ?_
      split
      · exact .atom rfl
      · trivial
  | _ => trivial

theorem setItem_registered {value : Value} (registered : heap.Registered register) (known : value.Registered register) :
    Gives (Heap.Registered register) (setItem heap a b value) := by
  cases a with
  | list ref =>
      refine Gives.any.bind fun i _ => registered.updateItems fun items held => ?_
      intro v member
      rcases Array.mem_or_eq_of_mem_setIfInBounds (Array.mem_toList_iff.mp member) with member | rfl
      · exact held v (Array.mem_toList_iff.mpr member)
      · exact known
  | _ => trivial

end Value

def World.Registered (register : Register) (world : World) : Prop :=
  world.heap.Registered register

namespace Act

variable {α : Type} {register : Register} {result : Register → α → Prop}

theorem registers_ofExcept (result : Register → α → Prop) {outcome : Except Fault α}
    (gives : Gives (result register) outcome) :
    Registers World.Registered register result (ofExcept outcome) := by
  cases outcome with
  | ok value => exact .pure gives
  | error fault => exact .throw

theorem registers_ofFailing (result : Register → α → Prop) {outcome : Except Failure α}
    (gives : Gives (result register) outcome) :
    Registers World.Registered register result (ofFailing outcome) := by
  cases outcome with
  | ok value => exact .pure gives
  | error failure => exact .throw

theorem registers_ofLimit (outcome : Except LimitError α) :
    Registers World.Registered register Valueless (ofLimit outcome) := by
  cases outcome with
  | ok value => exact .pure trivial
  | error error => exact .throw

theorem registers_heap : Registers World.Registered register (fun more heap => heap.Registered more) heap :=
  .get fun _ state => .pure state

theorem registers_allocate {create : Heap → α × Heap} (accounted : ∀ heap : Heap, heap.Registered register →
    Accounted Heap.Registered register result (create heap).1 (create heap).2) :
    Registers World.Registered register result (allocate create) :=
  fun world state => accounted world.heap state

theorem registers_changeHeap {change : Heap → Heap} (keeps : ∀ heap : Heap, heap.Registered register →
    (change heap).Registered register) : Registers World.Registered register Valueless (changeHeap change) :=
  registers_allocate fun heap state => .now (keeps heap state) trivial

theorem registers_place {draft : Draft} (known : draft.Registered register) :
    Registers World.Registered register Value.Registered (place draft) :=
  registers_allocate fun _ state => state.place known

theorem registers_emit (event : Event) : Registers World.Registered register Valueless (emit event) :=
  .modify fun _ state => .now state

theorem registers_print (piece : Piece) : Registers World.Registered register Valueless (print piece) := by
  refine .get fun world _ => ?_
  obtain ⟨refusal, sink⟩ := world.sink.write piece
  refine .bind (.modify fun _ state => .now state) fun _ _ _ _ => ?_
  cases refusal with
  | some error => exact .throw
  | none => exact .pure trivial

theorem registers_checkResult (bytes : Nat) : Registers World.Registered register Valueless (checkResult bytes) :=
  .get fun _ _ => registers_ofLimit _

theorem registers_iterate {value : Value} (known : value.Registered register) :
    Registers World.Registered register Value.Registered (iterate value) := by
  unfold iterate
  split
  · exact .pure (.atom rfl)
  · refine .bind registers_heap fun heap more grown state => ?_
    split
    · rename_i found
      exact registers_allocate fun _ later => later.newIterator (Value.cursor?_registered state (known.mono grown) found)
    · exact .throw

theorem registers_next (iterator : Value) :
    Registers World.Registered register (fun more found => ∀ item ∈ found, item.Registered more) (next iterator) := by
  unfold next
  split
  · refine .bind registers_heap fun before more grown state => ?_
    split
    · rename_i found
      obtain ⟨item, behind⟩ := Cursor.Registered.next? state (state.cursor _) found
      refine .bind (registers_changeHeap fun _ later => later.setCursor behind) fun _ _ grown _ =>
        .bind (registers_place (item.mono grown)) fun _ _ _ known => .pure ?_
      rintro _ ⟨⟩
      exact known
    · exact .pure nofun
  · exact .throw

theorem registers_placeRest (value : Value) {behind : Cursor} {drafts : List Draft}
    (cursor : behind.Registered register) (known : ∀ draft ∈ drafts, draft.Registered register) :
    Registers World.Registered register AllRegistered (do
      match value with
      | .iterator ref => changeHeap (Heap.setCursor ref behind)
      | _ => pure ()
      allocate (Heap.placeAll [] drafts)) := by
  have placed : ∀ more, register.Grows more →
      Registers World.Registered more AllRegistered (allocate (Heap.placeAll [] drafts)) :=
    fun more grown => registers_allocate fun _ state =>
      state.placeAll (fun draft member => (known draft member).mono grown) nofun
  split
  · exact .bind (registers_changeHeap fun _ state => state.setCursor cursor) fun _ more grown _ => placed more grown
  · exact placed register (.refl register)

theorem registers_drain {value : Value} (known : value.Registered register) :
    Registers World.Registered register AllRegistered (drain value) := by
  refine .bind registers_heap fun heap more grown state => ?_
  split
  · exact .throw
  · rename_i cursor found
    have cursorKnown := Value.cursor?_registered state (known.mono grown) found
    obtain ⟨drafts, behind⟩ := Cursor.Registered.take state cursorKnown (cursor.remaining heap) [] nofun
    refine .bind (registers_checkResult _) fun _ last grows _ => ?_
    have placed := registers_placeRest value (behind.mono grows) fun draft member => (drafts draft member).mono grows
    dsimp only
    split
    · exact .throw_bind
    · exact placed

theorem registers_newException (kind : ExceptionKind) (message : Option String) :
    Registers World.Registered register Valueless (newException kind message) :=
  registers_allocate fun _ state => ⟨_, register.grows_enter .nothing, state.enter _, trivial⟩

end Act

namespace Builtin

open Act

variable {register : Register} {arguments : List Value}

theorem callAbs_bare (argument : Value) : Gives (fun v => v.isAtom = true) (callAbs argument) := by
  cases argument with
  | int i =>
      rw [callAbs]
      cases Word.ofInt? i.toInt.natAbs <;> trivial
  | _ => trivial

theorem callFloat_bare (argument : Value) : Gives (fun v => v.isAtom = true) (callFloat argument) := by
  unfold callFloat
  split
  · exact rfl
  · split <;> trivial
  · split <;> trivial

theorem callInt_bare (argument : Value) : Gives (fun v => v.isAtom = true) (callInt argument) := by
  unfold callInt
  split
  · split
    · trivial
    · split <;> trivial
  · split <;> trivial
  · split <;> trivial

theorem callRange_bare (arguments : List Value) : Gives (fun v => v.isAtom = true) (callRange arguments) := by
  refine Gives.any.bind fun bounds _ => ?_
  split
  · exact Gives.any.bind fun _ _ => rfl
  · exact Gives.any.bind fun _ _ => rfl
  · exact Gives.any.bind fun _ _ => rfl
  · trivial

theorem extreme_registered {compare? : Value → Value → Except Failure (Option Ordering)} {keep : Ordering}
    {best : Value} {items : List Value} (first : best.Registered register) (rest : AllRegistered register items) :
    Gives (Value.Registered register) (extreme compare? keep best items) := by
  induction items generalizing best with
  | nil => exact first
  | cons item items ih =>
      obtain ⟨known, rest⟩ := allRegistered_cons.mp rest
      rw [extreme]
      split
      · trivial
      · split
        · exact ih known rest
        · exact ih first rest

variable (known : AllRegistered register arguments)

include known

theorem registers_exactlyOne (function : Builtin) :
    Registers World.Registered register Value.Registered (exactlyOne function arguments) := by
  unfold exactlyOne
  split
  · exact .pure (known _ List.mem_cons_self)
  · exact .throw

theorem registers_atMostOne (function : Builtin) : Registers World.Registered register
    (fun more argument => ∀ v, argument = some v → v.Registered more) (atMostOne function arguments) := by
  unfold atMostOne
  split
  · exact .pure nofun
  · refine .pure ?_
    rintro _ ⟨⟩
    exact known _ List.mem_cons_self
  · exact .throw

theorem registers_callExtreme (function : Builtin) (keep : Ordering) (symbol : String) :
    Registers World.Registered register Value.Registered (callExtreme function keep symbol arguments) := by
  have chosen {first : Value} {rest : List Value} {more : Register} (held : AllRegistered more (first :: rest)) :
      Registers World.Registered more Value.Registered (do
        Act.ofFailing (extreme (Value.compare? (← Act.heap) symbol) keep first rest)) := by
    obtain ⟨one, others⟩ := allRegistered_cons.mp held
    exact .bind registers_heap fun heap last grown _ =>
      registers_ofFailing Value.Registered (extreme_registered (one.mono grown) (others.mono grown))
  unfold callExtreme
  split
  · exact .throw_bind
  · refine .bind (registers_drain (known _ List.mem_cons_self)) fun items more _ held => ?_
    cases items with
    | nil => exact .throw
    | cons first rest => exact chosen held
  · refine .bind (.pure known) fun items more _ held => ?_
    cases items with
    | nil => exact .throw
    | cons first rest => exact chosen held

omit known in
theorem registers_addItem {total item : Value} (first : total.Registered register) (second : item.Registered register) :
    Registers World.Registered register Value.Registered (addItem total item) := by
  refine .bind registers_heap fun heap more grown state => ?_
  refine .bind (registers_ofExcept Value.FoundRegistered
    (Value.add_registered state (first.mono grown) (second.mono grown))) fun sum last _ found => ?_
  split
  · exact registers_place found
  · exact .throw

omit known in
theorem registers_foldlM_addItem {items : List Value} {register : Register} {start : Value}
    (held : AllRegistered register items) (first : start.Registered register) :
    Registers World.Registered register Value.Registered (items.foldlM addItem start) := by
  induction items generalizing start register with
  | nil => exact .pure first
  | cons item items ih =>
      obtain ⟨one, others⟩ := allRegistered_cons.mp held
      rw [List.foldlM_cons]
      exact .bind (registers_addItem first one) fun total more grown sum => ih (others.mono grown) sum

theorem registers_callSum : Registers World.Registered register Value.Registered (callSum arguments) := by
  have summed {iterable start : Value} (first : iterable.Registered register) (second : start.Registered register) :
      Registers World.Registered register Value.Registered (do (← Act.drain iterable).foldlM addItem start) :=
    .bind (registers_drain first) fun items more grown held => registers_foldlM_addItem held (second.mono grown)
  unfold callSum
  dsimp only
  split
  · exact summed (known _ List.mem_cons_self) (.atom rfl)
  · split
    · exact .throw
    · exact summed (known _ List.mem_cons_self) (known _ (by simp))
  · exact .throw

omit known in
theorem registers_printAll (texts : List String) : Registers World.Registered register Valueless (printAll texts) := by
  induction texts generalizing register with
  | nil => exact registers_print _
  | cons text texts ih =>
      cases texts with
      | nil => exact .bind (registers_print _) fun _ _ _ _ => registers_print _
      | cons next texts =>
          exact .bind (registers_print _) fun _ _ _ _ => .bind (registers_print _) fun _ _ _ _ => ih

theorem registers_call (function : Builtin) :
    Registers World.Registered register Value.Registered (function.call arguments) := by
  have bare {more : Register} {outcome : Except Fault Value} (bare : Gives (fun v => v.isAtom = true) outcome) :
      Registers World.Registered more Value.Registered (Act.ofExcept outcome) := by
    cases outcome with
    | ok value => exact .pure (.atom bare)
    | error fault => exact .throw
  have text {more : Register} (text : String) : Registers World.Registered more Value.Registered (Act.place (.str text)) :=
    registers_place trivial
  have optional {next : Option Value → Act Value}
      (absent : ∀ more, Registers World.Registered more Value.Registered (next none))
      (present : ∀ more argument, argument.Registered more →
        Registers World.Registered more Value.Registered (next (some argument))) :
      Registers World.Registered register Value.Registered (atMostOne function arguments >>= next) :=
    .bind (registers_atMostOne known function) fun argument more _ found => by
      cases argument with
      | none => exact absent more
      | some argument => exact present more argument (found argument rfl)
  cases function with
  | abs => exact .bind (registers_exactlyOne known _) fun argument _ _ _ => bare (callAbs_bare argument)
  | bool => exact optional (fun _ => .pure (.atom rfl)) fun _ _ _ => .bind registers_heap fun _ _ _ _ => .pure (.atom rfl)
  | float => exact optional (fun _ => .pure (.atom rfl)) fun _ argument _ => bare (callFloat_bare argument)
  | int => exact optional (fun _ => .pure (.atom rfl)) fun _ argument _ => bare (callInt_bare argument)
  | len =>
      refine .bind (registers_exactlyOne known _) fun argument _ _ _ => .bind registers_heap fun heap _ _ _ => ?_
      split
      · exact .pure (.atom rfl)
      · exact .throw
  | list =>
      refine optional (fun _ => registers_place nofun) fun _ _ argument =>
        .bind (registers_drain argument) fun items _ _ held => registers_place held
  | tuple =>
      refine optional (fun _ => registers_place nofun) fun more argument held => ?_
      cases argument with
      | tuple id items => exact .pure held
      | _ => exact .bind (registers_drain held) fun items _ _ held => registers_place held
  | max | min => exact registers_callExtreme known _ _ _
  | print =>
      exact .bind registers_heap fun _ _ _ _ => .bind (registers_printAll _) fun _ _ _ _ => .pure (.atom rfl)
  | range => exact bare (callRange_bare arguments)
  | repr => exact .bind (registers_exactlyOne known _) fun _ _ _ _ => .bind registers_heap fun _ _ _ _ => text _
  | str => exact optional (fun _ => text _) fun _ _ _ => .bind registers_heap fun _ _ _ _ => text _
  | sum => exact registers_callSum known

end Builtin

end BlockVM
