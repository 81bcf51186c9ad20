import BlockVM.Value.Order

namespace BlockVM

/-! The components of a value: the value itself, the items of its lists and tuples, their items, and so on. A list
may be its own component, so components lie at a depth. -/

namespace Value

/-- The items of a list or a tuple. -/
def elements (heap : Heap) : Value → List Value
  | .list ref => (heap.items ref).toList
  | .tuple _ items => items
  | _ => []

/-- The second value lies in the first, so many levels deep. -/
inductive Component (heap : Heap) : Nat → Value → Value → Prop where
  | self (v : Value) : Component heap 0 v v
  | deeper {n : Nat} {v x w : Value} (member : x ∈ v.elements heap) (below : Component heap n x w) :
      Component heap (n + 1) v w

/-- All components of a value are of one kind, and it has less than `room` levels. -/
def Throughout (heap : Heap) (kind : Value → Prop) (room : Nat) (v : Value) : Prop :=
  ∀ n w, Component heap n v w → kind w ∧ n < room

namespace Throughout

variable {heap : Heap} {kind : Value → Prop} {room more : Nat} {v x : Value}

theorem positive (all : v.Throughout heap kind room) : 0 < room :=
  (all 0 v (.self v)).2

theorem self (all : v.Throughout heap kind room) : kind v :=
  (all 0 v (.self v)).1

theorem item (all : v.Throughout heap kind (room + 1)) (member : x ∈ v.elements heap) :
    x.Throughout heap kind room := by
  intro n w below
  obtain ⟨known, shallow⟩ := all (n + 1) w (.deeper member below)
  exact ⟨known, Nat.lt_of_succ_lt_succ shallow⟩

theorem mono (all : v.Throughout heap kind room) (wider : room ≤ more) : v.Throughout heap kind more := by
  intro n w below
  obtain ⟨known, shallow⟩ := all n w below
  exact ⟨known, Nat.lt_of_lt_of_le shallow wider⟩

theorem of_items (known : kind v) (items : ∀ x ∈ v.elements heap, x.Throughout heap kind room) :
    v.Throughout heap kind (room + 1) := by
  intro n w below
  cases below with
  | self => exact ⟨known, Nat.succ_pos room⟩
  | deeper member below =>
      obtain ⟨known, shallow⟩ := items _ member _ w below
      exact ⟨known, Nat.succ_lt_succ shallow⟩

end Throughout

/-- Plain data other than floats, or a list or tuple of anything. -/
def isData : Value → Bool
  | .nothing | .bool _ | .int _ | .str .. | .list _ | .tuple .. | .range _ => true
  | _ => false

/-- Data all the way down, with less than `room` levels. -/
def Plain (heap : Heap) (room : Nat) (v : Value) : Prop :=
  ∀ n w, Component heap n v w → w.isData = true ∧ n < room

/-- Looks whether a value is plain. -/
def isPlain (heap : Heap) : Nat → Value → Bool
  | 0, _ => false
  | room + 1, v => v.isData && (v.elements heap).all (isPlain heap room)

namespace Plain

variable {heap : Heap} {room more : Nat} {v x : Value}

theorem positive (plain : v.Plain heap room) : 0 < room :=
  Throughout.positive plain

theorem data (plain : v.Plain heap room) : v.isData = true :=
  Throughout.self plain

theorem item (plain : v.Plain heap (room + 1)) (member : x ∈ v.elements heap) : x.Plain heap room :=
  Throughout.item plain member

theorem mono (plain : v.Plain heap room) (wider : room ≤ more) : v.Plain heap more :=
  Throughout.mono plain wider

end Plain

theorem plain_iff (heap : Heap) (room : Nat) (v : Value) : isPlain heap room v = true ↔ v.Plain heap room := by
  induction room generalizing v with
  | zero =>
      refine ⟨nofun, fun plain => ?_⟩
      cases plain.positive
  | succ room ih =>
      rw [isPlain, Bool.and_eq_true, List.all_eq_true]
      constructor
      · rintro ⟨data, each⟩
        exact Throughout.of_items data fun x member => (ih x).mp (each x member)
      · intro plain
        exact ⟨plain.data, fun x member => (ih x).mpr (plain.item member)⟩

instance (heap : Heap) (room : Nat) (v : Value) : Decidable (v.Plain heap room) :=
  decidable_of_iff _ (plain_iff heap room v)

end Value

inductive Scalar where
  | nothing
  | int (value : Int)
  | str (text : String)
  /-- Length, start and step; all ranges without elements are one. -/
  | range (key : Option (Nat × Int64 × Int64))
deriving DecidableEq

/-- A scalar, or the items of a list or of a tuple. -/
inductive Form where
  | scalar (scalar : Scalar)
  | row (frozen : Bool) (items : List Form)

namespace Form

mutual

def decideEq : (x y : Form) → Decidable (x = y)
  | .scalar a, .scalar b => decidable_of_iff (a = b) (by simp)
  | .row f xs, .row g ys =>
      have := decideRows xs ys
      decidable_of_iff (f = g ∧ xs = ys) (by simp)
  | .scalar _, .row _ _ | .row _ _, .scalar _ => isFalse nofun

def decideRows : (xs ys : List Form) → Decidable (xs = ys)
  | [], [] => isTrue rfl
  | x :: xs, y :: ys =>
      have := decideEq x y
      have := decideRows xs ys
      decidable_of_iff (x = y ∧ xs = ys) (by simp)
  | [], _ :: _ | _ :: _, [] => isFalse nofun

end

instance : DecidableEq Form :=
  decideEq

/-- Induction in which a row may use what holds of its items. -/
theorem induct {holds : Form → Prop} (scalar : ∀ a, holds (.scalar a))
    (row : ∀ frozen items, (∀ x ∈ items, holds x) → holds (.row frozen items)) (x : Form) : holds x :=
  Form.rec (motive_2 := fun items => ∀ x ∈ items, holds x) scalar row (List.forall_mem_nil _)
    (fun _ _ first rest => List.forall_mem_cons.mpr ⟨first, rest⟩) x

end Form

/-- What two ranges have in common if they are equal. -/
def Range.key (r : Range) : Option (Nat × Int64 × Int64) :=
  if r.isEmpty then none else some (r.size, r.start, r.step)

theorem Range.equal_eq (a b : Range) : a.equal b = decide (a.key = b.key) := by
  rw [Bool.eq_iff_iff, decide_eq_true_iff]
  simp only [equal, key, isEmpty, Bool.or_eq_true, Bool.and_eq_true, beq_iff_eq]
  by_cases first : a.size = 0 <;> by_cases second : b.size = 0
  · simp [first, second]
  · simp [first, second, Ne.symm second]
  · simp [first, second]
  · simp [first, second, and_assoc]

namespace Value

def scalar : Value → Scalar
  | .bool value => .int (if value then 1 else 0 : Int64).toInt
  | .int value => .int value.toInt
  | .str _ text => .str text
  | .range progression => .range progression.key
  | _ => .nothing

/-- What comparisons see of a value with less than `room` levels. -/
def form (heap : Heap) : Nat → Value → Form
  | 0, _ => .scalar .nothing
  | room + 1, v =>
      match v with
      | .list ref => .row false ((heap.items ref).toList.map (form heap room))
      | .tuple _ items => .row true (items.map (form heap room))
      | v => .scalar v.scalar

/-- More room shows nothing more of a plain value. -/
theorem form_of_le {heap : Heap} {room more : Nat} {v : Value} (plain : v.Plain heap room) (wider : room ≤ more) :
    v.form heap more = v.form heap room := by
  induction room generalizing v more with
  | zero => cases plain.positive
  | succ room ih =>
      obtain ⟨more, rfl⟩ : ∃ least, more = least + 1 := ⟨more - 1, by omega⟩
      have items (x : Value) (member : x ∈ v.elements heap) : x.form heap more = x.form heap room :=
        ih (plain.item member) (by omega)
      cases v with
      | list ref => exact congrArg (Form.row false) (List.map_congr_left items)
      | tuple id values => exact congrArg (Form.row true) (List.map_congr_left items)
      | _ => rfl

section

variable {heap : Heap} {codes : Code Value → Code Value → Option Bool} {room : Nat}

theorem sameItems_forms {equal : Value → Value → Option Bool} {see : Value → Form} {xs ys : List Value}
    (each : ∀ x ∈ xs, ∀ y ∈ ys, equal x y = some (decide (see x = see y))) :
    sameItems equal xs ys = some (decide (xs.map see = ys.map see)) := by
  have aligned (length : xs.length = ys.length) :
      allEqual equal xs ys = some (decide (xs.map see = ys.map see)) := by
    induction xs generalizing ys with
    | nil => cases ys <;> simp_all [allEqual]
    | cons x xs ih =>
        cases ys with
        | nil => cases length
        | cons y ys =>
            have first := each x List.mem_cons_self y List.mem_cons_self
            have rest := ih (fun a inside b member => each a (.tail x inside) b (.tail y member)) (Nat.succ.inj length)
            by_cases alike : see x = see y <;> simp [allEqual, first, rest, alike]
  rw [sameItems]
  split
  · exact aligned ‹_›
  · rename_i differ
    have unlike : xs.map see ≠ ys.map see := fun alike => differ (by simpa using congrArg List.length alike)
    simp [unlike]

theorem equalWithin_numbers {a b : Value} {i j : Int64} (first : a.int? = some i) (second : b.int? = some j) :
    equalWithin heap codes (room + 1) a b = some (decide (i = j)) := by
  have number {v : Value} {k : Int64} (found : v.int? = some k) : v.number? = some (.int k) := by
    cases v with
    | bool _ | int _ => exact congrArg (·.map Number.int) found
    | _ => cases found
  simp only [equalWithin, number first, number second, Number.equal]
  rfl

theorem form_number {v : Value} {i : Int64} (found : v.int? = some i) :
    v.form heap (room + 1) = .scalar (.int i.toInt) := by
  cases v with
  | bool _ | int _ =>
      cases found
      rfl
  | _ => cases found

theorem equalWithin_eq {a b : Value} (left : a.Plain heap room) (right : b.Plain heap room) :
    equalWithin heap codes room a b = some (decide (a.form heap room = b.form heap room)) := by
  induction room generalizing a b with
  | zero => cases left.positive
  | succ room ih =>
      have items : ∀ x ∈ a.elements heap, ∀ y ∈ b.elements heap,
          equalWithin heap codes room x y = some (decide (x.form heap room = y.form heap room)) :=
        fun x inside y member => ih (left.item inside) (right.item member)
      have numbers {i j : Int64} (first : a.int? = some i) (second : b.int? = some j) :
          equalWithin heap codes (room + 1) a b = some (decide (a.form heap (room + 1) = b.form heap (room + 1))) := by
        simp [equalWithin_numbers first second, form_number first, form_number second, Int64.toInt_inj]
      have whole := left.data
      have other := right.data
      cases a with
      | nothing =>
          cases b with
          | nothing | bool _ | int _ | str _ _ | range _ | list _ | tuple _ _ =>
              simp [equalWithin, number?, same, form, scalar]
          | _ => cases other
      | bool _ | int _ =>
          cases b with
          | bool _ | int _ => exact numbers rfl rfl
          | nothing | str _ _ | range _ | list _ | tuple _ _ => simp [equalWithin, number?, same, form, scalar]
          | _ => cases other
      | str _ s =>
          cases b with
          | str _ t => simp [equalWithin, number?, form, scalar, Bool.beq_eq_decide_eq]
          | nothing | bool _ | int _ | range _ | list _ | tuple _ _ => simp [equalWithin, number?, same, form, scalar]
          | _ => cases other
      | range p =>
          cases b with
          | range q => simp [equalWithin, number?, form, scalar, Range.equal_eq]
          | nothing | bool _ | int _ | str _ _ | list _ | tuple _ _ => simp [equalWithin, number?, same, form, scalar]
          | _ => cases other
      | list first =>
          cases b with
          | list second =>
              change (if first = second then some true else sameItems _ _ _) = _
              split
              · rename_i same
                simp [same]
              · simp only [form, Form.row.injEq, true_and]
                exact sameItems_forms items
          | nothing | bool _ | int _ | str _ _ | range _ | tuple _ _ => simp [equalWithin, number?, same, form]
          | _ => cases other
      | tuple _ xs =>
          cases b with
          | tuple _ ys =>
              simp only [form, Form.row.injEq, true_and]
              exact sameItems_forms items
          | nothing | bool _ | int _ | str _ _ | range _ | list _ => simp [equalWithin, number?, same, form]
          | _ => cases other
      | _ => cases whole

end

end Value

end BlockVM
