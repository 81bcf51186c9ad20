import Mathlib.Data.List.Forall2
import BlockVM.Proofs.NestingDepth

namespace BlockVM.Value

/-! The order of values without floats, which may hold functions, code objects and other things that are never
ordered themselves. A row is compared by the first items that are not equal, so whether two rows can be compared
depends on which items that are. Being comparable is therefore not transitive; but among three values each two of
which can be compared, both ways round, the order is one that ranks them. -/

/-- No float lies in the value, which has less than `room` levels. -/
def Discrete (heap : Heap) (room : Nat) (v : Value) : Prop :=
  v.Throughout heap (fun w => ∀ x, w ≠ .float x) room

def text? : Value → Option String
  | .str _ text => some text
  | _ => none

/-- Whether the row of items is a tuple, for a list or a tuple. -/
def row? : Value → Option Bool
  | .list _ => some false
  | .tuple .. => some true
  | _ => none

theorem eq_str_of_text? {v : Value} {text : String} (found : v.text? = some text) : ∃ id, v = .str id text := by
  cases v with
  | str id =>
      cases found
      exact ⟨id, rfl⟩
  | _ => cases found

theorem two_lists_or_tuples {a b : Value} {frozen : Bool} (first : a.row? = some frozen) (second : b.row? = some frozen) :
    (∃ r s, a = .list r ∧ b = .list s) ∨ ∃ i xs j ys, a = .tuple i xs ∧ b = .tuple j ys := by
  cases a with
  | list r =>
      cases b with
      | list s => exact .inl ⟨r, s, rfl, rfl⟩
      | tuple => cases first; cases second
      | _ => cases second
  | tuple i xs =>
      cases b with
      | list => cases first; cases second
      | tuple j ys => exact .inr ⟨i, xs, j, ys, rfl, rfl⟩
      | _ => cases second
  | _ => cases first

theorem Enfolds.component {n : Nat} {v w : Value} (inside : Enfolds n v w) (heap : Heap) : Component heap n v w := by
  induction inside with
  | self v => exact .self v
  | deeper member _ ih => exact .deeper member ih

namespace Discrete

variable {heap : Heap} {codes : Code Value → Code Value → Option Bool} {room more : Nat} {v x : Value}

theorem positive (discrete : v.Discrete heap room) : 0 < room :=
  Throughout.positive discrete

theorem not_float (discrete : v.Discrete heap room) : ∀ x, v ≠ .float x :=
  Throughout.self discrete

theorem item (discrete : v.Discrete heap (room + 1)) (member : x ∈ v.elements heap) : x.Discrete heap room :=
  Throughout.item discrete member

theorem mono (discrete : v.Discrete heap room) (wider : room ≤ more) : v.Discrete heap more :=
  Throughout.mono discrete wider

theorem of_items (other : ∀ x, v ≠ .float x) (items : ∀ x ∈ v.elements heap, x.Discrete heap room) :
    v.Discrete heap (room + 1) :=
  Throughout.of_items other items

theorem equalWithin_self (discrete : v.Discrete heap room) : equalWithin heap codes room v v = some true := by
  have floatless : v.Floatless := fun n w inside => (discrete n w (inside.component heap)).1
  have shallow : v.ShallowerThan room := fun n w inside => (discrete n w (inside.component heap)).2
  obtain ⟨answer, compared, meaning⟩ := @Value.equalWithin_self heap codes room v floatless
  rw [compared, meaning.mpr shallow]

end Discrete

section

variable {heap : Heap} {codes : Code Value → Code Value → Option Bool} {room more : Nat} {a b : Value}
  {xs ys : List Value}

section

variable {equal other : Value → Value → Option Bool} {x y : Value}

theorem sameItems_congr (each : ∀ x ∈ xs, ∀ y, equal x y = other x y) :
    sameItems equal xs ys = sameItems other xs ys := by
  have all : allEqual equal xs ys = allEqual other xs ys := by
    induction xs generalizing ys with
    | nil => rfl
    | cons x xs ih =>
        cases ys with
        | nil => rfl
        | cons y ys =>
            rw [allEqual, allEqual, each x List.mem_cons_self y, ih fun z member => each z (.tail x member)]
  rw [sameItems, sameItems, all]

theorem sameItems_cons_equal (first : equal x y = some true) :
    sameItems equal (x :: xs) (y :: ys) = sameItems equal xs ys := by
  simp [sameItems, allEqual, first]

theorem sameItems_cons_differ (first : equal x y = some false) :
    sameItems equal (x :: xs) (y :: ys) = some false := by
  simp [sameItems, allEqual, first]

theorem sameItems_eq_true : sameItems equal xs ys = some true ↔ List.Forall₂ (equal · · = some true) xs ys := by
  induction xs generalizing ys with
  | nil => cases ys <;> simp [sameItems, allEqual]
  | cons x xs ih =>
      cases ys with
      | nil => simp [sameItems]
      | cons y ys =>
          rw [List.forall₂_cons, ← ih]
          constructor
          · intro compared
            by_cases first : equal x y = some true
            · exact ⟨first, (sameItems_cons_equal first).symm.trans compared⟩
            · rw [sameItems] at compared
              split at compared
              · rw [allEqual] at compared
                split at compared
                · exact absurd ‹_› first
                · exact absurd compared first
              · cases compared
          · rintro ⟨first, rest⟩
            rw [sameItems_cons_equal first, rest]

end

theorem equalWithin_of_le (discrete : a.Discrete heap room) (wider : room ≤ more) :
    equalWithin heap codes more a b = equalWithin heap codes room a b := by
  induction room generalizing more a b with
  | zero => cases discrete.positive
  | succ room ih =>
      obtain ⟨more, rfl⟩ : ∃ least, more = least + 1 := ⟨more - 1, by omega⟩
      rw [equalWithin_succ, equalWithin_succ]
      rcases equalStep_cases heap a b with ⟨settled, always⟩ | items | ⟨i, c, j, d, rfl, rfl, _, parts⟩
      · rw [always, always]
      · rw [items, items]
        exact sameItems_congr fun x member y => ih (discrete.item member) (by omega)
      · rw [parts, parts]

theorem equalWithin_rows {frozen : Bool} (discrete : a.Discrete heap (room + 1)) (first : a.row? = some frozen)
    (second : b.row? = some frozen) : equalWithin heap codes (room + 1) a b =
      sameItems (equalWithin heap codes room) (a.elements heap) (b.elements heap) := by
  rcases two_lists_or_tuples first second with ⟨r, s, rfl, rfl⟩ | ⟨i, xs, j, ys, rfl, rfl⟩
  · change (if r = s then some true else sameItems _ _ _) = _
    split
    · rename_i same
      subst same
      exact (sameItems_eq_true.mpr
        (List.forall₂_same.mpr fun x member => (discrete.item member).equalWithin_self)).symm
    · rfl
  · rfl

theorem equal?_rows {frozen : Bool} (discrete : a.Discrete heap (room + 1)) (within : room ≤ nestingLimit)
    (first : a.row? = some frozen) (second : b.row? = some frozen) :
    equal? heap a b = sameItems (equal? heap) (a.elements heap) (b.elements heap) := by
  refine (equalWithin_rows (discrete.mono (by omega)) first second).trans (sameItems_congr fun x member y => ?_)
  have near := discrete.item member
  exact (equalWithin_of_le near within).trans (equalWithin_of_le near (by omega)).symm

theorem int?_of_equal? {i : Int64} (equal : equal? heap a b = some true) (discrete : b.Discrete heap room)
    (first : a.int? = some i) : b.int? = some i := by
  cases second : b.int? with
  | some j =>
      have compared : equal? heap a b = some (decide (i = j)) := equalWithin_numbers first second
      have same : i = j := by simpa using compared.symm.trans equal
      rw [same]
  | none =>
      cases b with
      | bool | int => cases second
      | float x => exact absurd rfl (discrete.not_float x)
      | _ =>
          cases a with
          | bool | int => cases equal
          | _ => cases first

theorem text?_of_equal? {text : String} (equal : equal? heap a b = some true) (first : a.text? = some text) :
    b.text? = some text := by
  obtain ⟨i, rfl⟩ := eq_str_of_text? first
  cases b with
  | str j other =>
      have same : some (text == other) = some true := equal
      rw [text?, eq_of_beq (Option.some.inj same)]
  | _ => cases equal

theorem row?_of_equal? {frozen : Bool} (equal : equal? heap a b = some true) (first : a.row? = some frozen) :
    b.row? = some frozen := by
  cases a with
  | list =>
      cases b with
      | list => exact first
      | _ => cases equal
  | tuple =>
      cases b with
      | tuple => exact first
      | _ => cases equal
  | _ => cases first

end

/-- Two values are equal both ways round. -/
structure Agree (heap : Heap) (a b : Value) : Prop where
  there : equal? heap a b = some true
  back : equal? heap b a = some true

/-- How two rows stand to each other: by the first items that do not agree, or else by their lengths. -/
inductive Lexical {α : Type} (agree : α → α → Prop) (ranks : α → α → Ordering → Prop) :
    List α → List α → Ordering → Prop where
  | nil : Lexical agree ranks [] [] .eq
  | shorter (y : α) (ys : List α) : Lexical agree ranks [] (y :: ys) .lt
  | longer (x : α) (xs : List α) : Lexical agree ranks (x :: xs) [] .gt
  | agree {x y : α} {xs ys : List α} {order : Ordering} (first : agree x y) (rest : Lexical agree ranks xs ys order) :
      Lexical agree ranks (x :: xs) (y :: ys) order
  | differ {x y : α} {order : Ordering} (xs ys : List α) (first : ranks x y order) (strict : order ≠ .eq) :
      Lexical agree ranks (x :: xs) (y :: ys) order

/-- How two values stand to each other that can be compared both ways round. -/
inductive Ranks (heap : Heap) : Value → Value → Ordering → Prop where
  | ints {a b : Value} {i j : Int64} (first : a.int? = some i) (second : b.int? = some j) :
      Ranks heap a b (compare i.toInt j.toInt)
  | texts {a b : Value} {s t : String} (first : a.text? = some s) (second : b.text? = some t) :
      Ranks heap a b (compare s t)
  | rows {a b : Value} {frozen : Bool} {order : Ordering} (first : a.row? = some frozen) (second : b.row? = some frozen)
      (items : Lexical (Agree heap) (Ranks heap) (a.elements heap) (b.elements heap) order) : Ranks heap a b order

theorem Agree.symm {heap : Heap} {a b : Value} (agree : Agree heap a b) : Agree heap b a :=
  ⟨agree.back, agree.there⟩

section

variable {heap : Heap} {room : Nat} {a b c : Value} {order found : Ordering}

theorem Agree.items {frozen : Bool} (agree : Agree heap a b) (left : a.Discrete heap (room + 1))
    (right : b.Discrete heap (room + 1)) (within : room ≤ nestingLimit) (first : a.row? = some frozen) :
    List.Forall₂ (Agree heap) (a.elements heap) (b.elements heap) := by
  have second := row?_of_equal? agree.there first
  have there := agree.there
  have back := agree.back
  rw [equal?_rows left within first second, sameItems_eq_true] at there
  rw [equal?_rows right within second first, sameItems_eq_true] at back
  generalize a.elements heap = xs at there back
  generalize b.elements heap = ys at there back
  induction there with
  | nil => exact .nil
  | cons there _ ih =>
      cases back with
      | cons back rest => exact .cons ⟨there, back⟩ (ih rest)

namespace Ranks

theorem int {i : Int64} (ranks : Ranks heap a b order) (first : a.int? = some i) :
    ∃ j, b.int? = some j ∧ order = compare i.toInt j.toInt := by
  cases ranks with
  | ints again second =>
      cases again.symm.trans first
      exact ⟨_, second, rfl⟩
  | texts again | rows again =>
      cases a with
      | bool | int => cases again
      | _ => cases first

theorem text {s : String} (ranks : Ranks heap a b order) (first : a.text? = some s) :
    ∃ t, b.text? = some t ∧ order = compare s t := by
  cases ranks with
  | texts again second =>
      cases again.symm.trans first
      exact ⟨_, second, rfl⟩
  | ints again | rows again =>
      cases a with
      | str => cases again
      | _ => cases first

theorem row {frozen : Bool} (ranks : Ranks heap a b order) (first : a.row? = some frozen) :
    b.row? = some frozen ∧ Lexical (Agree heap) (Ranks heap) (a.elements heap) (b.elements heap) order := by
  cases ranks with
  | rows again second items =>
      cases again.symm.trans first
      exact ⟨second, items⟩
  | ints again | texts again =>
      cases a with
      | list | tuple => cases again
      | _ => cases first

end Ranks

theorem Lexical.swap {α : Type} {agree : α → α → Prop} {ranks : α → α → Ordering → Prop} {xs ys : List α}
    (symm : ∀ x y, agree x y → agree y x) (each : ∀ x ∈ xs, ∀ y ∈ ys, ∀ order, ranks x y order → ranks y x order.swap)
    (rows : Lexical agree ranks xs ys order) : Lexical agree ranks ys xs order.swap := by
  induction rows with
  | nil => exact .nil
  | shorter y ys => exact .longer y ys
  | longer x xs => exact .shorter x xs
  | agree first _ ih =>
      exact .agree (symm _ _ first) (ih fun x inside y member => each x (.tail _ inside) y (.tail _ member))
  | differ xs ys first strict =>
      exact .differ ys xs (each _ List.mem_cons_self _ List.mem_cons_self _ first) (by simpa using strict)

theorem Ranks.swap (ranks : Ranks heap a b order) (discrete : a.Discrete heap room) :
    Ranks heap b a order.swap := by
  induction room generalizing a b order with
  | zero => cases discrete.positive
  | succ room ih =>
      cases ranks with
      | ints first second =>
          rw [← Std.OrientedOrd.eq_swap]
          exact .ints second first
      | texts first second =>
          rw [← Std.OrientedOrd.eq_swap]
          exact .texts second first
      | rows first second items =>
          exact .rows second first
            (items.swap (fun _ _ => Agree.symm) fun x inside y _ order ranks => ih ranks (discrete.item inside))

theorem Lexical.sameItems_eq {ranks : Value → Value → Ordering → Prop} {xs ys : List Value}
    (each : ∀ x ∈ xs, ∀ y ∈ ys, ∀ order, ranks x y order → equal? heap x y = some (decide (order = .eq)))
    (rows : Lexical (Agree heap) ranks xs ys order) : sameItems (equal? heap) xs ys = some (decide (order = .eq)) := by
  induction rows with
  | nil | shorter | longer => rfl
  | agree first _ ih =>
      rw [sameItems_cons_equal first.there]
      exact ih fun x inside y member => each x (.tail _ inside) y (.tail _ member)
  | differ xs ys first strict =>
      have apart := each _ List.mem_cons_self _ List.mem_cons_self _ first
      rw [decide_eq_false strict] at apart ⊢
      exact sameItems_cons_differ apart

theorem Ranks.equal?_eq (ranks : Ranks heap a b order) (discrete : a.Discrete heap room)
    (within : room ≤ nestingLimit + 1) : equal? heap a b = some (decide (order = .eq)) := by
  induction room generalizing a b order with
  | zero => cases discrete.positive
  | succ room ih =>
      cases ranks with
      | @ints _ _ i j first second =>
          refine (equalWithin_numbers first second).trans ?_
          simp only [Std.compare_eq_iff_eq, Int64.toInt_inj]
      | @texts _ _ s t first second =>
          obtain ⟨id, rfl⟩ := eq_str_of_text? first
          obtain ⟨other, rfl⟩ := eq_str_of_text? second
          change some (s == t) = _
          simp only [Std.compare_eq_iff_eq, Bool.beq_eq_decide_eq]
      | rows first second items =>
          rw [equal?_rows discrete (by omega) first second]
          exact items.sameItems_eq fun x inside y _ order ranks => ih ranks (discrete.item inside) (by omega)

theorem Lexical.compareItems_eq {ranks : Value → Value → Ordering → Prop} {xs ys : List Value}
    {cmp : Value → Value → Except Failure (Option Ordering)}
    (alike : ∀ x ∈ xs, ∀ y ∈ ys, ∀ order, ranks x y order → equal? heap x y = some (decide (order = .eq)))
    (each : ∀ x ∈ xs, ∀ y ∈ ys, ∀ order, ranks x y order → cmp x y = .ok (some order))
    (rows : Lexical (Agree heap) ranks xs ys order) : compareItems (equal? heap) cmp xs ys = .ok (some order) := by
  induction rows with
  | nil | shorter | longer => rfl
  | agree first _ ih =>
      rw [compareItems, first.there]
      exact ih (fun x inside y member => alike x (.tail _ inside) y (.tail _ member))
        fun x inside y member => each x (.tail _ inside) y (.tail _ member)
  | differ xs ys first strict =>
      rw [compareItems, alike _ List.mem_cons_self _ List.mem_cons_self _ first, decide_eq_false strict]
      exact each _ List.mem_cons_self _ List.mem_cons_self _ first

theorem compareWithin_rows {symbol : String} {depth : Nat} {frozen : Bool} (first : a.row? = some frozen)
    (second : b.row? = some frozen) : compareWithin heap symbol (depth + 1) a b =
      compareItems (equal? heap) (compareWithin heap symbol depth) (a.elements heap) (b.elements heap) := by
  rcases two_lists_or_tuples first second with ⟨r, s, rfl, rfl⟩ | ⟨i, xs, j, ys, rfl, rfl⟩
  · rfl
  · rfl

theorem Ranks.compareWithin_eq {depth : Nat} (ranks : Ranks heap a b order) (discrete : a.Discrete heap room)
    (within : room ≤ nestingLimit + 1) (patient : room ≤ depth) (symbol : String) :
    compareWithin heap symbol depth a b = .ok (some order) := by
  induction room generalizing a b order depth with
  | zero => cases discrete.positive
  | succ room ih =>
      obtain ⟨depth, rfl⟩ : ∃ least, depth = least + 1 := ⟨depth - 1, by omega⟩
      cases ranks with
      | ints first second =>
          simp only [compareWithin, number?_of_int? first, number?_of_int? second]
          rfl
      | texts first second =>
          obtain ⟨id, rfl⟩ := eq_str_of_text? first
          obtain ⟨other, rfl⟩ := eq_str_of_text? second
          rfl
      | rows first second items =>
          rw [compareWithin_rows first second]
          exact items.compareItems_eq
            (fun x inside y _ order ranks => ranks.equal?_eq (discrete.item inside) (by omega))
            fun x inside y _ order ranks => ih ranks (discrete.item inside) (by omega) (by omega)

theorem Ranks.compare?_eq (ranks : Ranks heap a b order) (discrete : a.Discrete heap (nestingLimit + 1))
    (symbol : String) : compare? heap symbol a b = .ok (some order) :=
  ranks.compareWithin_eq discrete (Nat.le_refl _) heap.platform.patient symbol

/-- All that a comparison without floats can succeed on. -/
theorem compareWithin_cases {symbol : String} {depth : Nat} {result : Option Ordering} (left : a.Discrete heap room)
    (right : b.Discrete heap room) (compared : compareWithin heap symbol (depth + 1) a b = .ok result) :
    (∃ i j, a.int? = some i ∧ b.int? = some j) ∨ (∃ s t, a.text? = some s ∧ b.text? = some t) ∨
      ∃ frozen, a.row? = some frozen ∧ b.row? = some frozen := by
  cases a with
  | float x => exact absurd rfl (left.not_float x)
  | bool | int =>
      cases b with
      | float x => exact absurd rfl (right.not_float x)
      | bool | int => exact .inl ⟨_, _, rfl, rfl⟩
      | _ => cases compared
  | str =>
      cases b with
      | str => exact .inr (.inl ⟨_, _, rfl, rfl⟩)
      | _ => cases compared
  | list =>
      cases b with
      | list => exact .inr (.inr ⟨_, rfl, rfl⟩)
      | _ => cases compared
  | tuple =>
      cases b with
      | tuple => exact .inr (.inr ⟨_, rfl, rfl⟩)
      | _ => cases compared
  | _ => cases b <;> cases compared

theorem compareItems_back {cmp : Value → Value → Except Failure (Option Ordering)} {xs ys : List Value}
    {result : Option Ordering} (there : List.Forall₂ (equal? heap · · = some true) xs ys)
    (each : ∀ x ∈ xs, ∀ y ∈ ys, ∀ result, equal? heap x y = some true → cmp y x = .ok result → equal? heap y x = some true)
    (compared : compareItems (equal? heap) cmp ys xs = .ok result) :
    List.Forall₂ (equal? heap · · = some true) ys xs := by
  induction there with
  | nil => exact .nil
  | @cons x y xs ys there rest ih =>
      have back : equal? heap y x = some true := by
        rw [compareItems] at compared
        cases answer : equal? heap y x with
        | none => simp [answer] at compared
        | some same =>
            cases same with
            | true => rfl
            | false =>
                rw [answer] at compared
                exact answer.symm.trans (each x List.mem_cons_self y List.mem_cons_self _ there compared)
      rw [compareItems, back] at compared
      exact .cons back (ih (fun x inside y member => each x (.tail _ inside) y (.tail _ member)) compared)

/-- Equality is symmetric where a comparison the other way round succeeds. -/
theorem equal?_symm_of_compared {symbol : String} {depth : Nat} {result : Option Ordering}
    (left : a.Discrete heap room) (right : b.Discrete heap room) (within : room ≤ nestingLimit + 1)
    (equal : equal? heap a b = some true) (compared : compareWithin heap symbol depth b a = .ok result) :
    equal? heap b a = some true := by
  induction room generalizing a b depth result with
  | zero => cases left.positive
  | succ room ih =>
      cases depth with
      | zero => cases compared
      | succ depth =>
          rcases compareWithin_cases right left compared with
            ⟨j, i, second, first⟩ | ⟨t, s, second, first⟩ | ⟨frozen, second, first⟩
          · cases (int?_of_equal? equal right first).symm.trans second
            exact (equalWithin_numbers second first).trans (congrArg some (decide_eq_true rfl))
          · obtain rfl : s = t := Option.some.inj ((text?_of_equal? equal first).symm.trans second)
            have tie : Ranks heap b a (compare s s) := .texts second first
            have self : compare s s = .eq := Std.ReflCmp.compare_self
            rw [tie.equal?_eq right within, self]
            rfl
          · rw [compareWithin_rows second first] at compared
            rw [equal?_rows left (by omega) first second, sameItems_eq_true] at equal
            rw [equal?_rows right (by omega) second first, sameItems_eq_true]
            exact compareItems_back equal
              (fun x inside y member result => ih (left.item inside) (right.item member) (by omega)) compared

theorem exists_lexical {first second : String} {depth : Nat} {xs ys : List Value} {result converse : Option Ordering}
    (left : ∀ x ∈ xs, x.Discrete heap room) (right : ∀ y ∈ ys, y.Discrete heap room) (within : room ≤ nestingLimit + 1)
    (each : ∀ x ∈ xs, ∀ y ∈ ys, ∀ result converse, compareWithin heap first depth x y = .ok result →
      compareWithin heap second depth y x = .ok converse → ∃ order, Ranks heap x y order)
    (compared : compareItems (equal? heap) (compareWithin heap first depth) xs ys = .ok result)
    (reversed : compareItems (equal? heap) (compareWithin heap second depth) ys xs = .ok converse) :
    ∃ order, Lexical (Agree heap) (Ranks heap) xs ys order := by
  induction xs generalizing ys with
  | nil =>
      cases ys with
      | nil => exact ⟨_, .nil⟩
      | cons y ys => exact ⟨_, .shorter y ys⟩
  | cons x xs ih =>
      cases ys with
      | nil => exact ⟨_, .longer x xs⟩
      | cons y ys =>
          obtain ⟨leftFirst, leftRest⟩ := List.forall_mem_cons.mp left
          obtain ⟨rightFirst, rightRest⟩ := List.forall_mem_cons.mp right
          rw [compareItems] at compared reversed
          cases there : equal? heap x y with
          | none => rw [there] at compared; cases compared
          | some same =>
              cases back : equal? heap y x with
              | none => rw [back] at reversed; cases reversed
              | some also =>
                  rw [there] at compared
                  rw [back] at reversed
                  cases same with
                  | true =>
                      cases also with
                      | true =>
                          obtain ⟨order, rest⟩ := ih leftRest rightRest
                            (fun x inside y member => each x (.tail _ inside) y (.tail _ member)) compared reversed
                          exact ⟨order, .agree ⟨there, back⟩ rest⟩
                      | false =>
                          cases back.symm.trans (equal?_symm_of_compared leftFirst rightFirst within there reversed)
                  | false =>
                      cases also with
                      | true =>
                          cases there.symm.trans (equal?_symm_of_compared rightFirst leftFirst within back compared)
                      | false =>
                          obtain ⟨order, ranks⟩ := each x List.mem_cons_self y List.mem_cons_self _ _ compared reversed
                          refine ⟨order, .differ xs ys ranks fun tied => ?_⟩
                          rw [ranks.equal?_eq leftFirst within, tied] at there
                          cases there

theorem exists_ranks {first second : String} {depth : Nat} {result converse : Option Ordering}
    (left : a.Discrete heap room) (right : b.Discrete heap room) (within : room ≤ nestingLimit + 1)
    (compared : compareWithin heap first depth a b = .ok result)
    (reversed : compareWithin heap second depth b a = .ok converse) : ∃ order, Ranks heap a b order := by
  induction room generalizing a b depth result converse with
  | zero => cases left.positive
  | succ room ih =>
      cases depth with
      | zero => cases compared
      | succ depth =>
          rcases compareWithin_cases left right compared with
            ⟨i, j, first, second⟩ | ⟨s, t, first, second⟩ | ⟨frozen, first, second⟩
          · exact ⟨_, .ints first second⟩
          · exact ⟨_, .texts first second⟩
          · rw [compareWithin_rows first second] at compared
            rw [compareWithin_rows second first] at reversed
            obtain ⟨order, items⟩ := exists_lexical (fun x => left.item) (fun y => right.item) (by omega)
              (fun x inside y member _ _ => ih (left.item inside) (right.item member) (by omega)) compared reversed
            exact ⟨order, .rows first second items⟩

/-! Three values that rank. Equality is not transitive, for a code object may hold floats, and a float may be equal to
two integers; but it is as far as the values can be compared. -/

theorem Lexical.tie {α : Type} {agree : α → α → Prop} {ranks : α → α → Ordering → Prop} {xs ys zs : List α}
    (each : ∀ x ∈ xs, ∀ y ∈ ys, ∀ z ∈ zs, agree x y → agree y z → ∀ order, ranks x z order → order = .eq)
    (first : List.Forall₂ agree xs ys) (second : List.Forall₂ agree ys zs) (rows : Lexical agree ranks xs zs order) :
    order = .eq := by
  induction first generalizing zs with
  | nil =>
      cases second
      cases rows
      rfl
  | cons first _ ih =>
      cases second with
      | cons second rest =>
          cases rows with
          | agree _ rows =>
              exact ih (fun x inside y member z last => each x (.tail _ inside) y (.tail _ member) z (.tail _ last))
                rest rows
          | differ _ _ apart =>
              exact each _ List.mem_cons_self _ List.mem_cons_self _ List.mem_cons_self first second _ apart

theorem Ranks.tie (x : a.Discrete heap room) (y : b.Discrete heap room) (z : c.Discrete heap room)
    (within : room ≤ nestingLimit + 1) (first : Agree heap a b) (second : Agree heap b c)
    (ranks : Ranks heap a c order) : order = .eq := by
  induction room generalizing a b c order with
  | zero => cases x.positive
  | succ room ih =>
      cases ranks with
      | ints one last =>
          have found := int?_of_equal? second.there z (int?_of_equal? first.there y one)
          rw [Option.some.inj (last.symm.trans found)]
          exact Std.ReflCmp.compare_self
      | texts one last =>
          have found := text?_of_equal? second.there (text?_of_equal? first.there one)
          rw [Option.some.inj (last.symm.trans found)]
          exact Std.ReflCmp.compare_self
      | rows one last items =>
          have middle := row?_of_equal? first.there one
          exact items.tie
            (fun u inU v inV w inW first second _ => ih (x.item inU) (y.item inV) (z.item inW) (by omega) first second)
            (first.items x y (by omega) one) (second.items y z (by omega) middle)

theorem Lexical.agree_right {xs ys zs : List Value} (x : ∀ u ∈ xs, u.Discrete heap room)
    (y : ∀ v ∈ ys, v.Discrete heap room) (z : ∀ w ∈ zs, w.Discrete heap room) (within : room ≤ nestingLimit + 1)
    (each : ∀ u ∈ xs, ∀ v ∈ ys, ∀ w ∈ zs, ∀ order found, Ranks heap u v order → Agree heap v w → Ranks heap u w found →
      found = order)
    (first : Lexical (Agree heap) (Ranks heap) xs ys order) (second : List.Forall₂ (Agree heap) ys zs)
    (rows : Lexical (Agree heap) (Ranks heap) xs zs found) : found = order := by
  induction first generalizing zs with
  | nil | shorter | longer =>
      cases second
      cases rows
      rfl
  | agree first _ ih =>
      cases second with
      | cons second rest =>
          rw [List.forall_mem_cons] at x y z
          cases rows with
          | agree _ rows =>
              exact ih x.2 y.2 z.2 (fun u inU v inV w inW => each u (.tail _ inU) v (.tail _ inV) w (.tail _ inW))
                rest rows
          | differ _ _ apart strict => exact absurd (Ranks.tie x.1 y.1 z.1 within first second apart) strict
  | differ _ _ apart strict =>
      cases second with
      | cons second rest =>
          rw [List.forall_mem_cons] at x y z
          cases rows with
          | agree third _ => exact absurd (Ranks.tie x.1 z.1 y.1 within third second.symm apart) strict
          | differ _ _ third _ =>
              exact each _ List.mem_cons_self _ List.mem_cons_self _ List.mem_cons_self _ _ apart second third

theorem Ranks.agree_right (x : a.Discrete heap room) (y : b.Discrete heap room) (z : c.Discrete heap room)
    (within : room ≤ nestingLimit + 1) (first : Ranks heap a b order) (second : Agree heap b c)
    (ranks : Ranks heap a c found) : found = order := by
  induction room generalizing a b c order found with
  | zero => cases x.positive
  | succ room ih =>
      cases first with
      | ints one middle =>
          obtain ⟨k, last, rfl⟩ := ranks.int one
          rw [Option.some.inj (last.symm.trans (int?_of_equal? second.there z middle))]
      | texts one middle =>
          obtain ⟨k, last, rfl⟩ := ranks.text one
          rw [Option.some.inj (last.symm.trans (text?_of_equal? second.there middle))]
      | rows one middle items =>
          have above : room ≤ nestingLimit + 1 := by omega
          exact items.agree_right (fun _ => x.item) (fun _ => y.item) (fun _ => z.item) above
            (fun u inU v inV w inW _ _ => ih (x.item inU) (y.item inV) (z.item inW) above)
            (second.items y z (by omega) middle) (ranks.row one).2

theorem Ranks.agree_left (x : a.Discrete heap room) (y : b.Discrete heap room) (z : c.Discrete heap room)
    (within : room ≤ nestingLimit + 1) (first : Agree heap a b) (second : Ranks heap b c order)
    (ranks : Ranks heap a c found) : found = order :=
  Ordering.swap_inj.mp (Ranks.agree_right z y x within (second.swap y) first.symm (ranks.swap x))

theorem Lexical.lt_trans {xs ys zs : List Value} (x : ∀ u ∈ xs, u.Discrete heap room)
    (y : ∀ v ∈ ys, v.Discrete heap room) (z : ∀ w ∈ zs, w.Discrete heap room) (within : room ≤ nestingLimit + 1)
    (each : ∀ u ∈ xs, ∀ v ∈ ys, ∀ w ∈ zs, ∀ found, Ranks heap u v .lt → Ranks heap v w .lt → Ranks heap u w found →
      found = .lt)
    (first : Lexical (Agree heap) (Ranks heap) xs ys .lt) (second : Lexical (Agree heap) (Ranks heap) ys zs .lt)
    (rows : Lexical (Agree heap) (Ranks heap) xs zs found) : found = .lt := by
  induction xs generalizing ys zs with
  | nil =>
      cases first
      cases second <;> cases rows <;> rfl
  | cons u us ih =>
      -- Where the items that decide do not stand at one place, two of the three values agree there.
      cases first with
      | agree first before =>
          cases second with
          | agree second behind =>
              rw [List.forall_mem_cons] at x y z
              cases rows with
              | agree _ rows =>
                  exact ih x.2 y.2 z.2 (fun u inU v inV w inW => each u (.tail _ inU) v (.tail _ inV) w (.tail _ inW))
                    before behind rows
              | differ _ _ third strict => exact absurd (Ranks.tie x.1 y.1 z.1 within first second third) strict
          | differ _ _ second strict =>
              rw [List.forall_mem_cons] at x y z
              cases rows with
              | agree third _ => exact absurd (Ranks.tie y.1 x.1 z.1 within first.symm third second) strict
              | differ _ _ third _ => exact Ranks.agree_left x.1 y.1 z.1 within first second third
      | differ _ _ first strict =>
          cases second with
          | agree second _ =>
              rw [List.forall_mem_cons] at x y z
              cases rows with
              | agree third _ => exact absurd (Ranks.tie x.1 z.1 y.1 within third second.symm first) strict
              | differ _ _ third _ => exact Ranks.agree_right x.1 y.1 z.1 within first second third
          | differ _ _ second _ =>
              cases rows with
              | agree third _ =>
                  rw [List.forall_mem_cons] at x y z
                  cases Ranks.agree_right y.1 z.1 x.1 within second third.symm (first.swap x.1)
              | differ _ _ third _ =>
                  exact each _ List.mem_cons_self _ List.mem_cons_self _ List.mem_cons_self _ first second third

theorem Ranks.lt_trans (x : a.Discrete heap room) (y : b.Discrete heap room) (z : c.Discrete heap room)
    (within : room ≤ nestingLimit + 1) (first : Ranks heap a b .lt) (second : Ranks heap b c .lt)
    (ranks : Ranks heap a c found) : found = .lt := by
  induction room generalizing a b c found with
  | zero => cases x.positive
  | succ room ih =>
      cases ranks with
      | ints one last =>
          obtain ⟨j, middle, below⟩ := first.int one
          obtain ⟨k, again, above⟩ := second.int middle
          cases last.symm.trans again
          exact Std.TransCmp.lt_trans below.symm above.symm
      | texts one last =>
          obtain ⟨t, middle, below⟩ := first.text one
          obtain ⟨u, again, above⟩ := second.text middle
          cases last.symm.trans again
          exact Std.TransCmp.lt_trans below.symm above.symm
      | rows one last items =>
          obtain ⟨middle, below⟩ := first.row one
          have above : room ≤ nestingLimit + 1 := by omega
          exact below.lt_trans (fun _ => x.item) (fun _ => y.item) (fun _ => z.item) above
            (fun u inU v inV w inW _ => ih (x.item inU) (y.item inV) (z.item inW) above) (second.row middle).2 items

theorem Ranks.agree (ranks : Ranks heap a b .eq) (x : a.Discrete heap room) (y : b.Discrete heap room)
    (within : room ≤ nestingLimit + 1) : Agree heap a b :=
  ⟨ranks.equal?_eq x within, (ranks.swap x).equal?_eq y within⟩

theorem Ranks.strict_trans (x : a.Discrete heap room) (y : b.Discrete heap room) (z : c.Discrete heap room)
    (within : room ≤ nestingLimit + 1) (strict : order ≠ .eq) (first : Ranks heap a b order)
    (second : Ranks heap b c order) (ranks : Ranks heap a c found) : found = order := by
  cases order with
  | lt => exact Ranks.lt_trans x y z within first second ranks
  | eq => exact absurd rfl strict
  | gt => exact Ordering.swap_inj.mp (Ranks.lt_trans z y x within (second.swap y) (first.swap x) (ranks.swap x))

end

end BlockVM.Value
