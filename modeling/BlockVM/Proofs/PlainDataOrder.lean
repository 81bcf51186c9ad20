import BlockVM.Proofs.Components

namespace BlockVM

/-! The order of plain data. It is the lexicographic order of what comparisons see, and where it leaves two values
unordered it does so both ways round. -/

namespace Scalar

/-- Only two integers or two texts are ordered. -/
def order? : Scalar → Scalar → Option Ordering
  | .int i, .int j => some (compare i j)
  | .str s, .str t => some (compare s t)
  | _, _ => none

variable {a b c : Scalar}

theorem order?_swap (a b : Scalar) : b.order? a = (a.order? b).map Ordering.swap := by
  cases a with
  | int i =>
      cases b with
      | int j => exact congrArg some Std.OrientedOrd.eq_swap
      | _ => rfl
  | str s =>
      cases b with
      | str t => exact congrArg some Std.OrientedOrd.eq_swap
      | _ => rfl
  | _ => cases b <;> rfl

theorem eq_of_order? (tied : a.order? b = some .eq) : a = b := by
  cases a with
  | int i =>
      cases b with
      | int j => exact congrArg Scalar.int (Std.LawfulEqOrd.eq_of_compare (Option.some.inj tied))
      | _ => cases tied
  | str s =>
      cases b with
      | str t => exact congrArg Scalar.str (Std.LawfulEqOrd.eq_of_compare (Option.some.inj tied))
      | _ => cases tied
  | _ => cases b <;> cases tied

theorem order?_trans {last : Ordering} (first : a.order? b = some .lt) (second : b.order? c = some last)
    (rising : last ≠ .gt) : a.order? c = some .lt := by
  have chain {α : Type} [Ord α] [Std.TransOrd α] {x y z : α} (below : compare x y = .lt)
      (above : compare y z = last) : some (compare x z) = some Ordering.lt :=
    congrArg some (Std.TransCmp.lt_of_lt_of_isLE below (by rw [above]; cases last <;> trivial))
  cases a with
  | int i =>
      cases b with
      | int j =>
          cases c with
          | int k => exact chain (Option.some.inj first) (Option.some.inj second)
          | _ => cases second
      | _ => cases first
  | str s =>
      cases b with
      | str t =>
          cases c with
          | str u => exact chain (Option.some.inj first) (Option.some.inj second)
          | _ => cases second
      | _ => cases first
  | _ => cases b <;> cases first

end Scalar

namespace Form

mutual

def order? : Form → Form → Option Ordering
  | .scalar a, .scalar b => a.order? b
  | .row f xs, .row g ys => if f = g then orderRows? xs ys else none
  | .scalar _, .row _ _ | .row _ _, .scalar _ => none

/-- The first items that differ decide, or else the lengths. -/
def orderRows? : List Form → List Form → Option Ordering
  | [], [] => some .eq
  | [], _ :: _ => some .lt
  | _ :: _, [] => some .gt
  | x :: xs, y :: ys => if x = y then orderRows? xs ys else order? x y

end

variable {x y z : Form}

theorem orderRows?_swap {xs : List Form} (items : ∀ x ∈ xs, ∀ y, order? y x = (order? x y).map Ordering.swap)
    (ys : List Form) : orderRows? ys xs = (orderRows? xs ys).map Ordering.swap := by
  induction xs generalizing ys with
  | nil => cases ys <;> rfl
  | cons x xs ih =>
      cases ys with
      | nil => rfl
      | cons y ys =>
          rw [orderRows?, orderRows?]
          by_cases same : x = y
          · rw [if_pos same, if_pos same.symm]
            exact ih (fun z member => items z (.tail x member)) ys
          · rw [if_neg same, if_neg (Ne.symm same)]
            exact items x List.mem_cons_self y

/-- The other way round the order is the reverse, or there is none as well. -/
theorem order?_swap (x y : Form) : order? y x = (order? x y).map Ordering.swap := by
  induction x using induct generalizing y with
  | scalar a =>
      cases y with
      | scalar b => exact a.order?_swap b
      | row g ys => rfl
  | row f xs ih =>
      cases y with
      | scalar b => rfl
      | row g ys =>
          rw [order?, order?]
          by_cases same : f = g
          · rw [if_pos same, if_pos same.symm]
            exact orderRows?_swap ih ys
          · rw [if_neg same, if_neg (Ne.symm same), Option.map_none]

theorem order?_self {found : Ordering} (ordered : order? x x = some found) : found = .eq := by
  have reversed := order?_swap x x
  rw [ordered, Option.map_some, Option.some_inj] at reversed
  cases found <;> first | rfl | cases reversed

theorem eq_of_orderRows? {xs ys : List Form} (items : ∀ x ∈ xs, ∀ y, order? x y = some .eq → x = y)
    (tied : orderRows? xs ys = some .eq) : xs = ys := by
  induction xs generalizing ys with
  | nil => cases ys <;> first | rfl | cases tied
  | cons x xs ih =>
      cases ys with
      | nil => cases tied
      | cons y ys =>
          rw [orderRows?] at tied
          by_cases same : x = y
          · rw [if_pos same] at tied
            rw [same, ih (fun z member => items z (.tail x member)) tied]
          · rw [if_neg same] at tied
            exact absurd (items x List.mem_cons_self y tied) same

theorem eq_of_order? (tied : order? x y = some .eq) : x = y := by
  induction x using induct generalizing y with
  | scalar a =>
      cases y with
      | scalar b => exact congrArg Form.scalar (Scalar.eq_of_order? tied)
      | row g ys => cases tied
  | row f xs ih =>
      cases y with
      | scalar b => cases tied
      | row g ys =>
          rw [order?] at tied
          by_cases same : f = g
          · rw [if_pos same] at tied
            rw [same, eq_of_orderRows? (fun x member y => ih x member) tied]
          · rw [if_neg same] at tied
            cases tied

theorem ne_of_order? {found : Ordering} (ordered : order? x y = some found) (strict : found ≠ .eq) : x ≠ y := by
  rintro rfl
  exact strict (order?_self ordered)

/-- Where the first row and the second part, or where the second and the third part, whichever comes first, the
first is below the third. -/
theorem orderRows?_trans {xs ys zs : List Form} {last : Ordering}
    (items : ∀ x ∈ xs, ∀ y z last, order? x y = some .lt → order? y z = some last → last ≠ .gt →
      order? x z = some .lt)
    (first : orderRows? xs ys = some .lt) (second : orderRows? ys zs = some last) (rising : last ≠ .gt) :
    orderRows? xs zs = some .lt := by
  induction xs generalizing ys zs with
  | nil =>
      cases ys with
      | nil => cases first
      | cons y ys =>
          cases zs with
          | nil => exact absurd (Option.some.inj second).symm rising
          | cons z zs => rfl
  | cons x xs ih =>
      cases ys with
      | nil => cases first
      | cons y ys =>
          cases zs with
          | nil => exact absurd (Option.some.inj second).symm rising
          | cons z zs =>
              rw [orderRows?] at first second ⊢
              by_cases left : x = y <;> by_cases right : y = z
              · subst left right
                rw [if_pos rfl] at first second ⊢
                exact ih (fun w member => items w (.tail x member)) first second
              · subst left
                rw [if_neg right] at second ⊢
                cases last with
                | lt => exact second
                | eq => exact absurd (eq_of_order? second) right
                | gt => exact absurd rfl rising
              · subst right
                rwa [if_neg left] at first ⊢
              · rw [if_neg left] at first
                rw [if_neg right] at second
                have below := items x List.mem_cons_self y z last first second rising
                rwa [if_neg (ne_of_order? below nofun)]

theorem order?_trans {last : Ordering} (first : order? x y = some .lt) (second : order? y z = some last)
    (rising : last ≠ .gt) : order? x z = some .lt := by
  induction x using induct generalizing y z last with
  | scalar a =>
      cases y with
      | row g ys => cases first
      | scalar b =>
          cases z with
          | row h zs => cases second
          | scalar c => exact Scalar.order?_trans first second rising
  | row f xs ih =>
      cases y with
      | scalar b => cases first
      | row g ys =>
          cases z with
          | scalar c => cases second
          | row h zs =>
              rw [order?] at first second ⊢
              by_cases left : f = g
              · by_cases right : g = h
                · subst left right
                  rw [if_pos rfl] at first second ⊢
                  exact orderRows?_trans (fun x member y z last => ih x member) first second rising
                · rw [if_neg right] at second
                  cases second
              · rw [if_neg left] at first
                cases first

end Form

namespace Value

/-- Two values that cannot be ordered are an error of their types. -/
def Unordered (heap : Heap) (symbol : String) (a b : Value) : Prop :=
  ∃ fault, compare? heap symbol a b = .error (.raised fault) ∧ fault.kind = .typeError

/-- The outcome of a comparison that finds this order, or none. -/
def Finds : Option Ordering → Except Failure (Option Ordering) → Prop
  | some ordering, result => result = .ok (some ordering)
  | none, result => ∃ fault, result = .error (.raised fault) ∧ fault.kind = .typeError

variable {heap : Heap} {room : Nat} {a b c : Value}

theorem compareItems_finds {equal : Value → Value → Option Bool}
    {cmp : Value → Value → Except Failure (Option Ordering)} {see : Value → Form} {xs ys : List Value}
    (alike : ∀ x ∈ xs, ∀ y ∈ ys, equal x y = some (decide (see x = see y)))
    (each : ∀ x ∈ xs, ∀ y ∈ ys, Finds ((see x).order? (see y)) (cmp x y)) :
    Finds (Form.orderRows? (xs.map see) (ys.map see)) (compareItems equal cmp xs ys) := by
  induction xs generalizing ys with
  | nil => cases ys <;> exact rfl
  | cons x xs ih =>
      cases ys with
      | nil => exact rfl
      | cons y ys =>
          rw [compareItems, alike x List.mem_cons_self y List.mem_cons_self, List.map_cons, List.map_cons,
            Form.orderRows?]
          by_cases same : see x = see y
          · rw [if_pos same, decide_eq_true same]
            exact ih (fun a inside b member => alike a (.tail x inside) b (.tail y member))
              fun a inside b member => each a (.tail x inside) b (.tail y member)
          · rw [if_neg same, decide_eq_false same]
            exact each x List.mem_cons_self y List.mem_cons_self

theorem equal?_eq (left : a.Plain heap (nestingLimit + 1)) (right : b.Plain heap (nestingLimit + 1)) :
    equal? heap a b = some (decide (a.form heap (nestingLimit + 1) = b.form heap (nestingLimit + 1))) :=
  equalWithin_eq left right

/-- The order of plain values is that of what comparisons see. -/
theorem compareWithin_finds {symbol : String} {depth : Nat} (left : a.Plain heap room) (right : b.Plain heap room)
    (within : room ≤ nestingLimit + 1) (patient : room ≤ depth) :
    Finds ((a.form heap room).order? (b.form heap room)) (compareWithin heap symbol depth a b) := by
  induction room generalizing a b depth with
  | zero => cases left.positive
  | succ room ih =>
      obtain ⟨depth, rfl⟩ : ∃ least, depth = least + 1 := ⟨depth - 1, by omega⟩
      have rows : Finds (Form.orderRows? ((a.elements heap).map (form heap room)) ((b.elements heap).map (form heap room)))
          (compareItems (equal? heap) (compareWithin heap symbol depth) (a.elements heap) (b.elements heap)) := by
        refine compareItems_finds (fun x inside y member => ?_) fun x inside y member =>
          ih (left.item inside) (right.item member) (by omega) (by omega)
        have above : room ≤ nestingLimit + 1 := by omega
        rw [equal?_eq ((left.item inside).mono above) ((right.item member).mono above),
          form_of_le (left.item inside) above, form_of_le (right.item member) above]
      have numbers {i j : Int64} (first : a.int? = some i) (second : b.int? = some j) :
          Finds ((a.form heap (room + 1)).order? (b.form heap (room + 1))) (.ok (some (compare i.toInt j.toInt))) := by
        rw [form_number first, form_number second]
        exact rfl
      have whole := left.data
      have other := right.data
      cases a with
      | nothing | range _ =>
          cases b with
          | nothing | bool _ | int _ | str _ _ | range _ | list _ | tuple _ _ => exact ⟨_, rfl, rfl⟩
          | _ => cases other
      | bool _ | int _ =>
          cases b with
          | bool _ | int _ => exact numbers rfl rfl
          | nothing | str _ _ | range _ | list _ | tuple _ _ => exact ⟨_, rfl, rfl⟩
          | _ => cases other
      | str _ s =>
          cases b with
          | str _ t => exact rfl
          | nothing | bool _ | int _ | range _ | list _ | tuple _ _ => exact ⟨_, rfl, rfl⟩
          | _ => cases other
      | list first =>
          cases b with
          | list second => exact rows
          | nothing | bool _ | int _ | str _ _ | range _ | tuple _ _ => exact ⟨_, rfl, rfl⟩
          | _ => cases other
      | tuple _ xs =>
          cases b with
          | tuple _ ys => exact rows
          | nothing | bool _ | int _ | str _ _ | range _ | list _ => exact ⟨_, rfl, rfl⟩
          | _ => cases other
      | _ => cases whole

theorem compare?_finds (symbol : String) (left : a.Plain heap (nestingLimit + 1))
    (right : b.Plain heap (nestingLimit + 1)) :
    Finds ((a.form heap (nestingLimit + 1)).order? (b.form heap (nestingLimit + 1))) (compare? heap symbol a b) :=
  compareWithin_finds left right (Nat.le_refl _) (heap.platform.patient)

/-- A comparison of plain values tells the order of what it sees. -/
theorem compare?_eq_ok_iff {symbol : String} {found : Option Ordering} (left : a.Plain heap (nestingLimit + 1))
    (right : b.Plain heap (nestingLimit + 1)) : compare? heap symbol a b = .ok found ↔
      found.isSome ∧ (a.form heap (nestingLimit + 1)).order? (b.form heap (nestingLimit + 1)) = found := by
  have finds := compare?_finds symbol left right
  cases order : (a.form heap (nestingLimit + 1)).order? (b.form heap (nestingLimit + 1)) with
  | none =>
      rw [order] at finds
      obtain ⟨fault, failed, _⟩ := finds
      rw [failed]
      refine ⟨nofun, ?_⟩
      rintro ⟨some, rfl⟩
      cases some
  | some ordering =>
      rw [order] at finds
      rw [show compare? heap symbol a b = .ok (some ordering) from finds]
      constructor
      · rintro ⟨⟩
        exact ⟨rfl, rfl⟩
      · rintro ⟨_, rfl⟩
        rfl

theorem unordered_iff {symbol : String} (left : a.Plain heap (nestingLimit + 1))
    (right : b.Plain heap (nestingLimit + 1)) : Unordered heap symbol a b ↔
      (a.form heap (nestingLimit + 1)).order? (b.form heap (nestingLimit + 1)) = none := by
  have finds := compare?_finds symbol left right
  cases order : (a.form heap (nestingLimit + 1)).order? (b.form heap (nestingLimit + 1)) with
  | none =>
      rw [order] at finds
      exact iff_of_true finds rfl
  | some ordering =>
      rw [order] at finds
      refine iff_of_false ?_ nofun
      rintro ⟨fault, failed, _⟩
      cases finds.symm.trans failed

/-- How the comparisons of three values fit together. -/
structure Coherent (heap : Heap) (a b c : Value) : Prop where
  decided : ∃ answer, equal? heap a b = some answer
  reflexive : equal? heap a a = some true
  symmetric : equal? heap a b = equal? heap b a
  transitive : equal? heap a b = some true → equal? heap b c = some true → equal? heap a c = some true
  /-- Nothing but the types of the values can be wrong with them. -/
  answered : ∀ symbol, Unordered heap symbol a b ∨ ∃ ordering, compare? heap symbol a b = .ok (some ordering)
  unordered : ∀ symbol, Unordered heap symbol a b ↔ Unordered heap symbol b a
  reversed : ∀ symbol ordering, compare? heap symbol a b = .ok (some ordering) →
    compare? heap symbol b a = .ok (some ordering.swap)
  tied : ∀ symbol ordering, compare? heap symbol a b = .ok (some ordering) →
    (ordering = .eq ↔ equal? heap a b = some true)
  chained : ∀ symbol last, compare? heap symbol a b = .ok (some .lt) → compare? heap symbol b c = .ok (some last) →
    last ≠ .gt → compare? heap symbol a c = .ok (some .lt)

/-- Equality and order of data without floats, with no component below the level that comparisons look into. -/
theorem comparisons_coherent (first : a.Plain heap (nestingLimit + 1)) (second : b.Plain heap (nestingLimit + 1))
    (third : c.Plain heap (nestingLimit + 1)) : Coherent heap a b c where
  decided := ⟨_, equal?_eq first second⟩
  reflexive := by simp [equal?_eq first first]
  symmetric := by simp [equal?_eq first second, equal?_eq second first, eq_comm]
  transitive := by
    simp only [equal?_eq first second, equal?_eq second third, equal?_eq first third, Option.some_inj, decide_eq_true_iff]
    exact Eq.trans
  answered symbol := by
    simp only [unordered_iff first second, compare?_eq_ok_iff first second]
    cases (a.form heap (nestingLimit + 1)).order? (b.form heap (nestingLimit + 1)) with
    | none => exact .inl rfl
    | some ordering => exact .inr ⟨ordering, rfl, rfl⟩
  unordered symbol := by
    rw [unordered_iff first second, unordered_iff second first, Form.order?_swap, Option.map_eq_none_iff]
  reversed symbol ordering compared := by
    obtain ⟨_, order⟩ := (compare?_eq_ok_iff first second).mp compared
    rw [compare?_eq_ok_iff second first, Form.order?_swap, order]
    exact ⟨rfl, rfl⟩
  tied symbol ordering compared := by
    obtain ⟨_, order⟩ := (compare?_eq_ok_iff first second).mp compared
    rw [equal?_eq first second, Option.some_inj, decide_eq_true_iff]
    constructor
    · rintro rfl
      exact Form.eq_of_order? order
    · intro same
      rw [same] at order
      exact Form.order?_self order
  chained symbol last below above rising := by
    obtain ⟨_, below⟩ := (compare?_eq_ok_iff first second).mp below
    obtain ⟨_, above⟩ := (compare?_eq_ok_iff second third).mp above
    exact (compare?_eq_ok_iff first third).mpr ⟨rfl, Form.order?_trans below above rising⟩

/-- A truth value counts as the integer, so of the first two lists the shorter one is below; the last two are the same
list, and the texts behind it decide. -/
theorem comparisons_coherent_mixed :
    let heap : Heap := { Heap.empty with lists := #[#[.bool true], #[.int 1, .nothing]] }
    let a : Value := .tuple 0 [.list ⟨0⟩, .range ⟨0, 0, 1⟩]
    let b : Value := .tuple 1 [.list ⟨1⟩, .str 2 "b"]
    let c : Value := .tuple 3 [.list ⟨1⟩, .str 4 "c"]
    compare? heap "<" a b = .ok (some .lt) ∧ compare? heap "<" b c = .ok (some .lt) ∧ Coherent heap a b c := by
  intro heap a b c
  exact ⟨rfl, rfl, comparisons_coherent (by decide) (by decide) (by decide)⟩

end Value

end BlockVM
