import BlockVM.Proofs.MixedDataOrder
import BlockVM.Proofs.ResultLimits

namespace BlockVM

/-! The greatest and the smallest of several values. Both are found in one pass that keeps the best item so far, and
gives it up for a later one only if that goes beyond it. So of the items that tie the earliest is returned, even where
they are not the same, as with `True` and `1`. -/

/-- The functions that choose an item, and how another must compare with the best so far to take its place. -/
inductive Builtin.Selects : Builtin → Ordering → Prop where
  | max : Selects .max .gt
  | min : Selects .min .lt

namespace Value

/-- Each of the two values can be compared with the other. -/
def Comparable (heap : Heap) (a b : Value) : Prop :=
  (∃ symbol found, compare? heap symbol a b = .ok found) ∧ ∃ symbol found, compare? heap symbol b a = .ok found

/-- The item stands in the row. All before it fall short of it, and none goes beyond it. -/
def Earliest (heap : Heap) (keep : Ordering) (items : List Value) (chosen : Value) : Prop :=
  ∃ before after, items = before ++ chosen :: after ∧
    (∀ x ∈ before, ∀ symbol, compare? heap symbol x chosen = .ok (some keep.swap)) ∧
    ∀ x ∈ items, ∀ symbol, compare? heap symbol x chosen ≠ .ok (some keep)

/-- Values without floats, not too deep, that can be compared with each other. -/
structure Rankable (heap : Heap) (items : List Value) : Prop where
  nonempty : items ≠ []
  discrete : ∀ x ∈ items, x.Discrete heap (nestingLimit + 1)
  comparable : items.Pairwise (Comparable heap)

/-- The items of an iterable, and that they are not too many to be taken in. -/
def Offers (iterable : Value) (world : World) (items : List Draft) : Prop :=
  (∃ cursor, iterable.cursor? world.heap = some cursor ∧ cursor.Yields world.heap items) ∧
    world.refusalOf? items.length = none

/-- The earliest extreme in terms of the rank. -/
def Foremost (heap : Heap) (keep : Ordering) (items : List Value) (chosen : Value) : Prop :=
  ∃ before after, items = before ++ chosen :: after ∧ (∀ x ∈ before, Ranks heap x chosen keep.swap) ∧
    ∀ x ∈ after, ∃ order, Ranks heap x chosen order ∧ order ≠ keep

section

variable {heap : Heap} {keep order : Ordering} {a b : Value} {items : List Value} {best item chosen : Value}

theorem Comparable.exists_ranks (comparable : Comparable heap a b) (left : a.Discrete heap (nestingLimit + 1))
    (right : b.Discrete heap (nestingLimit + 1)) : ∃ order, Ranks heap a b order := by
  obtain ⟨⟨_, _, compared⟩, _, _, reversed⟩ := comparable
  exact Value.exists_ranks left right (Nat.le_refl _) compared reversed

/-- Nothing goes beyond itself. -/
theorem Discrete.compare?_self_ne (discrete : a.Discrete heap (nestingLimit + 1)) (strict : keep ≠ .eq)
    (symbol : String) : compare? heap symbol a a ≠ .ok (some keep) := by
  intro compared
  obtain ⟨order, ranks⟩ := Value.exists_ranks discrete discrete (Nat.le_refl _) compared compared
  have equal : equal? heap a a = some true := discrete.equalWithin_self
  have tied : order = .eq := by simpa using (ranks.equal?_eq discrete (Nat.le_refl _)).symm.trans equal
  have same := (ranks.compare?_eq discrete symbol).symm.trans compared
  rw [tied] at same
  exact strict (Option.some.inj (Except.ok.inj same)).symm

namespace Foremost

theorem mem (foremost : Foremost heap keep items chosen) : chosen ∈ items := by
  obtain ⟨before, after, rfl, _⟩ := foremost
  simp

theorem earliest (foremost : Foremost heap keep items chosen) (strict : keep ≠ .eq)
    (discrete : ∀ x ∈ items, x.Discrete heap (nestingLimit + 1)) : Earliest heap keep items chosen := by
  obtain ⟨before, after, rfl, short, behind⟩ := foremost
  simp only [List.forall_mem_append, List.forall_mem_cons] at discrete
  obtain ⟨front, self, back⟩ := discrete
  have below (x : Value) (member : x ∈ before) (symbol : String) :
      compare? heap symbol x chosen = .ok (some keep.swap) := (short x member).compare?_eq (front x member) symbol
  refine ⟨before, after, rfl, below, ?_⟩
  simp only [List.forall_mem_append, List.forall_mem_cons]
  refine ⟨fun x member symbol => ?_, self.compare?_self_ne strict, fun x member symbol => ?_⟩
  · rw [below x member symbol]
    cases keep with
    | eq => exact absurd rfl strict
    | lt | gt => simp
  · obtain ⟨order, ranks, other⟩ := behind x member
    rw [ranks.compare?_eq (back x member) symbol]
    simpa using other

/-- An item that falls short of the chosen one may stand before all others. -/
theorem cons (foremost : Foremost heap keep items chosen) (short : Ranks heap item chosen keep.swap) :
    Foremost heap keep (item :: items) chosen := by
  obtain ⟨before, after, rfl, front, back⟩ := foremost
  exact ⟨item :: before, after, rfl, List.forall_mem_cons.mpr ⟨short, front⟩, back⟩

/-- The first item is the one that is chosen, or falls short of it. -/
theorem head (foremost : Foremost heap keep (best :: items) chosen) :
    best = chosen ∨ Ranks heap best chosen keep.swap := by
  obtain ⟨before, after, same, front, _⟩ := foremost
  cases before with
  | nil => exact .inl (List.cons.inj same).1
  | cons x before =>
      cases (List.cons.inj same).1
      exact .inr (front best List.mem_cons_self)

/-- An item that does not go beyond the first may stand behind it. -/
theorem insert (foremost : Foremost heap keep (best :: items) chosen) (strict : keep ≠ .eq)
    (discrete : ∀ x ∈ best :: item :: items, x.Discrete heap (nestingLimit + 1)) (ranks : Ranks heap item best order)
    (other : order ≠ keep) (comparable : ∀ x ∈ items, ∃ order, Ranks heap item x order) :
    Foremost heap keep (best :: item :: items) chosen := by
  obtain ⟨before, after, same, front, back⟩ := foremost
  cases before with
  | nil =>
      cases same
      exact ⟨[], item :: items, rfl, front, List.forall_mem_cons.mpr ⟨⟨order, ranks, other⟩, back⟩⟩
  | cons x before =>
      rw [List.cons_append, List.cons.injEq] at same
      obtain ⟨rfl, rfl⟩ := same
      simp only [List.forall_mem_cons, List.forall_mem_append] at discrete comparable front
      obtain ⟨first, second, _, last, _⟩ := discrete
      obtain ⟨found, third⟩ := comparable.2.1
      have within := Nat.le_refl (nestingLimit + 1)
      have short : found = keep.swap := by
        by_cases tied : order = .eq
        · subst tied
          exact Ranks.agree_left second first last within (ranks.agree second first within) front.1 third
        · have below : order = keep.swap := by cases order <;> cases keep <;> simp_all
          subst below
          exact Ranks.strict_trans second first last within tied ranks front.1 third
      subst short
      exact ⟨best :: item :: before, after, rfl, by simpa using ⟨front.1, third, front.2⟩, back⟩

end Foremost

theorem extreme_foremost (symbol : String) (strict : keep ≠ .eq)
    (discrete : ∀ x ∈ best :: items, x.Discrete heap (nestingLimit + 1))
    (ranked : (best :: items).Pairwise fun x y => ∃ order, Ranks heap x y order) :
    ∃ chosen, Builtin.extreme (compare? heap symbol) keep best items = .ok chosen ∧
      Foremost heap keep (best :: items) chosen := by
  induction items generalizing best with
  | nil => exact ⟨best, rfl, [], [], rfl, List.forall_mem_nil _, List.forall_mem_nil _⟩
  | cons item items ih =>
      obtain ⟨first, second, rest⟩ : best.Discrete heap (nestingLimit + 1) ∧ item.Discrete heap (nestingLimit + 1) ∧
          ∀ x ∈ items, x.Discrete heap (nestingLimit + 1) := by simpa using discrete
      obtain ⟨⟨⟨order, ahead⟩, others⟩, behind, ranked⟩ :
          ((∃ order, Ranks heap best item order) ∧ ∀ x ∈ items, ∃ order, Ranks heap best x order) ∧
            (∀ x ∈ items, ∃ order, Ranks heap item x order) ∧
              items.Pairwise fun x y => ∃ order, Ranks heap x y order := by
        simpa [List.pairwise_cons] using ranked
      have ranks := ahead.swap first
      rw [Builtin.extreme, ranks.compare?_eq second symbol]
      by_cases beyond : order.swap = keep
      · obtain ⟨chosen, found, foremost⟩ :=
          ih (List.forall_mem_cons.mpr ⟨second, rest⟩) (List.pairwise_cons.mpr ⟨behind, ranked⟩)
        have short : order = keep.swap := by rw [← beyond, Ordering.swap_swap]
        subst short
        refine ⟨chosen, by simpa [beyond] using found, foremost.cons ?_⟩
        rcases foremost.head with rfl | above
        · exact ahead
        · have member := foremost.mem
          obtain ⟨found, past⟩ := List.forall_mem_cons.mpr ⟨⟨_, ahead⟩, others⟩ chosen member
          have last := List.forall_mem_cons.mpr ⟨second, rest⟩ chosen member
          rwa [← Ranks.strict_trans first second last (Nat.le_refl _) (by simpa using strict) ahead above past]
      · obtain ⟨chosen, found, foremost⟩ :=
          ih (List.forall_mem_cons.mpr ⟨first, rest⟩) (List.pairwise_cons.mpr ⟨others, ranked⟩)
        exact ⟨chosen, by simpa [beyond] using found, foremost.insert strict discrete ranks beyond behind⟩

theorem Rankable.extreme (rankable : Rankable heap (best :: items)) (strict : keep ≠ .eq) (symbol : String) :
    ∃ chosen, Builtin.extreme (compare? heap symbol) keep best items = .ok chosen ∧
      Earliest heap keep (best :: items) chosen := by
  have ranked : (best :: items).Pairwise fun x y => ∃ order, Ranks heap x y order :=
    rankable.comparable.imp_of_mem fun left right comparable =>
      comparable.exists_ranks (rankable.discrete _ left) (rankable.discrete _ right)
  obtain ⟨chosen, found, foremost⟩ := extreme_foremost symbol strict rankable.discrete ranked
  exact ⟨chosen, found, foremost.earliest strict rankable.discrete⟩

end

end Value

namespace Builtin

variable {function : Builtin} {keep : Ordering} {symbol : String} {world before : World} {iterable chosen : Value}
  {first second : Value} {rest items : List Value}

theorem callExtreme_several (found : extreme (Value.compare? world.heap symbol) keep first (second :: rest) = .ok chosen) :
    callExtreme function keep symbol (first :: second :: rest) world = .ok chosen world := by
  change Act.ofFailing (extreme (Value.compare? world.heap symbol) keep first (second :: rest)) world = _
  rw [found]
  rfl

theorem callExtreme_iterable (drained : Act.drain iterable before = .ok (first :: rest) world)
    (found : extreme (Value.compare? world.heap symbol) keep first rest = .ok chosen) :
    callExtreme function keep symbol [iterable] before = .ok chosen world := by
  change EStateM.bind (Act.drain iterable) _ before = _
  simp only [EStateM.bind, drained]
  change Act.ofFailing (extreme (Value.compare? world.heap symbol) keep first rest) world = _
  rw [found]
  rfl

theorem Selects.strict (selects : function.Selects keep) : keep ≠ .eq := by
  cases selects <;> simp

theorem Selects.call_eq (selects : function.Selects keep) :
    ∃ symbol, ∀ arguments, function.call arguments = callExtreme function keep symbol arguments := by
  cases selects with
  | max => exact ⟨_, fun _ => rfl⟩
  | min => exact ⟨_, fun _ => rfl⟩

end Builtin

/-- Of values that can be compared with each other the earliest extreme is returned, from two or more arguments and from
the items of an iterable alike. -/
theorem extreme_is_earliest {function : Builtin} {keep : Ordering} (selects : function.Selects keep) :
    (∀ items world, 2 ≤ items.length → Value.Rankable world.heap items →
      ∃ chosen, function.call items world = .ok chosen world ∧ chosen.Earliest world.heap keep items) ∧
    ∀ iterable before drafts, Value.Offers iterable before drafts →
      ∃ items world, Act.drain iterable before = .ok items world ∧ List.Forall₂ Draft.Becomes drafts items ∧
        (Value.Rankable world.heap items →
          ∃ chosen, function.call [iterable] before = .ok chosen world ∧ chosen.Earliest world.heap keep items ∧
            (2 ≤ items.length → function.call items world = .ok chosen world)) := by
  obtain ⟨symbol, calls⟩ := selects.call_eq
  simp only [calls]
  constructor
  · intro items world several rankable
    obtain _ | ⟨first, _ | ⟨second, rest⟩⟩ := items
    · cases several
    · simp at several
    · obtain ⟨chosen, found, earliest⟩ := rankable.extreme selects.strict symbol
      exact ⟨chosen, Builtin.callExtreme_several found, earliest⟩
  · rintro iterable before drafts ⟨⟨cursor, found, yields⟩, accepted⟩
    obtain ⟨items, world, drained, became⟩ := Act.drain_accepted found yields accepted
    refine ⟨items, world, drained, became, fun rankable => ?_⟩
    cases items with
    | nil => exact absurd rfl rankable.nonempty
    | cons first rest =>
        obtain ⟨chosen, found, earliest⟩ := rankable.extreme selects.strict symbol
        refine ⟨chosen, Builtin.callExtreme_iterable drained found, earliest, fun several => ?_⟩
        cases rest with
        | nil => simp at several
        | cons second rest => exact Builtin.callExtreme_several found

/-- A function that is never ordered comes first in each tuple, and then the truth value and two numbers. -/
def pairsOfLen : List Value :=
  [.tuple 0 [.builtin .len, .bool true], .tuple 1 [.builtin .len, .int 1], .tuple 2 [.builtin .len, .int 0]]

theorem pairsOfLen_rankable : Value.Rankable (default : World).heap pairsOfLen := by
  have leaf (v : Value) (other : ∀ x, v ≠ .float x) (bare : v.elements (default : World).heap = []) :
      v.Discrete (default : World).heap 1 := .of_items other (by simp [bare])
  have pair (id : Nat) (last : Value) (discrete : last.Discrete (default : World).heap 1) :
      (Value.tuple id [.builtin .len, last]).Discrete (default : World).heap (Value.nestingLimit + 1) := by
    have items : ∀ x ∈ [.builtin .len, last], x.Discrete (default : World).heap 1 := by
      simpa using ⟨leaf (.builtin .len) (by simp) rfl, discrete⟩
    have tuple : (Value.tuple id [.builtin .len, last]).Discrete (default : World).heap 2 := .of_items (by simp) items
    exact tuple.mono (by decide)
  refine ⟨by simp [pairsOfLen], ?_, ?_⟩
  · simp only [pairsOfLen, List.forall_mem_cons]
    exact ⟨pair 0 _ (leaf _ (by simp) rfl), pair 1 _ (leaf _ (by simp) rfl), pair 2 _ (leaf _ (by simp) rfl),
      List.forall_mem_nil _⟩
  · simp only [pairsOfLen, List.pairwise_cons, List.forall_mem_cons]
    exact ⟨⟨⟨⟨">", _, rfl⟩, ">", _, rfl⟩, ⟨⟨">", _, rfl⟩, ">", _, rfl⟩, List.forall_mem_nil _⟩,
      ⟨⟨⟨">", _, rfl⟩, ">", _, rfl⟩, List.forall_mem_nil _⟩, List.forall_mem_nil _, .nil⟩

/-- The greatest is the pair with `True`, which ties with the one after it. -/
theorem extreme_is_earliest_tie :
    Builtin.Selects .max .gt ∧ Value.Rankable (default : World).heap pairsOfLen ∧
    Value.Offers (.tuple 3 pairsOfLen) default (pairsOfLen.map .value) ∧
    ∃ chosen, Builtin.call .max [.tuple 3 pairsOfLen] default = .ok chosen default ∧
      chosen.Earliest (default : World).heap .gt pairsOfLen ∧ Builtin.call .max pairsOfLen default = .ok chosen default ∧
      chosen = .tuple 0 [.builtin .len, .bool true] := by
  have offers : Value.Offers (.tuple 3 pairsOfLen) default (pairsOfLen.map .value) :=
    ⟨⟨_, rfl, .next rfl (.next rfl (.next rfl (.spent rfl)))⟩, rfl⟩
  refine ⟨.max, pairsOfLen_rankable, offers, ?_⟩
  obtain ⟨items, world, drained, _, result⟩ := (extreme_is_earliest .max).2 _ _ _ offers
  have all : Act.drain (.tuple 3 pairsOfLen) default = .ok pairsOfLen default := rfl
  cases drained.symm.trans all
  obtain ⟨chosen, single, earliest, several⟩ := result pairsOfLen_rankable
  have called := several (by decide)
  have first : Builtin.call .max pairsOfLen default = .ok (.tuple 0 [.builtin .len, .bool true]) default := rfl
  cases called.symm.trans first
  exact ⟨_, single, earliest, called, rfl⟩

end BlockVM
