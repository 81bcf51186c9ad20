import BlockVM.Proofs.Integers
import BlockVM.Proofs.RangeElements
import BlockVM.Value.Sequence

namespace BlockVM

/-! Subscripts. An index counts from the front or, below zero, from the end. It reaches only the places that
the greatest word can count, and from the end it counts as if there were no others; so in a range that is
longer it does not find all the elements that it denotes. -/

namespace Value

/-- What `i` denotes among `size` items: the place `i`, or the one that lies as far before the end as `i`
lies below zero. -/
def Denotes (size : Nat) (i : Int) (place : Nat) : Prop :=
  place < size ∧ (i = place ∨ i = place - size)

section

variable {index : Value} {i : Int64} {length place : Nat} (container : String) (whole : index.int? = some i)

include whole

theorem position_of_denotes (denotes : Denotes (min length Word.greatest) i.toInt place) :
    index.position length container = .ok place := by
  have negative : i < 0 ↔ i.toInt < 0 := Int64.lt_iff_toInt_lt
  obtain ⟨inside, front | back⟩ := denotes
  · have natural : ¬ i.toInt < 0 := by omega
    simp only [position, whole, negative, if_neg natural]
    rw [if_pos (by omega), front, Int.toNat_natCast]
  · have below : i.toInt < 0 := by omega
    simp only [position, whole, negative, if_pos below]
    rw [if_pos (by omega)]
    congr 1
    omega

theorem position_outside (outside : ∀ place, ¬ Denotes (min length Word.greatest) i.toInt place) :
    index.position length container = .error (.indexOutOfRange container) := by
  have negative : i < 0 ↔ i.toInt < 0 := Int64.lt_iff_toInt_lt
  simp only [position, whole, negative]
  refine if_neg fun inside => ?_
  split at inside
  · exact outside (i.toInt + min length Word.greatest).toNat ⟨by omega, .inr (by omega)⟩
  · exact outside i.toInt.toNat ⟨by omega, .inl (by omega)⟩

end

end Value

namespace Range

variable {r : Range} {index : Value} {i : Int64} {place : Nat}

/-- No element of a range occurs twice. -/
theorem get?_injective (nonzero : r.step ≠ 0) {other : Nat} {element : Int64} (first : r.get? place = some element)
    (second : r.get? other = some element) : place = other := by
  have terms : r.term place = r.term other :=
    (get?_eq_some_iff.mp first).2.symm.trans (get?_eq_some_iff.mp second).2
  have strides : (place : Int) * r.step.toInt = other * r.step.toInt := add_left_cancel terms
  exact_mod_cast mul_right_cancel₀ (Word.toInt_ne_zero_iff.mpr nonzero) strides

/-- The outcome is the element at a place. -/
def ItemAt (r : Range) (place : Nat) (outcome : Except Fault Draft) : Prop :=
  ∃ element, r.get? place = some element ∧ outcome = .ok (.value (.int element))

/-- The outcome of subscripting by `i` is what `i` denotes in the range. -/
structure Subscripts (r : Range) (i : Int) (outcome : Except Fault Draft) : Prop where
  front : 0 ≤ i → i < r.size → r.ItemAt i.toNat outcome
  back : -r.size ≤ i → i < 0 → r.ItemAt (r.size + i).toNat outcome
  outside : ¬ (-r.size ≤ i ∧ i < r.size) → RaisesKind .indexError outcome

theorem ItemAt.unique (nonzero : r.step ≠ 0) {other : Nat} {outcome : Except Fault Draft}
    (first : r.ItemAt place outcome) (second : r.ItemAt other outcome) : place = other := by
  obtain ⟨element, found, rfl⟩ := first
  obtain ⟨_, again, same⟩ := second
  cases same
  exact get?_injective nonzero found again

theorem ItemAt.not_raises {outcome : Except Fault Draft} (item : r.ItemAt place outcome) (kind : ExceptionKind) :
    ¬ RaisesKind kind outcome := by
  rintro ⟨fault, failed, _⟩
  obtain ⟨element, _, rfl⟩ := item
  cases failed

section

variable (heap : Heap) (whole : index.int? = some i)

include whole

theorem item_shows (nonzero : r.step ≠ 0)
    (denotes : Value.Denotes (min r.size Word.greatest) i.toInt place) :
    r.ItemAt place (Value.item heap (.range r) index) := by
  obtain ⟨element, found, _⟩ := exists_get? nonzero (lt_of_lt_of_le denotes.1 (Nat.min_le_left _ _))
  refine ⟨element, found, ?_⟩
  simp only [Value.item, Value.position_of_denotes _ whole denotes, found, bind, Except.bind]
  rfl

theorem item_raises (outside : ∀ place, ¬ Value.Denotes (min r.size Word.greatest) i.toInt place) :
    RaisesKind .indexError (Value.item heap (.range r) index) := by
  refine ⟨.indexOutOfRange "range object", ?_, rfl⟩
  simp only [Value.item, Value.position_outside _ whole outside, bind, Except.bind]

theorem item_subscripts (nonzero : r.step ≠ 0) (short : r.size ≤ Word.greatest) :
    r.Subscripts i.toInt (Value.item heap (.range r) index) where
  front lower upper := item_shows heap whole nonzero ⟨by omega, .inl (by omega)⟩
  back lower upper := item_shows heap whole nonzero ⟨by omega, .inr (by omega)⟩
  outside beyond := item_raises heap whole fun _ ⟨_, _⟩ => by omega

/-- The front of a range is within reach however long it is. -/
theorem item_subscripts_front (nonzero : r.step ≠ 0) (lower : 0 ≤ i.toInt) (upper : i.toInt < Word.greatest) :
    r.Subscripts i.toInt (Value.item heap (.range r) index) where
  front _ inside := item_shows heap whole nonzero ⟨by omega, .inl (by omega)⟩
  back _ negative := by omega
  outside beyond := item_raises heap whole fun _ ⟨_, _⟩ => by omega

/-- Elements of a long range as the machine finds them: counted from the greatest word, not from the end. -/
theorem item_long (nonzero : r.step ≠ 0) (long : Word.greatest < r.size) :
    (-Word.greatest ≤ i.toInt → i.toInt < 0 →
      r.ItemAt (Word.greatest + i.toInt).toNat (Value.item heap (.range r) index)) ∧
    (i.toInt < -Word.greatest ∨ i.toInt = Word.greatest →
      RaisesKind .indexError (Value.item heap (.range r) index)) := by
  constructor
  · intro lower negative
    exact item_shows heap whole nonzero ⟨by omega, .inr (by omega)⟩
  · intro ends
    exact item_raises heap whole fun _ ⟨_, _⟩ => by omega

/-- Subscripting gives what the index denotes in every range that is no longer than the greatest word says. In
a longer one it does so exactly for the indices from zero up to below the greatest word: an index below zero is
counted from there instead of from the end, and the greatest word finds nothing. -/
theorem subscript_exact_iff (nonzero : r.step ≠ 0) :
    (r.Subscripts i.toInt (Value.item heap (.range r) index) ↔
      r.size ≤ Word.greatest ∨ 0 ≤ i.toInt ∧ i.toInt < Word.greatest) ∧
    (Word.greatest < r.size →
      (-Word.greatest ≤ i.toInt → i.toInt < 0 →
        r.ItemAt (Word.greatest + i.toInt).toNat (Value.item heap (.range r) index)) ∧
      (i.toInt < -Word.greatest ∨ i.toInt = Word.greatest →
        RaisesKind .indexError (Value.item heap (.range r) index))) := by
  refine ⟨⟨fun law => ?_, ?_⟩, item_long heap whole nonzero⟩
  · rcases Nat.lt_or_ge Word.greatest r.size with long | short
    · obtain ⟨fromEnd, ends⟩ := item_long heap whole nonzero long
      have ⟨lowest, highest⟩ := Word.fits_toInt i
      unfold Word.greatest at *
      refine .inr ⟨?_, ?_⟩
      · by_contra negative
        have denoted := law.back (by omega) (by omega)
        rcases lt_or_ge i.toInt (-0x7fffffffffffffff) with least | reached
        · exact denoted.not_raises _ (ends (.inl least))
        · have same := denoted.unique nonzero (fromEnd reached (by omega))
          omega
      · by_contra greatest
        exact (law.front (by omega) (by omega)).not_raises _ (ends (.inr (by omega)))
    · exact .inl short
  · rintro (short | ⟨lower, upper⟩)
    · exact item_subscripts heap whole nonzero short
    · exact item_subscripts_front heap whole nonzero lower upper

end

/-- The last of ten, seven, four and one. -/
theorem subscript_exact_iff_countdown :
    (Range.mk 10 0 (-3)).Subscripts (-1) (Value.item .empty (.range ⟨10, 0, -3⟩) (.int (-1))) :=
  (subscript_exact_iff (i := -1) .empty rfl (by decide)).1.mpr (.inl (by decide))

/-- The last element of the widest range is not found by an index of minus one. -/
theorem last_of_widest_missed :
    Value.item .empty (.range widest) (.int (-1)) = .ok (.value (.int (-2))) ∧
      widest.get? (widest.size - 1) = some 0x7ffffffffffffffe ∧
      ¬ widest.Subscripts (-1) (Value.item .empty (.range widest) (.int (-1))) := by
  have found : Value.item .empty (.range widest) (.int (-1)) = .ok (.value (.int (-2))) := rfl
  refine ⟨found, rfl, fun law => ?_⟩
  obtain ⟨element, last, same⟩ := law.back (by decide) (by decide)
  cases found.symm.trans same
  cases last

end Range

end BlockVM
