import Mathlib.Data.Set.Card
import BlockVM.Proofs.WordArithmetic
import BlockVM.Range

namespace BlockVM.Range

/-! A range is the arithmetic progression from its start, as far as it stays before the stop: counting,
indexing and membership all agree with that. -/

/-- The number that `index` steps from the start lead to. -/
def term (r : Range) (index : Nat) : Int :=
  r.start.toInt + index * r.step.toInt

/-- Whether a number lies before the stop, in the direction of the step. -/
def Before (r : Range) (i : Int) : Prop :=
  if 0 < r.step.toInt then i < r.stop.toInt else r.stop.toInt < i

/-- Whether a signed integer of two words can hold `i`. -/
def FitsTwice (i : Int) : Prop :=
  -2 ^ 127 ≤ i ∧ i < 2 ^ 127

/-- How far away the stop is, in the direction of the step. -/
def span (r : Range) : Int :=
  if 0 < r.step.toInt then r.stop.toInt - r.start.toInt else r.start.toInt - r.stop.toInt

def stride (r : Range) : Int :=
  |r.step.toInt|

variable {r : Range} {index : Nat} {value : Int64}

theorem stride_pos (nonzero : r.step ≠ 0) : 0 < r.stride :=
  abs_pos.mpr (Word.toInt_ne_zero_iff.mpr nonzero)

theorem before_term_iff (nonzero : r.step ≠ 0) : r.Before (r.term index) ↔ index * r.stride < r.span := by
  unfold Before term stride span
  rcases lt_or_gt_of_ne (Word.toInt_ne_zero_iff.mpr nonzero) with down | up
  · rw [if_neg (by omega), if_neg (by omega), abs_of_neg down, mul_neg]
    omega
  · rw [if_pos up, if_pos up, abs_of_pos up]
    omega

theorem extent_eq (nonzero : r.step ≠ 0) :
    r.extent = if 0 < r.span then (r.span + r.stride - 1).tdiv r.stride else 0 := by
  unfold extent stride span
  dsimp only
  rcases lt_or_gt_of_ne (Word.toInt_ne_zero_iff.mpr nonzero) with down | up
  · have backward : ¬ 0 < r.step.toInt := by omega
    simp only [down, backward, false_and, true_and, if_false, abs_of_neg down, sub_pos, ← sub_eq_add_neg]
  · simp only [up, true_and, if_true, abs_of_pos up, sub_pos]
    simp [not_lt_of_gt up]

/-- Rounding up counts the strides that begin within the span. -/
theorem lt_tdiv_iff {span stride : Int} (forward : 0 < stride) (ahead : 0 < span) :
    index < (span + stride - 1).tdiv stride ↔ index * stride < span := by
  rw [Int.tdiv_eq_ediv_of_nonneg (by omega), ← Int.add_one_le_iff, Int.le_ediv_iff_mul_le forward]
  constructor <;> intro bound <;> linarith

theorem lt_extent_iff (nonzero : r.step ≠ 0) : index < r.extent ↔ r.Before (r.term index) := by
  have forward := stride_pos nonzero
  rw [before_term_iff nonzero, extent_eq nonzero]
  split
  · exact lt_tdiv_iff forward ‹_›
  · have reached : 0 ≤ index * r.stride := by positivity
    omega

theorem extent_nonneg (nonzero : r.step ≠ 0) : 0 ≤ r.extent := by
  have forward := stride_pos nonzero
  rw [extent_eq nonzero]
  split
  · exact Int.tdiv_nonneg (by omega) forward.le
  · exact le_rfl

/-- Not even steps of one from the least word to the greatest are too many for a size. -/
theorem extent_le (nonzero : r.step ≠ 0) : r.extent ≤ Size.greatest := by
  by_contra longer
  have beyond := (before_term_iff nonzero).mp ((lt_extent_iff nonzero).mp (not_le.mp longer))
  have forward := stride_pos nonzero
  have ⟨startLower, startUpper⟩ := Word.fits_toInt r.start
  have ⟨stopLower, stopUpper⟩ := Word.fits_toInt r.stop
  unfold span Size.greatest at beyond
  split at beyond <;> omega

theorem size?_extent (nonzero : r.step ≠ 0) : Size.ofInt? r.extent = some r.size := by
  have found : Size.ofInt? r.extent = some r.extent.toNat :=
    if_pos ⟨extent_nonneg nonzero, extent_le nonzero⟩
  rw [size, found, Option.getD_some]

theorem lt_size_iff (nonzero : r.step ≠ 0) : index < r.size ↔ r.Before (r.term index) := by
  have found := size?_extent nonzero
  rw [Size.ofInt?, if_pos ⟨extent_nonneg nonzero, extent_le nonzero⟩, Option.some_inj] at found
  have nonnegative := extent_nonneg nonzero
  rw [← lt_extent_iff nonzero]
  omega

theorem encard_before (nonzero : r.step ≠ 0) : {k : Nat | r.Before (r.term k)}.encard = r.size := by
  have counted : {k : Nat | r.Before (r.term k)} = Finset.range r.size := by
    ext k
    simp [lt_size_iff nonzero]
  rw [counted, Set.encard_coe_eq_coe_finsetCard, Finset.card_range]

/-- Whether a number lies at the start or behind it, in the direction of the step. -/
def From (r : Range) (i : Int) : Prop :=
  if 0 < r.step.toInt then r.start.toInt ≤ i else i ≤ r.start.toInt

theorem from_term (r : Range) (index : Nat) : r.From (r.term index) := by
  unfold From term
  split
  · have ahead : 0 ≤ index * r.step.toInt := by positivity
    omega
  · have behind : index * r.step.toInt ≤ 0 :=
      mul_nonpos_of_nonneg_of_nonpos (Int.natCast_nonneg index) (not_lt.mp ‹_›)
    omega

/-- Every number between the bounds is as small as they are. -/
theorem fits_of_between {i : Int} (behind : r.From i) (before : r.Before i) : Word.Fits i := by
  have ⟨startLower, startUpper⟩ := Word.fits_toInt r.start
  have ⟨stopLower, stopUpper⟩ := Word.fits_toInt r.stop
  unfold From at behind
  unfold Before at before
  unfold Word.Fits
  split at behind <;> split at before <;> omega

theorem fits_term (nonzero : r.step ≠ 0) (inside : index < r.size) : Word.Fits (r.term index) :=
  fits_of_between (from_term r index) ((lt_size_iff nonzero).mp inside)

/-- The product that leads to an element is the distance of two words. -/
theorem fitsTwice_offset (nonzero : r.step ≠ 0) (inside : index < r.size) :
    FitsTwice (index * r.step.toInt) := by
  have ⟨startLower, startUpper⟩ := Word.fits_toInt r.start
  have ⟨lower, upper⟩ := fits_term nonzero inside
  unfold term at lower upper
  unfold FitsTwice
  omega

theorem get?_eq_some_iff : r.get? index = some value ↔ index < r.size ∧ value.toInt = r.term index := by
  unfold get?
  split
  · rw [Word.ofInt?_eq_some_iff]
    exact (and_iff_right ‹_›).symm
  · simp [*]

theorem exists_get? (nonzero : r.step ≠ 0) (inside : index < r.size) :
    ∃ value : Int64, r.get? index = some value ∧ value.toInt = r.term index := by
  obtain ⟨value, same, _⟩ := Word.ofInt?_of_fits (fits_term nonzero inside)
  exact ⟨value, get?_eq_some_iff.mpr ⟨inside, same⟩, same⟩

theorem get?_of_le (outside : r.size ≤ index) : r.get? index = none :=
  if_neg (not_lt.mpr outside)

theorem contains_iff_dvd (nonzero : r.step ≠ 0) : r.contains value = true ↔
    r.step.toInt ∣ value.toInt - r.start.toInt ∧ r.From value.toInt ∧ r.Before value.toInt := by
  unfold contains From Before
  dsimp only
  rw [Bool.and_eq_true, beq_iff_eq, ← Int.dvd_iff_tmod_eq_zero, and_comm]
  rcases lt_or_gt_of_ne (Word.toInt_ne_zero_iff.mpr nonzero) with down | up
  · simp only [down, not_lt_of_gt down, if_false, if_true, Bool.and_eq_true, decide_eq_true_eq,
      and_comm (a := r.stop.toInt < _)]
  · simp only [up, if_true, Bool.and_eq_true, decide_eq_true_eq]

/-- The multiples of the step from the start on are the terms. -/
theorem exists_term_iff (nonzero : r.step ≠ 0) {i : Int} :
    (∃ index, i = r.term index) ↔ r.step.toInt ∣ i - r.start.toInt ∧ r.From i := by
  constructor
  · rintro ⟨index, rfl⟩
    exact ⟨⟨index, by unfold term; ring⟩, from_term r index⟩
  · rintro ⟨⟨steps, distance⟩, behind⟩
    have natural : 0 ≤ steps := by
      unfold From at behind
      rcases lt_or_gt_of_ne (Word.toInt_ne_zero_iff.mpr nonzero) with down | up
      · rw [if_neg (not_lt_of_gt down)] at behind
        exact nonneg_of_mul_nonneg_right (a := -r.step.toInt) (by linarith) (by omega)
      · rw [if_pos up] at behind
        exact nonneg_of_mul_nonneg_right (a := r.step.toInt) (by linarith) up
    lift steps to Nat using natural
    exact ⟨steps, by unfold term; linarith⟩

theorem contains_iff (nonzero : r.step ≠ 0) : r.contains value = true ↔ ∃ index, r.get? index = some value := by
  simp only [contains_iff_dvd nonzero, ← and_assoc, ← exists_term_iff nonzero, get?_eq_some_iff,
    lt_size_iff nonzero]
  constructor
  · rintro ⟨⟨index, same⟩, before⟩
    exact ⟨index, same ▸ before, same⟩
  · rintro ⟨index, before, same⟩
    exact ⟨⟨index, same⟩, same ▸ before⟩

theorem isEmpty_iff (nonzero : r.step ≠ 0) : r.isEmpty = true ↔ ∀ index, ¬ r.Before (r.term index) := by
  simp only [isEmpty, beq_iff_eq, ← lt_size_iff nonzero]
  constructor
  · intro empty index
    omega
  · intro outside
    exact Nat.eq_zero_of_not_pos (outside 0)

theorem size_of_step_zero (still : r.step = 0) : r.size = 0 := by
  have zero : r.step.toInt = 0 := by rw [still, Int64.toInt_zero]
  simp [size, extent, zero, Size.ofInt?]

theorem contains_of_step_zero (still : r.step = 0) (value : Int64) : r.contains value = false := by
  simp [contains, still]

/-- A range holds exactly the terms of its progression that lie before the stop. Their number is never
too large for a size, and neither the product that leads to one nor the term itself for the integers
that they are computed in. -/
theorem progression_exact (r : Range) :
    (r.step ≠ 0 →
      {k : Nat | r.Before (r.term k)}.encard = r.size ∧
      Size.ofInt? r.extent = some r.size ∧
      (∀ index, (index < r.size → FitsTwice (index * r.step.toInt) ∧
          ∃ value : Int64, r.get? index = some value ∧ value.toInt = r.term index) ∧
        (r.size ≤ index → r.get? index = none)) ∧
      (∀ value, r.contains value = true ↔ ∃ index, r.get? index = some value) ∧
      (r.isEmpty = true ↔ ∀ index, ¬ r.Before (r.term index))) ∧
    (r.step = 0 → r.size = 0 ∧ (∀ index, r.get? index = none) ∧ ∀ value, r.contains value = false) := by
  constructor
  · intro nonzero
    refine ⟨encard_before nonzero, size?_extent nonzero, ?_, fun _ => contains_iff nonzero, isEmpty_iff nonzero⟩
    intro index
    exact ⟨fun inside => ⟨fitsTwice_offset nonzero inside, exists_get? nonzero inside⟩, get?_of_le⟩
  · intro still
    have empty := size_of_step_zero still
    exact ⟨empty, fun index => get?_of_le (by omega), contains_of_step_zero still⟩

/-- From the least word to the greatest in steps of one: as many elements as a size can count. -/
def widest : Range :=
  { start := Int64.minValue, stop := Int64.maxValue, step := 1 }

theorem progression_exact_widest :
    {k : Nat | widest.Before (widest.term k)}.encard = widest.size ∧ widest.size = Size.greatest := by
  have counted := ((progression_exact widest).1 (by decide)).1
  exact ⟨counted, rfl⟩

end BlockVM.Range
