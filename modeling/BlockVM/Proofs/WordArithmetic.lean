import Mathlib.Data.Rat.Floor
import Mathlib.Tactic.Linarith
import Mathlib.Tactic.Ring
import BlockVM.Word

namespace BlockVM.Word

/-! The operations on words against the integers that the words stand for: where there is a result it
is the exact one, and where there is none no word could hold it. -/

/-- Whether a signed word can hold `i`. -/
def Fits (i : Int) : Prop :=
  -2 ^ 63 ≤ i ∧ i < 2 ^ 63

instance : DecidablePred Fits :=
  fun i => inferInstanceAs (Decidable (-2 ^ 63 ≤ i ∧ i < 2 ^ 63))

section Conversion

variable {i : Int} {a b word : Int64}

theorem fits_toInt (a : Int64) : Fits a.toInt :=
  ⟨Int64.le_toInt a, Int64.toInt_lt a⟩

theorem ofInt?_eq_none_iff : ofInt? i = none ↔ ¬ Fits i := by
  simp [ofInt?, Fits]

theorem ofInt?_of_fits (fits : Fits i) : ∃ word : Int64, word.toInt = i ∧ ofInt? i = some word := by
  obtain ⟨word, found⟩ := Option.ne_none_iff_exists'.mp (mt ofInt?_eq_none_iff.mp (not_not_intro fits))
  exact ⟨word, ofInt?_eq_some_iff.mp found, found⟩

theorem ofInt?_toInt (a : Int64) : ofInt? a.toInt = some a :=
  ofInt?_eq_some_iff.mpr rfl

/-- A result that fits has not been changed by wrapping around. -/
theorem ofInt?_of_bmod (fits : Fits i) (wrapped : word.toInt = i.bmod (2 ^ 64)) : ofInt? i = some word := by
  obtain ⟨lower, upper⟩ := fits
  rw [ofInt?_eq_some_iff, wrapped]
  exact Int.bmod_eq_of_le (by omega) (by omega)

theorem toInt_ne_zero_iff : a.toInt ≠ 0 ↔ a ≠ 0 := by
  rw [ne_eq, ← Int64.toInt_zero, Int64.toInt_inj]

theorem not_neg (natural : 0 ≤ a.toInt) : ¬ a < 0 := by
  rwa [Int64.lt_iff_toInt_lt, Int64.toInt_zero, not_lt]

end Conversion

/-- The remainders that rounding a quotient by `b` down can leave. -/
def Residue (b rest : Int) : Prop :=
  (0 ≤ rest ∧ rest < b) ∨ (b < rest ∧ rest ≤ 0)

/-- Whether the quotient of two integers is negative and not whole, so that cutting it off raises it. -/
def CutsUp (a b : Int) : Prop :=
  a.tmod b ≠ 0 ∧ (a < 0 ↔ ¬ b < 0)

instance (a b : Int) : Decidable (CutsUp a b) :=
  inferInstanceAs (Decidable (_ ∧ _))

section Integers

variable {a b q rest : Int}

/-- What leaves a residue is the quotient rounded down. -/
theorem floor_eq_of_residue (whole : b * q + rest = a) (residue : Residue b rest) : ⌊(a : ℚ) / b⌋ = q := by
  rw [Int.floor_eq_iff]
  rcases residue with ⟨lower, upper⟩ | ⟨lower, upper⟩
  · have positive : (0 : ℚ) < b := by exact_mod_cast lower.trans_lt upper
    rw [le_div_iff₀ positive, div_lt_iff₀ positive]
    constructor
    · exact_mod_cast (by linarith : q * b ≤ a)
    · exact_mod_cast (by linarith : a < (q + 1) * b)
  · have negative : (b : ℚ) < 0 := by exact_mod_cast lower.trans_le upper
    rw [le_div_iff_of_neg negative, div_lt_iff_of_neg negative]
    constructor
    · exact_mod_cast (by linarith : a ≤ q * b)
    · exact_mod_cast (by linarith : (q + 1) * b < a)

theorem tmod_nonpos (b : Int) (nonpositive : a ≤ 0) : a.tmod b ≤ 0 := by
  have mirrored := Int.tmod_nonneg b (a := -a) (by omega)
  rw [Int.neg_tmod] at mirrored
  omega

theorem natAbs_tmod_lt (a : Int) (nonzero : b ≠ 0) : (a.tmod b).natAbs < b.natAbs := by
  rw [Int.natAbs_tmod]
  exact Nat.mod_lt _ (Int.natAbs_pos.mpr nonzero)

theorem natAbs_tdiv_le (a : Int) (large : 2 ≤ b.natAbs) : (a.tdiv b).natAbs ≤ a.natAbs / 2 := by
  rw [Int.natAbs_tdiv]
  exact Nat.div_le_div_left large (by decide)

/-- A remainder has the sign of `a`. It is a residue unless `b` has the other sign, and then it becomes
one by adding `b`. -/
theorem residue_tmod (a : Int) (nonzero : b ≠ 0) :
    Residue b (if CutsUp a b then a.tmod b + b else a.tmod b) := by
  have small := natAbs_tmod_lt a nonzero
  have above : 0 ≤ a → 0 ≤ a.tmod b := Int.tmod_nonneg b
  have below : a ≤ 0 → a.tmod b ≤ 0 := tmod_nonpos b
  unfold Residue
  by_cases up : CutsUp a b
  · rw [if_pos up]
    unfold CutsUp at up
    omega
  · rw [if_neg up]
    unfold CutsUp at up
    omega

theorem rounded_whole (a b : Int) :
    b * (if CutsUp a b then a.tdiv b - 1 else a.tdiv b) + (if CutsUp a b then a.tmod b + b else a.tmod b) = a := by
  have whole := Int.mul_tdiv_add_tmod a b
  split <;> linarith

theorem floor_eq_tdiv (a : Int) (nonzero : b ≠ 0) :
    ⌊(a : ℚ) / b⌋ = if CutsUp a b then a.tdiv b - 1 else a.tdiv b :=
  floor_eq_of_residue (rounded_whole a b) (residue_tmod a nonzero)

end Integers

section Division

variable {a b q rest : Int64}

theorem opposed_iff : opposed a b = true ↔ (a.toInt < 0 ↔ ¬ b.toInt < 0) := by
  simp only [opposed, Int64.lt_iff_toInt_lt, Int64.toInt_zero, bne_iff_ne, ne_eq, decide_eq_decide]
  omega

theorem cutsUp_iff : cutsUp a b = true ↔ CutsUp a.toInt b.toInt := by
  rw [cutsUp, Bool.and_eq_true, opposed_iff, bne_iff_ne, ← toInt_ne_zero_iff, Int64.toInt_mod, CutsUp]

theorem strays_iff : strays rest b = true ↔ rest.toInt ≠ 0 ∧ (rest.toInt < 0 ↔ ¬ b.toInt < 0) := by
  rw [strays, Bool.and_eq_true, opposed_iff, bne_iff_ne, ← toInt_ne_zero_iff]

/-- A remainder is corrected exactly where the quotient is. -/
theorem strays_mod (a b : Int64) : strays (a % b) b = cutsUp a b := by
  have above : 0 ≤ a.toInt → 0 ≤ a.toInt.tmod b.toInt := Int.tmod_nonneg b.toInt
  have below : a.toInt ≤ 0 → a.toInt.tmod b.toInt ≤ 0 := tmod_nonpos b.toInt
  rw [Bool.eq_iff_iff, strays_iff, cutsUp_iff, Int64.toInt_mod, CutsUp]
  omega

theorem divide?_eq_some_iff : divide? a b = some q ↔ b ≠ 0 ∧ q.toInt = a.toInt.tdiv b.toInt := by
  unfold divide?
  split <;> simp_all [ofInt?_eq_some_iff]

/-- The least word divided by minus one is the only quotient that no word can hold. -/
theorem divide?_eq_none_iff (nonzero : b ≠ 0) : divide? a b = none ↔ a = Int64.minValue ∧ b = -1 := by
  have ⟨lower, upper⟩ := fits_toInt a
  have divisor := toInt_ne_zero_iff.mpr nonzero
  have minusOne : (-1 : Int64).toInt = -1 := rfl
  rw [divide?, if_neg nonzero, ofInt?_eq_none_iff, ← Int64.toInt_inj, ← Int64.toInt_inj,
    Int64.toInt_minValue, minusOne]
  rcases Nat.lt_or_ge b.toInt.natAbs 2 with unit | large
  · obtain one | one : b.toInt = 1 ∨ b.toInt = -1 := by omega
    · rw [one, Int.tdiv_one]
      exact iff_of_false (not_not_intro (fits_toInt a)) (by omega)
    · rw [one, Int.tdiv_neg, Int.tdiv_one, Fits]
      omega
  · have half := natAbs_tdiv_le a.toInt large
    unfold Fits
    omega

theorem remainder?_of_divide? (found : divide? a b = some q) : remainder? a b = some (a % b) := by
  have nonzero := (divide?_eq_some_iff.mp found).1
  have regular : ¬ (a = Int64.minValue ∧ b = -1) := by
    rw [← divide?_eq_none_iff nonzero, found]
    exact Option.some_ne_none q
  exact if_neg (not_or_intro nonzero regular)

theorem two_le_of_cutsUp (nonzero : b ≠ 0) (up : cutsUp a b = true) : 2 ≤ b.toInt.natAbs := by
  have small := natAbs_tmod_lt a.toInt (toInt_ne_zero_iff.mpr nonzero)
  have uneven := (cutsUp_iff.mp up).1
  omega

/-- One can always be taken off a quotient that was cut off upwards. -/
theorem subtract?_of_cutsUp (found : divide? a b = some q) (up : cutsUp a b = true) :
    subtract? q 1 = some (q - 1) := by
  obtain ⟨nonzero, cut⟩ := divide?_eq_some_iff.mp found
  have half := natAbs_tdiv_le a.toInt (two_le_of_cutsUp nonzero up)
  have ⟨lower, upper⟩ := fits_toInt a
  apply ofInt?_of_bmod _ (Int64.toInt_sub q 1)
  rw [cut, Int64.toInt_one]
  unfold Fits
  omega

/-- The divisor can always be added to a remainder of the other sign. -/
theorem add?_of_strays (stray : strays rest b = true) : add? rest b = some (rest + b) := by
  have signs := strays_iff.mp stray
  have ⟨restLower, restUpper⟩ := fits_toInt rest
  have ⟨lower, upper⟩ := fits_toInt b
  apply ofInt?_of_bmod _ (Int64.toInt_add rest b)
  unfold Fits
  omega

/-- An operation of the machine does not overflow where there is a checked result and it is the same.
None of those that rounding a quotient down takes overflows on the operands that reach it. -/
structure DividesSafely (a b : Int64) : Prop where
  remainder : ∀ quotient, divide? a b = some quotient → remainder? a b = some (a % b)
  quotient : ∀ quotient, divide? a b = some quotient → cutsUp a b = true →
    subtract? quotient 1 = some (quotient - 1)
  rest : ∀ rest, remainder? a b = some rest → strays rest b = true → add? rest b = some (rest + b)

theorem dividesSafely (a b : Int64) : DividesSafely a b where
  remainder _ := remainder?_of_divide?
  quotient _ := subtract?_of_cutsUp
  rest _ _ := add?_of_strays

theorem floorDivide?_eq (nonzero : b ≠ 0) : floorDivide? a b = ofInt? ⌊(a.toInt : ℚ) / b.toInt⌋ := by
  rw [floorDivide?, floor_eq_tdiv _ (toInt_ne_zero_iff.mpr nonzero)]
  cases found : divide? a b with
  | none =>
      obtain ⟨rfl, rfl⟩ := (divide?_eq_none_iff nonzero).mp found
      rfl
  | some quotient =>
      have cut := (divide?_eq_some_iff.mp found).2
      symm
      rw [Option.map_some, ofInt?_eq_some_iff]
      by_cases up : cutsUp a b = true
      · have less := ofInt?_eq_some_iff.mp (subtract?_of_cutsUp found up)
        rw [if_pos up, if_pos (cutsUp_iff.mp up), less, Int64.toInt_one, cut]
      · rw [if_neg up, if_neg (mt cutsUp_iff.mpr up), cut]

theorem fits_floor_iff (nonzero : b ≠ 0) :
    Fits ⌊(a.toInt : ℚ) / b.toInt⌋ ↔ ¬ (a = Int64.minValue ∧ b = -1) := by
  rw [← divide?_eq_none_iff nonzero, iff_not_comm, ← ofInt?_eq_none_iff, ← floorDivide?_eq nonzero,
    floorDivide?, Option.map_eq_none_iff]

/-- The least word leaves no remainder by minus one, so the missing one can be taken for zero. -/
theorem getD_remainder? (nonzero : b ≠ 0) : (remainder? a b).getD 0 = a % b := by
  cases found : divide? a b with
  | none =>
      obtain ⟨rfl, rfl⟩ := (divide?_eq_none_iff nonzero).mp found
      rfl
  | some quotient => rw [remainder?_of_divide? found, Option.getD_some]

theorem toInt_modulo (nonzero : b ≠ 0) : (modulo a b).toInt =
    if CutsUp a.toInt b.toInt then a.toInt.tmod b.toInt + b.toInt else a.toInt.tmod b.toInt := by
  rw [modulo, getD_remainder? nonzero, strays_mod]
  by_cases up : cutsUp a b = true
  · have more := ofInt?_eq_some_iff.mp (add?_of_strays ((strays_mod a b).trans up))
    simp only [if_pos up, if_pos (cutsUp_iff.mp up), more, Int64.toInt_mod]
  · simp only [if_neg up, if_neg (mt cutsUp_iff.mpr up), Int64.toInt_mod]

theorem residue_modulo (nonzero : b ≠ 0) :
    Residue b.toInt (modulo a b).toInt ∧
      b.toInt * ⌊(a.toInt : ℚ) / b.toInt⌋ + (modulo a b).toInt = a.toInt := by
  have divisor := toInt_ne_zero_iff.mpr nonzero
  rw [toInt_modulo nonzero, floor_eq_tdiv _ divisor]
  exact ⟨residue_tmod a.toInt divisor, rounded_whole a.toInt b.toInt⟩

end Division

section Shifts

variable {a count : Int64} {bits : Nat}

theorem half?_eq_some_iff {number : Nat} : half? a = some number ↔ number < 2 ^ 32 ∧ a.toInt = number := by
  unfold half?
  split
  · rw [Option.some_inj]
    omega
  · simp only [reduceCtorEq, false_iff]
    omega

theorem shiftCount?_eq_some_iff : shiftCount? count = some bits ↔ bits < 64 ∧ count.toInt = bits := by
  rw [shiftCount?, Option.filter_eq_some_iff, half?_eq_some_iff, decide_eq_true_eq]
  omega

theorem shiftCount?_eq_none_iff (natural : 0 ≤ count.toInt) : shiftCount? count = none ↔ 64 ≤ count.toInt := by
  rw [Option.eq_none_iff_forall_not_mem]
  constructor
  · intro missing
    by_contra small
    exact missing count.toInt.toNat (shiftCount?_eq_some_iff.mpr (by omega))
  · intro large bits found
    have counted := shiftCount?_eq_some_iff.mp found
    omega

/-- The machine takes a count modulo the bits of a word; one below them counts as it is. -/
theorem smod_count (small : bits < 64) :
    (Int64.ofNat bits).toBitVec.smod 64 = BitVec.ofNat 64 bits := by
  have all : ∀ n : Fin 64, (Int64.ofNat n).toBitVec.smod 64 = BitVec.ofNat 64 n := by decide
  exact all ⟨bits, small⟩

theorem toNat_count (small : bits < 64) : (BitVec.ofNat 64 bits).toNat = bits := by
  rw [BitVec.toNat_ofNat]
  exact Nat.mod_eq_of_lt (by omega)

theorem toInt_shiftLeft_bits (a : Int64) (small : bits < 64) :
    (a <<< Int64.ofNat bits).toInt = (a.toInt * 2 ^ bits).bmod (2 ^ 64) := by
  rw [← Int64.toInt_toBitVec, Int64.toBitVec_shiftLeft, smod_count small, BitVec.shiftLeft_eq',
    BitVec.toInt_shiftLeft, toNat_count small, Nat.shiftLeft_eq, Int.natCast_mul, Int.natCast_pow,
    ← Int64.toInt_toBitVec, BitVec.toInt_eq_toNat_bmod, Int.bmod_mul_bmod]
  rfl

theorem toInt_shiftRight_bits (a : Int64) (small : bits < 64) :
    (a >>> Int64.ofNat bits).toInt = a.toInt / 2 ^ bits := by
  rw [← Int64.toInt_toBitVec, Int64.toBitVec_shiftRight, smod_count small, BitVec.toInt_sshiftRight',
    toNat_count small, Int.shiftRight_eq_div_pow, Int64.toInt_toBitVec]
  rfl

/-- Shifting back gives the word again exactly if no bit was lost. What was shifted is a multiple of
the power of two also after it has wrapped around, so shifting back divides it evenly. -/
theorem shifted_back_iff (a : Int64) (small : bits < 64) :
    (a.toInt * 2 ^ bits).bmod (2 ^ 64) / 2 ^ bits = a.toInt ↔ Fits (a.toInt * 2 ^ bits) := by
  have positive : (0 : Int) < 2 ^ bits := by positivity
  constructor
  · intro back
    have wraps : (2 ^ bits : Int) ∣ (a.toInt * 2 ^ bits).bmod (2 ^ 64) - a.toInt * 2 ^ bits :=
      (pow_dvd_pow 2 small.le).trans Int.dvd_bmod_sub_self
    have even : (2 ^ bits : Int) ∣ (a.toInt * 2 ^ bits).bmod (2 ^ 64) :=
      (dvd_sub_left (dvd_mul_left _ _)).mp wraps
    have same : (a.toInt * 2 ^ bits).bmod (2 ^ 64) = a.toInt * 2 ^ bits := by
      rw [← Int.ediv_mul_cancel even, back]
    have lower := Int.le_bmod (x := a.toInt * 2 ^ bits) (m := 2 ^ 64) (by decide)
    have upper := Int.bmod_lt (x := a.toInt * 2 ^ bits) (m := 2 ^ 64) (by decide)
    unfold Fits
    omega
  · rintro ⟨lower, upper⟩
    rw [Int.bmod_eq_of_le (by omega) (by omega), Int.mul_ediv_cancel _ positive.ne']

theorem not_fits_of_natAbs {i : Int} (large : 2 ^ 63 < i.natAbs) : ¬ Fits i := by
  unfold Fits
  omega

theorem shiftLeft?_eq (nonzero : a ≠ 0) (natural : 0 ≤ count.toInt) :
    shiftLeft? a count = ofInt? (a.toInt * 2 ^ count.toInt.toNat) := by
  cases found : shiftCount? count with
  | none =>
      have far : 64 ≤ count.toInt.toNat := by
        have missing := (shiftCount?_eq_none_iff natural).mp found
        omega
      have spills : ¬ Fits (a.toInt * 2 ^ count.toInt.toNat) := by
        apply not_fits_of_natAbs
        calc 2 ^ 63 < 1 * 2 ^ 64 := by decide
          _ ≤ a.toInt.natAbs * 2 ^ count.toInt.toNat :=
            Nat.mul_le_mul (Int.natAbs_pos.mpr (toInt_ne_zero_iff.mpr nonzero)) (Nat.pow_le_pow_right two_pos far)
          _ = (a.toInt * 2 ^ count.toInt.toNat).natAbs := by rw [Int.natAbs_mul, Int.natAbs_pow]; rfl
      rw [shiftLeft?, found, ofInt?_eq_none_iff.mpr spills]
      rfl
  | some bits =>
      obtain ⟨small, counted⟩ := shiftCount?_eq_some_iff.mp found
      have back := shifted_back_iff a small
      rw [← toInt_shiftLeft_bits a small, ← toInt_shiftRight_bits _ small, Int64.toInt_inj] at back
      rw [counted, Int.toNat_natCast]
      simp only [shiftLeft?, found, Option.bind_eq_bind, Option.bind_some]
      split
      · exact (ofInt?_of_bmod (back.mp ‹_›) (toInt_shiftLeft_bits a small)).symm
      · exact (ofInt?_eq_none_iff.mpr (mt back.mpr ‹_›)).symm

theorem toInt_shiftRight (a : Int64) (natural : 0 ≤ count.toInt) :
    (shiftRight a count).toInt = a.toInt / 2 ^ count.toInt.toNat := by
  have ⟨lower, upper⟩ := fits_toInt a
  cases found : shiftCount? count with
  | none =>
      have far : 63 ≤ count.toInt.toNat := by
        have missing := (shiftCount?_eq_none_iff natural).mp found
        omega
      have reach : (2 ^ 63 : Int) ≤ 2 ^ count.toInt.toNat := pow_le_pow_right₀ (by decide) far
      simp only [shiftRight, found, Int64.lt_iff_toInt_lt, Int64.toInt_zero]
      split
      · exact (Int.ediv_eq_neg_one_of_neg_of_le ‹_› (by omega)).symm
      · exact (Int.ediv_eq_zero_of_lt (by omega) (by omega)).symm
  | some bits =>
      obtain ⟨small, counted⟩ := shiftCount?_eq_some_iff.mp found
      rw [shiftRight, found, counted, Int.toNat_natCast, toInt_shiftRight_bits a small]

end Shifts

section Powers

variable {base product : Int64} {exponent : Nat}

/-- What does not fit does not fit any more once it has been multiplied up. -/
theorem not_fits_mul {i factor : Int} (spills : ¬ Fits i) (positive : 0 < factor) : ¬ Fits (i * factor) := by
  unfold Fits at spills ⊢
  rcases lt_or_ge i 0 with negative | nonnegative
  · have lower := mul_le_mul_of_nonpos_left (by omega : 1 ≤ factor) negative.le
    omega
  · have higher := mul_le_mul_of_nonneg_left (by omega : 1 ≤ factor) nonnegative
    omega

/-- No square is the magnitude of the least word, so one that does not fit lies beyond it. -/
theorem lt_square {i : Int} (spills : ¬ Fits (i * i)) : 2 ^ 63 < i * i := by
  have far : 3037000499 < |i| := by
    by_contra near
    have bounded := mul_self_le_mul_self (abs_nonneg i) (not_lt.mp near)
    rw [abs_mul_abs_self] at bounded
    have nonnegative := mul_self_nonneg i
    unfold Fits at spills
    omega
  calc (2 ^ 63 : Int) < 3037000500 * 3037000500 := by decide
    _ ≤ |i| * |i| := mul_self_le_mul_self (by decide) far
    _ = i * i := abs_mul_abs_self i

theorem pow_split (i : Int) (exponent : Nat) : i ^ exponent = i ^ (exponent % 2) * (i * i) ^ (exponent / 2) := by
  rw [← pow_two, ← pow_mul, ← pow_add, Nat.mod_add_div]

theorem takeIn?_eq : takeIn? product base exponent = ofInt? (product.toInt * base.toInt ^ (exponent % 2)) := by
  unfold takeIn?
  split
  · rw [‹exponent % 2 = 1›, pow_one, multiply?]
  · rw [show exponent % 2 = 0 by omega, pow_zero, mul_one, ofInt?_toInt]

theorem eq_zero_of_mul_pow {p i : Int} {n : Nat} (rooted : p = 0 → i = 0) (zero : p * i ^ n = 0) : i = 0 := by
  rcases mul_eq_zero.mp zero with factor | power
  · exact rooted factor
  · exact eq_zero_of_pow_eq_zero power

/-- Powers of a square beyond the words stay beyond them, whatever factor they get. -/
theorem not_fits_mul_pow {p i : Int} {n : Nat} (large : 2 ^ 63 < i) (nonzero : p ≠ 0) (raised : n ≠ 0) :
    ¬ Fits (p * i ^ n) := by
  apply not_fits_of_natAbs
  calc 2 ^ 63 < i.natAbs := by omega
    _ ≤ i.natAbs ^ n := Nat.le_self_pow raised _
    _ ≤ p.natAbs * i.natAbs ^ n := Nat.le_mul_of_pos_left _ (Int.natAbs_pos.mpr nonzero)
    _ = (p * i ^ n).natAbs := by rw [Int.natAbs_mul, Int.natAbs_pow]

/-- The loop is exact as long as a product of zero comes from a base of zero: otherwise a square could
fail to fit that a product of zero does not need. -/
theorem powerFrom?_eq (rooted : product.toInt = 0 → base.toInt = 0) :
    powerFrom? product base exponent = ofInt? (product.toInt * base.toInt ^ exponent) := by
  fun_induction powerFrom? product base exponent with
  | case1 product base => rw [pow_zero, mul_one, ofInt?_toInt]
  | case2 product base exponent started missing =>
      rw [takeIn?_eq, ofInt?_eq_none_iff] at missing
      have nonzero : base.toInt ≠ 0 := by
        intro zero
        apply missing
        rw [zero]
        rcases Nat.mod_two_eq_zero_or_one exponent with even | odd
        · rw [even, pow_zero, mul_one]
          exact fits_toInt product
        · rw [odd, pow_one, mul_zero]
          decide
      -- What is left to multiply in is an even power, so it cannot bring the product back.
      have grows : 0 < (base.toInt * base.toInt) ^ (exponent / 2) := pow_pos (mul_self_pos.mpr nonzero) _
      symm
      rw [ofInt?_eq_none_iff, pow_split, ← mul_assoc]
      exact not_fits_mul missing grows
  | case3 product base taken started found => exact (takeIn?_eq ▸ found).symm
  | case4 product base exponent started taken found onward missing =>
      rw [takeIn?_eq, ofInt?_eq_some_iff] at found
      have large := lt_square (ofInt?_eq_none_iff.mp missing)
      have nonzero : taken.toInt ≠ 0 := by
        intro zero
        rw [eq_zero_of_mul_pow rooted (found.symm.trans zero)] at large
        exact absurd large (by decide)
      symm
      rw [ofInt?_eq_none_iff, pow_split, ← mul_assoc, ← found]
      exact not_fits_mul_pow large nonzero (by omega)
  | case5 product base exponent started taken found onward square squared ih =>
      rw [takeIn?_eq, ofInt?_eq_some_iff] at found
      rw [multiply?, ofInt?_eq_some_iff] at squared
      have still : taken.toInt = 0 → square.toInt = 0 := by
        intro zero
        rw [squared, eq_zero_of_mul_pow rooted (found.symm.trans zero), mul_zero]
      rw [ih still, squared, found, mul_assoc, ← pow_split]

theorem power?_eq (base : Int64) (exponent : Nat) : power? base exponent = ofInt? (base.toInt ^ exponent) := by
  rw [power?, powerFrom?_eq (fun zero => absurd zero (by decide)), Int64.toInt_one, one_mul]

/-- Of the long powers only those of zero, one and minus one fit. -/
theorem fits_pow_iff {i : Int} {n : Nat} (long : 64 ≤ n) : Fits (i ^ n) ↔ i.natAbs ≤ 1 := by
  constructor
  · intro fits
    by_contra large
    have enough : 2 ^ 63 < (i ^ n).natAbs := by
      calc 2 ^ 63 < 2 ^ 64 := by decide
        _ ≤ 2 ^ n := Nat.pow_le_pow_right two_pos long
        _ ≤ i.natAbs ^ n := Nat.pow_le_pow_left (by omega) n
        _ = (i ^ n).natAbs := (Int.natAbs_pow i n).symm
    exact not_fits_of_natAbs enough fits
  · intro unit
    have small : (i ^ n).natAbs ≤ 1 := by
      rw [Int.natAbs_pow]
      exact Nat.pow_le_one_iff (by omega) |>.mpr unit
    unfold Fits
    omega

end Powers

end BlockVM.Word
