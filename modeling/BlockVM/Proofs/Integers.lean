import BlockVM.Machine.Builtins
import BlockVM.Proofs.WordArithmetic

namespace BlockVM

/-! Arithmetic on integers and truth values. An operation either returns the mathematical result or
raises, and each exception is raised on exactly the operands that call for it. -/

/-- The operation raises an exception of this kind. -/
def RaisesKind {α : Type} (kind : ExceptionKind) (outcome : Except Fault α) : Prop :=
  ∃ fault, outcome = .error fault ∧ fault.kind = kind

/-- The outcome of an operation whose mathematical result is `i`: what is made of the word that holds
`i`, or an overflow if no word does. -/
structure Exact {α : Type} (made : Int64 → α) (outcome : Except Fault α) (i : Int) : Prop where
  returns : Word.Fits i → ∃ word : Int64, word.toInt = i ∧ outcome = .ok (made word)
  overflows_iff : RaisesKind .overflowError outcome ↔ ¬ Word.Fits i

namespace Exact

variable {α β : Type} {made : Int64 → α} {i : Int}

theorem of_word (made : Int64 → α) {word : Int64} (same : word.toInt = i) : Exact made (.ok (made word)) i where
  returns _ := ⟨word, same, rfl⟩
  overflows_iff := by
    have fits : Word.Fits i := same ▸ Word.fits_toInt word
    exact iff_of_false (fun ⟨_, returned, _⟩ => nomatch returned) (not_not_intro fits)

theorem of_overflow (made : Int64 → α) (spills : ¬ Word.Fits i) : Exact made (.error .integerOverflow) i where
  returns fits := absurd fits spills
  overflows_iff := ⟨fun _ => spills, fun _ => ⟨.integerOverflow, rfl, rfl⟩⟩

theorem elim_ofInt? (made : Int64 → α) (i : Int) :
    Exact made ((Word.ofInt? i).elim (.error .integerOverflow) fun word => .ok (made word)) i := by
  cases found : Word.ofInt? i with
  | none => exact of_overflow made (Word.ofInt?_eq_none_iff.mp found)
  | some word => exact of_word made (Word.ofInt?_eq_some_iff.mp found)

theorem map (change : α → β) {outcome : Except Fault α} (precise : Exact made outcome i) :
    Exact (fun word => change (made word)) (outcome.map change) i where
  returns fits := by
    obtain ⟨word, same, rfl⟩ := precise.returns fits
    exact ⟨word, same, rfl⟩
  overflows_iff := by
    rw [← precise.overflows_iff]
    cases outcome <;> simp [RaisesKind, Except.map]

end Exact

namespace Value

variable {a b : Value} {x y : Int64}

theorem number?_of_int? (whole : a.int? = some x) : a.number? = some (.int x) := by
  cases a <;> simp_all [int?, number?]

theorem exactInt_exact (i : Int) : Exact (some <| .int ·) (exactInt (Word.ofInt? i)) i := by
  have precise := Exact.elim_ofInt? (some <| Value.int ·) i
  cases found : Word.ofInt? i <;> simpa [exactInt, found] using precise

theorem exact_floorDivide (left : a.int? = some x) (right : b.int? = some y) (nonzero : y ≠ 0) :
    Exact (some <| .int ·) (floorDivide a b) ⌊(x.toInt : ℚ) / y.toInt⌋ := by
  simp only [floorDivide, number?_of_int? left, number?_of_int? right, if_neg nonzero,
    Word.floorDivide?_eq nonzero]
  exact exactInt_exact _

theorem modulo_eq (left : a.int? = some x) (right : b.int? = some y) (nonzero : y ≠ 0) :
    modulo a b = .ok (some (.int (Word.modulo x y))) := by
  simp only [modulo, number?_of_int? left, number?_of_int? right, if_neg nonzero]

theorem divide_by_zero (left : a.int? = some x) (right : b.int? = some 0) :
    RaisesKind .zeroDivisionError (floorDivide a b) ∧ RaisesKind .zeroDivisionError (modulo a b) := by
  simp only [floorDivide, modulo, number?_of_int? left, number?_of_int? right, if_true]
  exact ⟨⟨_, rfl, rfl⟩, ⟨_, rfl, rfl⟩⟩

/-- Quotients are rounded down and remainders have the sign of the divisor. The only quotient that
overflows is that of the least word by minus one, and no operation on the way overflows. -/
theorem division_law (left : a.int? = some x) (right : b.int? = some y) :
    (y = 0 → RaisesKind .zeroDivisionError (floorDivide a b) ∧
      RaisesKind .zeroDivisionError (modulo a b)) ∧
    (y ≠ 0 →
      (∃ rest : Int64, modulo a b = .ok (some (.int rest)) ∧
        ∀ r : Int, x.toInt = y.toInt * ⌊(x.toInt : ℚ) / y.toInt⌋ + r ∧
          (0 ≤ r ∧ r < y.toInt ∨ y.toInt < r ∧ r ≤ 0) ↔ r = rest.toInt) ∧
      (¬ (x = Int64.minValue ∧ y = -1) → ∃ quotient : Int64,
        floorDivide a b = .ok (some (.int quotient)) ∧ quotient.toInt = ⌊(x.toInt : ℚ) / y.toInt⌋) ∧
      (x = Int64.minValue ∧ y = -1 → RaisesKind .overflowError (floorDivide a b) ∧
        modulo a b = .ok (some (.int 0))) ∧
      Word.DividesSafely x y) := by
  constructor
  · rintro rfl
    exact divide_by_zero left right
  intro nonzero
  have precise := exact_floorDivide left right nonzero
  have fits := Word.fits_floor_iff (a := x) nonzero
  refine ⟨?_, ?_, ?_, Word.dividesSafely x y⟩
  · obtain ⟨residue, whole⟩ := Word.residue_modulo (a := x) nonzero
    refine ⟨_, modulo_eq left right nonzero, fun r => ⟨?_, ?_⟩⟩
    · rintro ⟨same, _⟩
      linarith
    · rintro rfl
      exact ⟨whole.symm, residue⟩
  · intro regular
    obtain ⟨quotient, floor, returned⟩ := precise.returns (fits.mpr regular)
    exact ⟨quotient, returned, floor⟩
  · rintro ⟨rfl, rfl⟩
    refine ⟨precise.overflows_iff.mpr (mt fits.mp (not_not_intro ⟨rfl, rfl⟩)), ?_⟩
    rw [modulo_eq left right nonzero]
    rfl

/-- The least word by minus one, and a negative dividend that the divisor does not divide. -/
theorem division_law_least :
    RaisesKind .overflowError (floorDivide (.int Int64.minValue) (.int (-1))) ∧
      modulo (.int Int64.minValue) (.int (-1)) = .ok (some (.int 0)) ∧
      ∃ quotient : Int64, floorDivide (.int (-7)) (.int 2) = .ok (some (.int quotient)) ∧
        quotient.toInt = ⌊((-7 : Int64).toInt : ℚ) / (2 : Int64).toInt⌋ := by
  obtain ⟨_, _, least, _⟩ := (division_law (a := .int Int64.minValue) (b := .int (-1)) rfl rfl).2 (by decide)
  obtain ⟨_, regular, _⟩ := (division_law (a := .int (-7)) (b := .int 2) rfl rfl).2 (by decide)
  exact ⟨(least ⟨rfl, rfl⟩).1, (least ⟨rfl, rfl⟩).2, regular (by decide)⟩

theorem exact_add (heap : Heap) (left : a.int? = some x) (right : b.int? = some y) :
    Exact (some <| .value <| .int ·) (add heap a b) (x.toInt + y.toInt) := by
  simp only [add, number?_of_int? left, number?_of_int? right]
  exact (exactInt_exact (x.toInt + y.toInt)).map (·.map Draft.value)

theorem exact_subtract (left : a.int? = some x) (right : b.int? = some y) :
    Exact (some <| .int ·) (subtract a b) (x.toInt - y.toInt) := by
  simp only [subtract, number?_of_int? left, number?_of_int? right]
  exact exactInt_exact _

theorem exact_multiply (heap : Heap) (left : a.int? = some x) (right : b.int? = some y) :
    Exact (some <| .value <| .int ·) (multiply heap a b) (x.toInt * y.toInt) := by
  simp only [multiply, number?_of_int? left, number?_of_int? right]
  exact (exactInt_exact (x.toInt * y.toInt)).map (·.map Draft.value)

theorem exact_negate (operand : a.int? = some x) : Exact (some <| .int ·) (negate a) (-x.toInt) := by
  simp only [negate, number?_of_int? operand]
  exact exactInt_exact _

theorem exact_callAbs (operand : a.int? = some x) : Exact .int (Builtin.callAbs a) |x.toInt| := by
  cases a with
  | bool value =>
      cases operand
      exact .of_word Value.int (by cases value <;> rfl)
  | int i =>
      cases operand
      rw [Int.abs_eq_natAbs, Builtin.callAbs]
      exact .elim_ofInt? Value.int _
  | _ => cases operand

theorem exact_shiftLeft (left : a.int? = some x) (right : b.int? = some y) (natural : 0 ≤ y.toInt) :
    Exact (some <| .int ·) (shiftLeft a b) (x.toInt * 2 ^ y.toInt.toNat) := by
  simp only [shiftLeft, left, right, if_neg (Word.not_neg natural)]
  split
  · rename_i zero
    rw [zero, Int64.toInt_zero, zero_mul]
    exact .of_word (some <| Value.int ·) Int64.toInt_zero
  · rw [Word.shiftLeft?_eq ‹_› natural]
    exact exactInt_exact _

theorem exact_shiftRight (left : a.int? = some x) (right : b.int? = some y) (natural : 0 ≤ y.toInt) :
    Exact (some <| .int ·) (shiftRight a b) ⌊(x.toInt : ℚ) / 2 ^ y.toInt.toNat⌋ := by
  have floor : ⌊(x.toInt : ℚ) / 2 ^ y.toInt.toNat⌋ = x.toInt / 2 ^ y.toInt.toNat := by
    exact_mod_cast Rat.floor_intCast_div_natCast x.toInt (2 ^ y.toInt.toNat)
  simp only [shiftRight, left, right, if_neg (Word.not_neg natural)]
  rw [floor]
  exact .of_word (some <| Value.int ·) (Word.toInt_shiftRight x natural)

theorem shift_by_negative (left : a.int? = some x) (right : b.int? = some y) (negative : y.toInt < 0) :
    RaisesKind .valueError (shiftLeft a b) ∧ RaisesKind .valueError (shiftRight a b) := by
  have counts : y < 0 := Int64.lt_iff_toInt_lt.mpr negative
  simp only [shiftLeft, shiftRight, left, right, if_pos counts]
  exact ⟨⟨_, rfl, rfl⟩, ⟨_, rfl, rfl⟩⟩

/-- Each operation is exact on all integers, also on those that only an overflow can answer. Any count
shifts, but the machine is asked to shift only by counts below the bits of a word. -/
theorem integers_exact (heap : Heap) (left : a.int? = some x) (right : b.int? = some y) :
    Exact (some <| .value <| .int ·) (add heap a b) (x.toInt + y.toInt) ∧
    Exact (some <| .int ·) (subtract a b) (x.toInt - y.toInt) ∧
    Exact (some <| .value <| .int ·) (multiply heap a b) (x.toInt * y.toInt) ∧
    Exact (some <| .int ·) (negate a) (-x.toInt) ∧
    (∃ outcome, Builtin.call .abs [a] = Act.ofExcept outcome ∧ Exact .int outcome |x.toInt|) ∧
    (0 ≤ y.toInt →
      Exact (some <| .int ·) (shiftLeft a b) (x.toInt * 2 ^ y.toInt.toNat) ∧
      Exact (some <| .int ·) (shiftRight a b) ⌊(x.toInt : ℚ) / 2 ^ y.toInt.toNat⌋) ∧
    (y.toInt < 0 → RaisesKind .valueError (shiftLeft a b) ∧ RaisesKind .valueError (shiftRight a b)) ∧
    (∀ bits, Word.shiftCount? y = some bits ↔ bits < 64 ∧ y.toInt = bits) := by
  refine ⟨exact_add heap left right, exact_subtract left right, exact_multiply heap left right,
    exact_negate left, ⟨_, rfl, exact_callAbs left⟩, ?_, shift_by_negative left right, ?_⟩
  · intro natural
    exact ⟨exact_shiftLeft left right natural, exact_shiftRight left right natural⟩
  · intro bits
    exact Word.shiftCount?_eq_some_iff

/-- The least word: a product and a negation that no word holds, and a shift past all its bits. -/
theorem integers_exact_least :
    Exact (some <| .value <| .int ·) (multiply .empty (.int Int64.minValue) (.int 70))
        (Int64.minValue.toInt * (70 : Int64).toInt) ∧
      Exact (some <| .int ·) (negate (.int Int64.minValue)) (-Int64.minValue.toInt) ∧
      Exact (some <| .int ·) (shiftRight (.int Int64.minValue) (.int 70))
        ⌊(Int64.minValue.toInt : ℚ) / 2 ^ (70 : Int64).toInt.toNat⌋ := by
  obtain ⟨_, _, product, negation, _, shifts, _⟩ :=
    integers_exact (a := .int Int64.minValue) (b := .int 70) .empty rfl rfl
  exact ⟨product, negation, (shifts (by decide)).2⟩

theorem power_of_half? (left : a.int? = some x) (right : b.int? = some y) (natural : 0 ≤ y.toInt) :
    power a b = exactInt ((Word.half? y).bind (Word.power? x)) := by
  simp only [power, number?_of_int? left, number?_of_int? right, if_neg (Word.not_neg natural)]

theorem exact_power (left : a.int? = some x) (right : b.int? = some y) (natural : 0 ≤ y.toInt)
    (short : y.toInt < 2 ^ 32) : Exact (some <| .int ·) (power a b) (x.toInt ^ y.toInt.toNat) := by
  have half : Word.half? y = some y.toInt.toNat := Word.half?_eq_some_iff.mpr (by omega)
  rw [power_of_half? left right natural, half, Option.bind_some, Word.power?_eq]
  exact exactInt_exact _

theorem power_of_long (left : a.int? = some x) (right : b.int? = some y) (long : 2 ^ 32 ≤ y.toInt) :
    power a b = .error .integerOverflow := by
  have missing : Word.half? y = none := by
    rw [Option.eq_none_iff_forall_not_mem]
    intro number found
    have short := Word.half?_eq_some_iff.mp found
    omega
  rw [power_of_half? left right (by omega), missing]
  rfl

/-- Powers are exact, except that an exponent beyond a half word overflows whatever the base is: right
for all bases but zero, one and minus one, whose powers always fit. -/
theorem power_exact_iff (left : a.int? = some x) (right : b.int? = some y) (natural : 0 ≤ y.toInt) :
    (Exact (some <| .int ·) (power a b) (x.toInt ^ y.toInt.toNat) ↔
      y.toInt < 2 ^ 32 ∨ 2 ≤ x.toInt.natAbs) ∧
    (2 ^ 32 ≤ y.toInt → RaisesKind .overflowError (power a b)) := by
  rcases lt_or_ge y.toInt (2 ^ 32) with short | long
  · exact ⟨iff_of_true (exact_power left right natural short) (.inl short), fun long => by omega⟩
  · have fits := Word.fits_pow_iff (i := x.toInt) (n := y.toInt.toNat) (by omega)
    have overflows : RaisesKind .overflowError (power a b) := ⟨_, power_of_long left right long, rfl⟩
    refine ⟨⟨?_, ?_⟩, fun _ => overflows⟩
    · intro precise
      have large := mt fits.mpr (precise.overflows_iff.mp overflows)
      omega
    · intro allowed
      rw [power_of_long left right long]
      exact .of_overflow _ (mt fits.mp (by omega))

/-- The least word is a power of minus two. -/
theorem power_exact_iff_least : Exact (some <| .int ·) (power (.int (-2)) (.int 63))
    ((-2 : Int64).toInt ^ (63 : Int64).toInt.toNat) :=
  (power_exact_iff rfl rfl (by decide)).1.mpr (.inl (by decide))

/-- One to the power of the first number beyond a half word is one, and yet an overflow. -/
theorem power_of_one_overflows :
    power (.int 1) (.int 0x100000000) = .error .integerOverflow ∧
      ¬ Exact (some <| .int ·) (power (.int 1) (.int 0x100000000))
        ((1 : Int64).toInt ^ (0x100000000 : Int64).toInt.toNat) := by
  have refused : power (.int 1) (.int 0x100000000) = .error .integerOverflow :=
    power_of_long rfl rfl (by decide)
  refine ⟨refused, fun precise => ?_⟩
  have spills := precise.overflows_iff.mp ⟨_, refused, rfl⟩
  rw [Int64.toInt_one, one_pow] at spills
  exact spills ⟨by decide, by decide⟩

end Value

end BlockVM
