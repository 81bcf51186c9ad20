import BlockVM.Json.Parser
import BlockVM.Json.Printer

namespace BlockVM.Json

/-! Reading a document back from its text. What is read stands in front of some rest, and the reader has to
stop just there. -/

/-- A rest that cannot be taken for more of a number. -/
def EndsNumeral (rest : List Char) : Prop :=
  ∀ c more, rest = c :: more → c.isDigit = false ∧ c ≠ '.' ∧ c ≠ 'e' ∧ c ≠ 'E'

theorem endsNumeral_nil : EndsNumeral [] := by
  intro c more same
  cases same

theorem endsNumeral_cons {c : Char} (rest : List Char) (ends : c = '\n' ∨ c = ',') : EndsNumeral (c :: rest) := by
  intro first more same
  cases same
  rcases ends with rfl | rfl <;> decide

namespace Numeral

theorem spanDigits_append {digits rest : List Char} (all : ∀ c ∈ digits, c.isDigit = true)
    (ends : EndsNumeral rest) : spanDigits (digits ++ rest) = (digits, rest) := by
  have stops : rest.takeWhile Char.isDigit = [] ∧ rest.dropWhile Char.isDigit = rest := by
    cases rest with
    | nil => exact ⟨rfl, rfl⟩
    | cons c more =>
        have other := (ends c more rfl).1
        simp [other]
  rw [spanDigits, List.takeWhile_append_of_pos all, List.dropWhile_append_of_pos all, stops.1, stops.2,
    List.append_nil]

/-- Only zero starts with the digit zero. -/
theorem toDigits_head (n : Nat) : Nat.toDigits 10 n = ['0'] ∨ ∃ c more, Nat.toDigits 10 n = c :: more ∧ c ≠ '0' := by
  induction n using Nat.strongRecOn with
  | ind n ih =>
      by_cases small : n < 10
      · rw [Nat.toDigits_of_lt_base small]
        by_cases zero : n = 0
        · exact .inl (by rw [zero]; rfl)
        · refine .inr ⟨n.digitChar, [], rfl, ?_⟩
          have each : ∀ d < 10, d ≠ 0 → Nat.digitChar d ≠ '0' := by decide
          exact each n small zero
      · rw [Nat.toDigits_of_base_le (by decide) (Nat.le_of_not_lt small)]
        rcases ih (n / 10) (by omega) with zero | ⟨c, more, digits, nonzero⟩
        · -- A number of ten or more has a tenth that is not zero.
          have value := Nat.ofDigitChars_ten_toDigits (n := n / 10)
          rw [zero] at value
          have none : n / 10 = 0 := value.symm
          omega
        · exact .inr ⟨c, more ++ [(n % 10).digitChar], by rw [digits]; rfl, nonzero⟩

theorem scanFraction_of_ends {rest : List Char} (ends : EndsNumeral rest) : scanFraction rest = some ([], rest) := by
  unfold scanFraction
  split
  · rename_i more
    exact absurd rfl (ends '.' more rfl).2.1
  · rfl

theorem scanScale_of_ends {rest : List Char} (ends : EndsNumeral rest) : scanScale rest = some (none, rest) := by
  unfold scanScale
  split
  · rename_i more
    exact absurd rfl (ends 'e' more rfl).2.2.1
  · rename_i more
    exact absurd rfl (ends 'E' more rfl).2.2.2
  · rfl

/-- Behind the digits of a number there is neither a point nor an exponent. -/
theorem scanUnsigned_of_span {text whole rest : List Char} (negative : Bool) (span : spanDigits text = (whole, rest))
    (digits : whole ≠ []) (leading : ∀ c more, whole ≠ '0' :: c :: more) (ends : EndsNumeral rest) :
    scanUnsigned negative text = some ({ negative, whole, fraction := [], exponent := none }, rest) := by
  unfold scanUnsigned
  rw [span]
  split
  · rename_i same
    cases same
    exact absurd rfl digits
  · rename_i same
    cases same
    exact absurd rfl (leading _ _)
  · rename_i same
    cases same
    simp only [scanFraction_of_ends ends, scanScale_of_ends ends, Option.bind_eq_bind, Option.bind_some]
    rfl

theorem scanUnsigned_toDigits (negative : Bool) (n : Nat) {rest : List Char} (ends : EndsNumeral rest) :
    scanUnsigned negative (Nat.toDigits 10 n ++ rest) = some ({ ofNat n with negative }, rest) := by
  have digits : ∀ c ∈ Nat.toDigits 10 n, c.isDigit = true := fun c member =>
    Nat.isDigit_of_mem_toDigits (by decide) (by decide) member
  have leading : ∀ c more, Nat.toDigits 10 n ≠ '0' :: c :: more := by
    intro c more same
    rcases toDigits_head n with zero | ⟨first, others, written, nonzero⟩
    · rw [zero] at same
      cases same
    · rw [written] at same
      cases same
      exact nonzero rfl
  exact scanUnsigned_of_span negative (spanDigits_append digits ends) Nat.toDigits_ne_nil leading ends

/-- The digits of a number do not start with a sign. -/
theorem scan_toDigits (n : Nat) (rest : List Char) :
    scan (Nat.toDigits 10 n ++ rest) = scanUnsigned false (Nat.toDigits 10 n ++ rest) := by
  cases written : Nat.toDigits 10 n with
  | nil => exact absurd written Nat.toDigits_ne_nil
  | cons c more =>
      have digit : c.isDigit = true :=
        Nat.isDigit_of_mem_toDigits (by decide) (by decide) (written ▸ List.mem_cons_self)
      rw [List.cons_append]
      unfold scan
      split
      · rename_i same
        cases same
        exact absurd digit (by decide)
      · rfl

theorem scan_ofNat (n : Nat) {rest : List Char} (ends : EndsNumeral rest) :
    scan ((ofNat n).render ++ rest) = some (ofNat n, rest) := by
  have written : (ofNat n).render = Nat.toDigits 10 n := by simp [render, ofNat]
  rw [written, scan_toDigits, scanUnsigned_toDigits false n ends]
  rfl

theorem scan_ofInt (i : Int) {rest : List Char} (ends : EndsNumeral rest) :
    scan ((ofInt i).render ++ rest) = some (ofInt i, rest) := by
  by_cases negative : i < 0
  · have written : (ofInt i).render = '-' :: Nat.toDigits 10 i.natAbs := by simp [render, ofInt, ofNat, negative]
    have signed : ofInt i = { ofNat i.natAbs with negative := true } := by simp [ofInt, negative]
    rw [written, List.cons_append, scan, scanUnsigned_toDigits true i.natAbs ends, signed]
  · have positive : ofInt i = ofNat i.natAbs := by simp [ofInt, ofNat, negative]
    rw [positive, scan_ofNat i.natAbs ends]

theorem integer?_digits (negative : Bool) (n : Nat) : ({ ofNat n with negative } : Numeral).integer? =
    if negative then if n = 0 then none else some (-(n : Int)) else some (n : Int) := by
  simp only [integer?, ofNat, List.isEmpty_nil, and_self, if_true, Nat.ofDigitChars_ten_toDigits]

theorem integer?_ofNat (n : Nat) : (ofNat n).integer? = some (n : Int) :=
  integer?_digits false n

theorem integer?_ofInt (i : Int) : (ofInt i).integer? = some i := by
  rw [ofInt, integer?_digits]
  by_cases negative : i < 0
  · have nonzero : i.natAbs ≠ 0 := by omega
    have value : -(i.natAbs : Int) = i := by omega
    rw [if_pos (decide_eq_true negative), if_neg nonzero, value]
  · have value : (i.natAbs : Int) = i := by omega
    rw [if_neg (by simpa using negative), value]

end Numeral

theorem hexDigit?_hexChar {digit : Nat} (small : digit < 16) : hexDigit? (hexChar digit) = some digit := by
  have each : ∀ d < 16, hexDigit? (hexChar d) = some d := by decide
  exact each digit small

/-- A control character is read back from its four hexadecimal digits. -/
theorem codeUnit?_control {c : Char} (control : c.toNat < 32) (rest : List Char) :
    codeUnit? ('0' :: '0' :: hexChar (c.toNat / 16) :: hexChar (c.toNat % 16) :: rest) = some (c.toNat, rest) := by
  have zero : hexDigit? '0' = some 0 := by decide
  have high : hexDigit? (hexChar (c.toNat / 16)) = some (c.toNat / 16) := hexDigit?_hexChar (by omega)
  have low : hexDigit? (hexChar (c.toNat % 16)) = some (c.toNat % 16) := hexDigit?_hexChar (by omega)
  have value : ((0 * 16 + 0) * 16 + c.toNat / 16) * 16 + c.toNat % 16 = c.toNat := by omega
  simp only [codeUnit?, zero, high, low, Option.bind_eq_bind, Option.bind_some, value]
  rfl

theorem scanString_plain {c : Char} (fuel : Nat) (collected : Collected) (rest : List Char)
    (quote : c ≠ '"') (backslash : c ≠ '\\') (visible : ¬ c < ' ') :
    scanString (fuel + 1) collected (c :: rest) = scanString fuel (collected.push c) rest := by
  have admitted : ¬ (c = '\\' ∨ c < ' ') := by
    rintro (same | below)
    · exact backslash same
    · exact visible below
  rw [scanString.eq_def]
  split
  · contradiction
  · rename_i same
    cases same
  · rename_i same
    cases same
    exact absurd rfl quote
  · rename_i same
    cases same
    exact absurd rfl backslash
  · rename_i same
    cases same
    exact absurd rfl backslash
  · rename_i counted same
    cases counted
    cases same
    rw [if_neg admitted]

theorem scanString_short {mark c : Char} (fuel : Nat) (collected : Collected) (rest : List Char)
    (unit : mark ≠ 'u') (escape : shortEscape? mark = some c) :
    scanString (fuel + 1) collected ('\\' :: mark :: rest) = scanString fuel (collected.push c) rest := by
  rw [scanString.eq_def]
  split
  · contradiction
  · rename_i same
    cases same
  · rename_i same
    cases same
  · rename_i same
    cases same
    exact absurd rfl unit
  · rename_i counted same
    cases counted
    cases same
    rw [escape]
  · rename_i other _ same
    cases same
    exact absurd rfl (other _ _ rfl)

/-- Each character is read back from what it is written as, in one step. -/
theorem scanString_escapeChar (c : Char) (fuel : Nat) (collected : Collected) (rest : List Char) :
    scanString (fuel + 1) collected (escapeChar c ++ rest) = scanString fuel (collected.push c) rest := by
  unfold escapeChar
  split
  next same =>
    subst same
    exact scanString_short fuel collected rest (by decide) rfl
  next quote =>
  split
  next same =>
    subst same
    exact scanString_short fuel collected rest (by decide) rfl
  next backslash =>
  split
  next same =>
    subst same
    exact scanString_short fuel collected rest (by decide) rfl
  next =>
  split
  next same =>
    subst same
    exact scanString_short fuel collected rest (by decide) rfl
  next =>
  split
  next same =>
    subst same
    exact scanString_short fuel collected rest (by decide) rfl
  next =>
  split
  next same =>
    subst same
    exact scanString_short fuel collected rest (by decide) rfl
  next =>
  split
  next same =>
    subst same
    exact scanString_short fuel collected rest (by decide) rfl
  next =>
  split
  next control =>
    have small : c.toNat < 32 := control
    have whole : isHighSurrogate c.toNat = false ∧ isLowSurrogate c.toNat = false := by
      simp only [isHighSurrogate, isLowSurrogate, Bool.and_eq_false_iff, decide_eq_false_iff_not]
      omega
    simp only [List.cons_append, List.nil_append, scanString]
    rw [codeUnit?_control small]
    simp [whole.1, whole.2, Char.ofNat_toNat]
  next visible => exact scanString_plain fuel collected rest quote backslash visible

theorem scanString_quoted (chars : List Char) (fuel : Nat) (before rest : List Char) (enough : chars.length < fuel) :
    scanString fuel (some before) (chars.flatMap escapeChar ++ '"' :: rest) =
      some (some (String.ofList (before.reverse ++ chars)), rest) := by
  induction chars generalizing fuel before with
  | nil =>
      obtain ⟨fuel, rfl⟩ := Nat.exists_eq_add_one_of_ne_zero (Nat.ne_of_gt enough)
      simp [scanString]
  | cons c chars ih =>
      obtain ⟨fuel, rfl⟩ := Nat.exists_eq_add_one_of_ne_zero (Nat.ne_of_gt (Nat.zero_lt_of_lt enough))
      have fewer : chars.length < fuel := by simpa using enough
      rw [List.flatMap_cons, List.append_assoc, scanString_escapeChar]
      simpa [Collected.push] using ih fuel (c :: before) fewer

theorem length_le_flatMap_escapeChar (chars : List Char) : chars.length ≤ (chars.flatMap escapeChar).length := by
  have nonempty (c : Char) : 1 ≤ (escapeChar c).length := by
    unfold escapeChar
    repeat' split
    all_goals simp
  induction chars with
  | nil => exact Nat.le_refl 0
  | cons c chars ih =>
      have one := nonempty c
      simp only [List.flatMap_cons, List.length_append, List.length_cons]
      omega

/-- A quoted text, behind its opening quote. -/
theorem scanText_quote (text : String) (rest : List Char) :
    scanText (text.toList.flatMap escapeChar ++ '"' :: rest) = some (some text, rest) := by
  have enough := length_le_flatMap_escapeChar text.toList
  rw [scanText, scanString_quoted text.toList _ [] rest (by simp only [List.length_append, List.length_cons]; omega)]
  simp

theorem skipBlanks_append {blanks : List Char} (blank : ∀ c ∈ blanks, isBlank c = true) (text : List Char) :
    skipBlanks (blanks ++ text) = skipBlanks text :=
  List.dropWhile_append_of_pos blank

theorem skipBlanks_cons {c : Char} (visible : isBlank c = false) (text : List Char) :
    skipBlanks (c :: text) = c :: text := by
  simp [skipBlanks, visible]

theorem newline_blank (level : Nat) : ∀ c ∈ newline level, isBlank c = true := by
  intro c member
  rcases List.mem_cons.mp member with rfl | member
  · rfl
  · rw [List.eq_of_mem_replicate member]
    rfl

theorem skipBlanks_newline (level : Nat) (text : List Char) : skipBlanks (newline level ++ text) = skipBlanks text :=
  skipBlanks_append (newline_blank level) text

/-- Documents that are written so that they can be read back: numbers are integers, and all strings have a text. -/
inductive Legible : Json → Prop where
  | null : Legible .null
  | bool (value : Bool) : Legible (.bool value)
  | integer (i : Int) : Legible (.number (.ofInt i))
  | text (s : String) : Legible (.text s)
  | array {items : List Json} (legible : ∀ item ∈ items, Legible item) : Legible (.array items)
  | record {fields : List (String × Json)} (legible : ∀ field ∈ fields, Legible field.2) : Legible (.record fields)

section

variable (level : Nat)

theorem prettyAt_null : prettyAt level .null = ['n', 'u', 'l', 'l'] := rfl

theorem prettyAt_bool (value : Bool) :
    prettyAt level (.bool value) = if value then ['t', 'r', 'u', 'e'] else ['f', 'a', 'l', 's', 'e'] := by
  cases value <;> rfl

theorem prettyAt_number (numeral : Numeral) : prettyAt level (.number numeral) = numeral.render := rfl

theorem prettyAt_text (s : String) : prettyAt level (.text s) = quote s := rfl

theorem prettyAt_array_nil : prettyAt level (.array []) = ['[', ']'] := rfl

theorem prettyAt_array_cons (item : Json) (items : List Json) : prettyAt level (.array (item :: items)) =
    '[' :: newline (level + 1) ++ prettyAt (level + 1) item ++ prettyItems (level + 1) items ++ newline level ++ [']'] :=
  rfl

theorem prettyItems_nil : prettyItems level [] = [] := rfl

theorem prettyItems_cons (item : Json) (items : List Json) :
    prettyItems level (item :: items) = ',' :: newline level ++ prettyAt level item ++ prettyItems level items := rfl

theorem prettyAt_object_nil : prettyAt level (.object []) = ['\x7b', '\x7d'] := rfl

theorem prettyAt_object_cons (name : String) (value : Json) (fields : List (Option String × Json)) :
    prettyAt level (.object ((some name, value) :: fields)) =
      '\x7b' :: newline (level + 1) ++ quote name ++ [':', ' '] ++ prettyAt (level + 1) value ++
        prettyFields (level + 1) fields ++ newline level ++ ['\x7d'] :=
  rfl

theorem prettyFields_nil : prettyFields level [] = [] := rfl

theorem prettyFields_cons (name : String) (value : Json) (fields : List (Option String × Json)) :
    prettyFields level ((some name, value) :: fields) =
      ',' :: newline level ++ quote name ++ [':', ' '] ++ prettyAt level value ++ prettyFields level fields :=
  rfl

end

/-- A document is read back from its text at any level, behind any blanks and before any rest that does not
go on with a number. There is fuel for it if there is as much as it has characters. -/
def Scanned (document : Json) : Prop :=
  ∀ (level fuel : Nat) (blanks rest : List Char), (∀ c ∈ blanks, isBlank c = true) → EndsNumeral rest →
    (prettyAt level document).length ≤ fuel →
    scanValue fuel (blanks ++ (prettyAt level document ++ rest)) = some (document, rest)

theorem scanValue_blanks {blanks : List Char} (blank : ∀ c ∈ blanks, isBlank c = true) (fuel : Nat)
    (text : List Char) : scanValue fuel (blanks ++ text) = scanValue fuel text := by
  cases fuel with
  | zero => rw [scanValue, scanValue]
  | succ fuel => rw [scanValue, scanValue, skipBlanks_append blank]

theorem Scanned.intro {document : Json} (written : ∀ level, 0 < (prettyAt level document).length)
    (scanned : ∀ (level fuel : Nat) (rest : List Char), EndsNumeral rest →
      (prettyAt level document).length ≤ fuel + 1 →
      scanValue (fuel + 1) (prettyAt level document ++ rest) = some (document, rest)) : Scanned document := by
  intro level fuel blanks rest blank ends enough
  rw [scanValue_blanks blank]
  cases fuel with
  | zero =>
      have positive := written level
      omega
  | succ fuel => exact scanned level fuel rest ends enough

theorem scanned_null : Scanned .null := by
  refine .intro (fun _ => by simp [prettyAt_null]) ?_
  intro level fuel rest _ _
  rfl

theorem scanned_bool (value : Bool) : Scanned (.bool value) := by
  refine .intro (fun _ => by cases value <;> simp [prettyAt_bool]) ?_
  intro level fuel rest _ _
  cases value <;> rfl

/-- What starts with a sign or a digit is read as a number. -/
theorem scanValue_numeral {fuel : Nat} {c : Char} {more : List Char} (numeral : c = '-' ∨ c.isDigit = true) :
    scanValue (fuel + 1) (c :: more) =
      (Numeral.scan (c :: more)).map fun (numeral, after) => (.number numeral, after) := by
  have stays : skipBlanks (c :: more) = c :: more := by
    have visible : isBlank c = false := by
      rcases numeral with rfl | digit
      · rfl
      · cases blank : isBlank c with
        | false => rfl
        | true =>
            simp only [isBlank, Bool.or_eq_true, beq_iff_eq] at blank
            rcases blank with ((rfl | rfl) | rfl) | rfl <;> cases digit
    rw [skipBlanks, List.dropWhile_cons, visible]
    rfl
  have other {d : Char} (same : c = d) (sign : d ≠ '-') (digit : d.isDigit = false) : False := by
    subst same
    rcases numeral with rfl | holds
    · exact sign rfl
    · rw [digit] at holds
      cases holds
  rw [scanValue, stays]
  split
  case h_7 => rfl
  all_goals
    rename_i same
    exact (other (List.cons.inj same).1 (by decide) (by decide)).elim

theorem Numeral.render_ofInt (i : Int) :
    ∃ c more, (Numeral.ofInt i).render = c :: more ∧ (c = '-' ∨ c.isDigit = true) := by
  by_cases negative : i < 0
  · exact ⟨'-', Nat.toDigits 10 i.natAbs, by simp [render, ofInt, ofNat, negative], .inl rfl⟩
  · have written : (ofInt i).render = Nat.toDigits 10 i.natAbs := by simp [render, ofInt, ofNat, negative]
    cases digits : Nat.toDigits 10 i.natAbs with
    | nil => exact absurd digits Nat.toDigits_ne_nil
    | cons c more =>
        refine ⟨c, more, written.trans digits, .inr ?_⟩
        exact Nat.isDigit_of_mem_toDigits (by decide) (by decide) (digits ▸ List.mem_cons_self)

theorem scanned_integer (i : Int) : Scanned (.number (.ofInt i)) := by
  obtain ⟨c, more, written, numeral⟩ := Numeral.render_ofInt i
  refine .intro (fun _ => by simp [prettyAt_number, written]) ?_
  intro level fuel rest ends _
  have scanned := Numeral.scan_ofInt i ends
  rw [written, List.cons_append] at scanned
  rw [prettyAt_number, written, List.cons_append, scanValue_numeral numeral, scanned]
  rfl

theorem scanned_text (s : String) : Scanned (.text s) := by
  refine .intro (fun _ => by simp [prettyAt_text, quote]) ?_
  intro level fuel rest _ _
  have written : prettyAt level (.text s) ++ rest = '"' :: (s.toList.flatMap escapeChar ++ '"' :: rest) := by
    simp [prettyAt_text, quote]
  rw [written]
  change (scanText _).map _ = _
  rw [scanText_quote]
  rfl

/-- The items of an array, behind its opening bracket and the items `before`. -/
theorem scanItems_pretty {item : Json} {items : List Json} (first : Scanned item)
    (others : ∀ other ∈ items, Scanned other) (level outer fuel : Nat) (blanks rest : List Char) (before : List Json)
    (blank : ∀ c ∈ blanks, isBlank c = true)
    (enough : (prettyAt level item).length + (prettyItems level items).length < fuel) :
    scanItems fuel before (blanks ++ (prettyAt level item ++ (prettyItems level items ++ (newline outer ++ ']' :: rest)))) =
      some (.array (before.reverse ++ item :: items), rest) := by
  -- By induction on the items that follow. Each item costs one unit of fuel and has at least one character.
  induction items generalizing item fuel blanks before with
  | nil =>
      cases fuel with
      | zero => omega
      | succ fuel =>
          have ends : EndsNumeral (newline outer ++ ']' :: rest) := endsNumeral_cons _ (.inl rfl)
          have scanned := first level fuel blanks _ blank ends (by omega)
          rw [scanItems, prettyItems_nil, List.nil_append, scanned]
          dsimp only
          rw [skipBlanks_newline]
          simp [skipBlanks, isBlank]
  | cons next items ih =>
      cases fuel with
      | zero => omega
      | succ fuel =>
          have written : prettyItems level (next :: items) ++ (newline outer ++ ']' :: rest) =
              ',' :: (newline level ++
                (prettyAt level next ++ (prettyItems level items ++ (newline outer ++ ']' :: rest)))) := by
            simp [prettyItems_cons]
          have longer : (prettyItems level (next :: items)).length =
              1 + (newline level).length + (prettyAt level next).length + (prettyItems level items).length := by
            simp [prettyItems_cons]
            omega
          have ends : EndsNumeral (prettyItems level (next :: items) ++ (newline outer ++ ']' :: rest)) :=
            written ▸ endsNumeral_cons _ (.inr rfl)
          have scanned := first level fuel blanks _ blank ends (by omega)
          have onward := ih (others next List.mem_cons_self)
            (fun other member => others other (List.mem_cons_of_mem _ member)) fuel (newline level) (item :: before)
            (newline_blank level) (by omega)
          rw [scanItems, scanned, written]
          change scanItems fuel (item :: before) _ = _
          rw [onward]
          simp

theorem scanValue_items {fuel : Nat} {text : List Char} (opens : ∀ after, skipBlanks text ≠ ']' :: after) :
    scanValue (fuel + 1) ('[' :: text) = scanItems fuel [] text := by
  conv => lhs; whnf
  split
  · rename_i after closes
    exact absurd closes (opens after)
  · rfl

theorem scanValue_fields {fuel : Nat} {text : List Char} (opens : ∀ after, skipBlanks text ≠ '\x7d' :: after) :
    scanValue (fuel + 1) ('\x7b' :: text) = scanFields fuel [] text := by
  conv => lhs; whnf
  split
  · rename_i after closes
    exact absurd closes (opens after)
  · rfl

/-- A closing bracket is no value. -/
theorem scanValue_bracket {text after : List Char} (fuel : Nat) (closes : skipBlanks text = ']' :: after) :
    scanValue fuel text = none := by
  cases fuel with
  | zero => rw [scanValue]
  | succ fuel =>
      rw [scanValue, closes]
      rfl

theorem scanned_array {items : List Json} (scanned : ∀ item ∈ items, Scanned item) : Scanned (.array items) := by
  cases items with
  | nil =>
      refine .intro (fun _ => by simp [prettyAt_array_nil]) ?_
      intro level fuel rest _ _
      rfl
  | cons item items =>
      refine .intro (fun _ => by simp [prettyAt_array_cons]) ?_
      intro level fuel rest _ enough
      have written : prettyAt level (.array (item :: items)) ++ rest =
          '[' :: (newline (level + 1) ++ (prettyAt (level + 1) item ++
            (prettyItems (level + 1) items ++ (newline level ++ ']' :: rest)))) := by
        simp [prettyAt_array_cons]
      have longer : (prettyAt level (.array (item :: items))).length =
          2 + (newline (level + 1)).length + (prettyAt (level + 1) item).length +
            (prettyItems (level + 1) items).length + (newline level).length := by
        simp [prettyAt_array_cons]
        omega
      have inner := scanItems_pretty (scanned item List.mem_cons_self)
        (fun other member => scanned other (List.mem_cons_of_mem _ member)) (level + 1) level fuel
        (newline (level + 1)) rest [] (newline_blank (level + 1)) (by omega)
      rw [written, scanValue_items, inner]
      · rfl
      · -- An array that has items does not close at once.
        intro after closes
        cases fuel with
        | zero => rw [scanItems] at inner; cases inner
        | succ fuel =>
            rw [scanItems, scanValue_bracket fuel closes] at inner
            cases inner

section

variable {name : String} {value : Json} {fuel : Nat} {blanks text rest after : List Char}

theorem quote_append (name : String) (text : List Char) :
    quote name ++ text = '"' :: (name.toList.flatMap escapeChar ++ '"' :: text) := by
  simp [quote]

theorem scanFields_comma (before : List (Option String × Json)) (blank : ∀ c ∈ blanks, isBlank c = true)
    (scanned : scanValue fuel text = some (value, rest)) (comma : skipBlanks rest = ',' :: after) :
    scanFields (fuel + 1) before (blanks ++ (quote name ++ ':' :: text)) =
      scanFields fuel ((some name, value) :: before) after := by
  have opens := skipBlanks_cons (show isBlank '"' = false from rfl)
  have colon := skipBlanks_cons (show isBlank ':' = false from rfl) text
  simp only [scanFields, skipBlanks_append blank, quote_append, opens, scanText_quote, colon, scanned, comma]

theorem scanFields_brace (before : List (Option String × Json)) (blank : ∀ c ∈ blanks, isBlank c = true)
    (scanned : scanValue fuel text = some (value, rest)) (brace : skipBlanks rest = '\x7d' :: after) :
    scanFields (fuel + 1) before (blanks ++ (quote name ++ ':' :: text)) =
      some (.object (before.reverse ++ [(some name, value)]), after) := by
  have opens := skipBlanks_cons (show isBlank '"' = false from rfl)
  have colon := skipBlanks_cons (show isBlank ':' = false from rfl) text
  simp only [scanFields, skipBlanks_append blank, quote_append, opens, scanText_quote, colon, scanned, brace,
    List.reverse_cons]

end

theorem scanFields_pretty (name : String) {value : Json} {fields : List (String × Json)} (first : Scanned value)
    (others : ∀ field ∈ fields, Scanned field.2) (level outer fuel : Nat) (blanks rest : List Char)
    (before : List (Option String × Json)) (blank : ∀ c ∈ blanks, isBlank c = true)
    (enough : (prettyAt level value).length +
      (prettyFields level (fields.map fun (name, value) => (some name, value))).length < fuel) :
    scanFields fuel before (blanks ++ (quote name ++ (':' :: ' ' :: (prettyAt level value ++
      (prettyFields level (fields.map fun (name, value) => (some name, value)) ++ (newline outer ++ '\x7d' :: rest)))))) =
      some (.object (before.reverse ++ (some name, value) :: fields.map fun (name, value) => (some name, value)),
        rest) := by
  have spaced : ∀ c ∈ [' '], isBlank c = true := by
    intro c member
    rw [List.mem_singleton.mp member]
    rfl
  induction fields generalizing name value fuel blanks before with
  | nil =>
      cases fuel with
      | zero => omega
      | succ fuel =>
          have ends : EndsNumeral (newline outer ++ '\x7d' :: rest) := endsNumeral_cons _ (.inl rfl)
          have scanned : scanValue fuel (' ' :: (prettyAt level value ++ (newline outer ++ '\x7d' :: rest))) = _ :=
            first level fuel [' '] _ spaced ends (by simpa [prettyFields_nil] using Nat.le_of_lt_succ enough)
          have brace : skipBlanks (newline outer ++ '\x7d' :: rest) = '\x7d' :: rest := by
            rw [skipBlanks_newline, skipBlanks_cons rfl]
          rw [List.map_nil, prettyFields_nil, List.nil_append, scanFields_brace before blank scanned brace]
  | cons field fields ih =>
      obtain ⟨next, content⟩ := field
      cases fuel with
      | zero => omega
      | succ fuel =>
          have written : prettyFields level (((next, content) :: fields).map fun (name, value) => (some name, value)) ++
              (newline outer ++ '\x7d' :: rest) =
              ',' :: (newline level ++ (quote next ++ (':' :: ' ' :: (prettyAt level content ++
                (prettyFields level (fields.map fun (name, value) => (some name, value)) ++
                  (newline outer ++ '\x7d' :: rest)))))) := by
            simp [prettyFields_cons]
          have longer : (prettyAt level content).length +
              (prettyFields level (fields.map fun (name, value) => (some name, value))).length <
              (prettyFields level (((next, content) :: fields).map fun (name, value) => (some name, value))).length := by
            simp [prettyFields_cons]
            omega
          have ends := endsNumeral_cons (newline level ++ (quote next ++ (':' :: ' ' :: (prettyAt level content ++
            (prettyFields level (fields.map fun (name, value) => (some name, value)) ++
              (newline outer ++ '\x7d' :: rest)))))) (.inr rfl)
          have scanned : scanValue fuel (' ' :: (prettyAt level value ++ _)) = _ :=
            first level fuel [' '] _ spaced ends (by omega)
          have given : Scanned content := others (next, content) List.mem_cons_self
          have onward := ih next given
            (fun other member => others other (List.mem_cons_of_mem _ member)) fuel (newline level)
            ((some name, value) :: before) (newline_blank level) (by omega)
          rw [written, scanFields_comma before blank scanned (skipBlanks_cons rfl _), onward]
          simp

theorem scanned_record {fields : List (String × Json)} (scanned : ∀ field ∈ fields, Scanned field.2) :
    Scanned (.record fields) := by
  cases fields with
  | nil =>
      refine .intro (fun _ => by simp [record, prettyAt_object_nil]) ?_
      intro level fuel rest _ _
      rfl
  | cons field fields =>
      obtain ⟨name, value⟩ := field
      refine .intro (fun _ => by simp [record, prettyAt_object_cons]) ?_
      intro level fuel rest _ enough
      have written : prettyAt level (.record ((name, value) :: fields)) ++ rest =
          '\x7b' :: (newline (level + 1) ++ (quote name ++ (':' :: ' ' :: (prettyAt (level + 1) value ++
            (prettyFields (level + 1) (fields.map fun (name, value) => (some name, value)) ++
              (newline level ++ '\x7d' :: rest)))))) := by
        simp [record, prettyAt_object_cons]
      have longer : (prettyAt (level + 1) value).length +
          (prettyFields (level + 1) (fields.map fun (name, value) => (some name, value))).length + 1 <
          (prettyAt level (.record ((name, value) :: fields))).length := by
        simp [record, prettyAt_object_cons]
        omega
      have given : Scanned value := scanned (name, value) List.mem_cons_self
      have inner := scanFields_pretty name given
        (fun other member => scanned other (List.mem_cons_of_mem _ member)) (level + 1) level fuel
        (newline (level + 1)) rest [] (newline_blank (level + 1)) (by omega)
      rw [written, scanValue_fields, inner]
      · rfl
      · intro after closes
        rw [skipBlanks_newline, quote_append, skipBlanks_cons rfl] at closes
        cases closes

theorem Legible.scanned {document : Json} (legible : Legible document) : Scanned document := by
  induction legible with
  | null => exact scanned_null
  | bool value => exact scanned_bool value
  | integer i => exact scanned_integer i
  | text s => exact scanned_text s
  | array _ ih => exact scanned_array ih
  | record _ ih => exact scanned_record ih

/-- A document is read back from its text. -/
theorem Legible.parse?_pretty {document : Json} (legible : Legible document) : parse? document.pretty = some document := by
  have scanned := legible.scanned 0 (2 * (prettyAt 0 document).length + 2) [] [] nofun endsNumeral_nil (by omega)
  rw [List.nil_append, List.append_nil] at scanned
  rw [parse?, pretty, String.toList_ofList]
  rw [scanned]
  rfl

end BlockVM.Json
