import Mathlib.Data.Nat.Digits.Lemmas
import Mathlib.Tactic.NormNum
import Mathlib.Tactic.Ring
import BlockVM.CommandLine

namespace BlockVM

/-! The grammar of the command line. Its arguments are the tokens of items: switches, limits with their
numbers, and files. They are understood if they can be divided into items of which just one is a file, and
then only the order of the limits of one kind matters. -/

namespace Size

/-- The number that decimal digits stand for. -/
def decimal (digits : List Char) : Nat :=
  Nat.ofDigits 10 (digits.map fun c => c.toNat - '0'.toNat).reverse

/-- Decimal digits, after a plus sign or not, of a number below `2 ^ 64`. -/
structure Numeral (text : List Char) (number : Nat) : Prop where
  spelled : ∃ digits, (text = digits ∨ text = '+' :: digits) ∧ digits ≠ [] ∧
    (∀ c ∈ digits, c.isDigit = true) ∧ number = decimal digits
  fits : number < 2 ^ 64

theorem ofDigitChars_eq_decimal (digits : List Char) : Nat.ofDigitChars 10 digits 0 = decimal digits := by
  induction digits with
  | nil => rfl
  | cons c digits ih =>
      rw [Nat.ofDigitChars_cons, Nat.ofDigitChars_eq_ofDigitChars_zero, ih]
      simp only [decimal, List.map_cons, List.reverse_cons, Nat.ofDigits_append, Nat.ofDigits_singleton,
        List.length_reverse, List.length_map]
      ring

/-- What is read of the digits behind the sign. -/
def unsigned? (digits : List Char) : Option Nat :=
  if digits ≠ [] ∧ digits.all Char.isDigit ∧ decimal digits < 2 ^ 64 then some (decimal digits) else none

theorem read?_signed (digits : List Char) : read? ('+' :: digits) = unsigned? digits := by
  simp only [read?, unsigned?, ofDigitChars_eq_decimal]
  split
  · rename_i wellFormed
    by_cases fits : decimal digits ≤ greatest
    · rw [if_pos fits, if_pos ⟨wellFormed.1, wellFormed.2, Nat.lt_succ_of_le fits⟩]
    · rw [if_neg fits, if_neg fun all => fits (Nat.le_of_lt_succ all.2.2)]
  · rename_i malformed
    rw [if_neg fun all => malformed ⟨all.1, all.2.1⟩]

theorem read?_plain {text : List Char} (plain : ∀ digits, text ≠ '+' :: digits) : read? text = unsigned? text := by
  rw [← read?_signed]
  cases text with
  | nil => rfl
  | cons c rest =>
      have other : c ≠ '+' := fun same => plain rest (by rw [same])
      simp [read?]

theorem unsigned?_eq_some_iff {digits : List Char} {number : Nat} :
    unsigned? digits = some number ↔
      digits ≠ [] ∧ (∀ c ∈ digits, c.isDigit = true) ∧ number = decimal digits ∧ number < 2 ^ 64 := by
  rw [unsigned?, Option.ite_none_right_eq_some, List.all_eq_true, Option.some.injEq]
  constructor
  · rintro ⟨⟨nonempty, digital, fits⟩, rfl⟩
    exact ⟨nonempty, digital, rfl, fits⟩
  · rintro ⟨nonempty, digital, rfl, fits⟩
    exact ⟨⟨nonempty, digital, fits⟩, rfl⟩

theorem read?_eq_some_iff {text : List Char} {number : Nat} : read? text = some number ↔ Numeral text number := by
  constructor
  · intro found
    by_cases signed : ∃ digits, text = '+' :: digits
    · obtain ⟨digits, rfl⟩ := signed
      obtain ⟨nonempty, digital, value, fits⟩ := unsigned?_eq_some_iff.mp (read?_signed digits ▸ found)
      exact ⟨⟨digits, .inr rfl, nonempty, digital, value⟩, fits⟩
    · rw [read?_plain (not_exists.mp signed)] at found
      obtain ⟨nonempty, digital, value, fits⟩ := unsigned?_eq_some_iff.mp found
      exact ⟨⟨text, .inl rfl, nonempty, digital, value⟩, fits⟩
  · rintro ⟨⟨digits, rfl | rfl, nonempty, digital, value⟩, fits⟩
    · have plain : ∀ rest, text ≠ '+' :: rest := by
        rintro rest rfl
        exact absurd (digital '+' List.mem_cons_self) (by decide)
      rw [read?_plain plain]
      exact unsigned?_eq_some_iff.mpr ⟨nonempty, digital, value, fits⟩
    · rw [read?_signed]
      exact unsigned?_eq_some_iff.mpr ⟨nonempty, digital, value, fits⟩

theorem Numeral.unique {text : List Char} {number other : Nat} (first : Numeral text number)
    (second : Numeral text other) : number = other :=
  Option.some.inj ((read?_eq_some_iff.mpr first).symm.trans (read?_eq_some_iff.mpr second))

end Size

namespace LimitOption

def flag : LimitOption → String
  | .operations => "--max-ops"
  | .depth => "--max-depth"
  | .resultBytes => "--max-result-bytes"
  | .timeout => "--timeout-ms"

theorem ofFlag?_flag (option : LimitOption) : ofFlag? option.flag = some option := by
  cases option <;> rfl

theorem eq_flag_of_ofFlag? {token : String} {option : LimitOption} (found : ofFlag? token = some option) :
    token = option.flag := by
  unfold ofFlag? at found
  split at found <;> cases found <;> rfl

end LimitOption

namespace Invocation

/-- What is either asked for or not. -/
inductive Switch where
  | listing
  | trace
  | profile
deriving DecidableEq

def Switch.token : Switch → String
  | .listing => "--dis"
  | .trace => "--trace"
  | .profile => "--profile"

/-- What the arguments are divided into. -/
inductive Item where
  | switch (kind : Switch)
  | limit (option : LimitOption) (value : String) (number : Nat) (numeral : Size.Numeral value.toList number)
  | file (path : String) (plain : ¬ "--".toList <+: path.toList)
deriving DecidableEq

namespace Item

def tokens : Item → List String
  | .switch kind => [kind.token]
  | .limit option value _ _ => [option.flag, value]
  | .file path _ => [path]

/-- The arguments that items make up. -/
def spell (items : List Item) : List String :=
  items.flatMap tokens

def file? : Item → Option String
  | .file path _ => some path
  | _ => none

/-- The number to which an item sets a limit. -/
def number? (option : LimitOption) : Item → Option Nat
  | .limit other _ number _ => if other = option then some number else none
  | _ => none

def sets (option : LimitOption) (item : Item) : Bool :=
  (item.number? option).isSome

/-- The number of the last item that sets the limit. -/
def last? (items : List Item) (option : LimitOption) : Option Nat :=
  (items.filterMap (number? option)).getLast?

def limits (items : List Item) : Limits where
  maxOperations := last? items .operations
  maxRecursionDepth := last? items .depth
  maxResultBytes := last? items .resultBytes
  maxDuration := (last? items .timeout).map .ofMilliseconds

end Item

def switched (invocation : Invocation) : Switch → Bool
  | .listing => invocation.listing
  | .trace => invocation.trace
  | .profile => invocation.profile

/-- The one file is the path, a switch is on if it occurs, and of the limits of one kind the last one
holds. -/
structure Item.Mean (items : List Item) (invocation : Invocation) : Prop where
  path : items.filterMap file? = [invocation.path]
  switches : ∀ kind, invocation.switched kind = true ↔ .switch kind ∈ items
  limits : invocation.limits = Item.limits items

namespace Item

theorem spell_cons (item : Item) (items : List Item) : spell (item :: items) = item.tokens ++ spell items :=
  rfl

theorem token_dashed (kind : Switch) : "--".toList <+: kind.token.toList := by
  cases kind <;> decide

theorem flag_dashed (option : LimitOption) : "--".toList <+: option.flag.toList := by
  cases option <;> decide

theorem token_ne_flag (kind : Switch) (option : LimitOption) : kind.token ≠ option.flag := by
  cases kind <;> cases option <;> decide

theorem token_injective {kind other : Switch} (same : kind.token = other.token) : kind = other := by
  cases kind <;> cases other <;> first | rfl | exact absurd same (by decide)

theorem flag_injective {option other : LimitOption} (same : option.flag = other.flag) : option = other :=
  Option.some.inj ((LimitOption.ofFlag?_flag option).symm.trans (same ▸ LimitOption.ofFlag?_flag other))

theorem eq_of_tokens_append {item other : Item} {rest more : List String}
    (same : item.tokens ++ rest = other.tokens ++ more) : item = other ∧ rest = more := by
  cases item with
  | switch kind =>
      cases other with
      | switch kind' =>
          obtain ⟨first, others⟩ := List.cons.inj same
          exact ⟨by rw [token_injective first], others⟩
      | limit option => exact absurd (List.cons.inj same).1 (token_ne_flag kind option)
      | file path plain => exact absurd ((List.cons.inj same).1 ▸ token_dashed kind) plain
  | limit option value number numeral =>
      cases other with
      | switch kind => exact absurd (List.cons.inj same).1.symm (token_ne_flag kind option)
      | limit option' value' number' numeral' =>
          obtain ⟨first, others⟩ := List.cons.inj same
          obtain ⟨rfl, remainder⟩ := List.cons.inj others
          obtain rfl := flag_injective first
          obtain rfl := numeral.unique numeral'
          exact ⟨rfl, remainder⟩
      | file path plain => exact absurd ((List.cons.inj same).1 ▸ flag_dashed option) plain
  | file path plain =>
      cases other with
      | switch kind => exact absurd ((List.cons.inj same).1 ▸ token_dashed kind) plain
      | limit option => exact absurd ((List.cons.inj same).1 ▸ flag_dashed option) plain
      | file path' plain' =>
          obtain ⟨rfl, others⟩ := List.cons.inj same
          exact ⟨rfl, others⟩

theorem tokens_ne_nil (item : Item) : item.tokens ≠ [] := by
  cases item <;> simp [tokens]

/-- Arguments can be divided in one way only. -/
theorem spell_injective {items others : List Item} (same : spell items = spell others) : items = others := by
  induction items generalizing others with
  | nil =>
      cases others with
      | nil => rfl
      | cons other others => exact absurd (List.append_eq_nil_iff.mp same.symm).1 other.tokens_ne_nil
  | cons item items ih =>
      cases others with
      | nil => exact absurd (List.append_eq_nil_iff.mp same).1 item.tokens_ne_nil
      | cons other others =>
          obtain ⟨rfl, rest⟩ := eq_of_tokens_append same
          rw [ih rest]

end Item

namespace Draft

variable {draft : Draft} {earlier : List Item}

def switched (draft : Draft) : Switch → Bool
  | .listing => draft.listing
  | .trace => draft.trace
  | .profile => draft.profile

def turnOn (draft : Draft) : Switch → Draft
  | .listing => { draft with listing := true }
  | .trace => { draft with trace := true }
  | .profile => { draft with profile := true }

theorem switched_turnOn (draft : Draft) (kind other : Switch) :
    (draft.turnOn kind).switched other = (draft.switched other || decide (other = kind)) := by
  cases kind <;> cases other <;> simp [turnOn, switched]

/-- The draft is what the items before have led to. -/
structure Holds (items : List Item) (draft : Draft) : Prop where
  path : items.filterMap Item.file? = draft.path.toList
  switches : ∀ kind, draft.switched kind = true ↔ .switch kind ∈ items
  limits : draft.limits = Item.limits items

theorem holds_nil : Holds [] {} where
  path := rfl
  switches kind := by cases kind <;> simp [switched]
  limits := rfl

theorem Holds.switch (holds : Holds earlier draft) (kind : Switch) :
    Holds (earlier ++ [.switch kind]) (draft.turnOn kind) where
  path := by
    have same : (draft.turnOn kind).path = draft.path := by cases kind <;> rfl
    simp [holds.path, same, Item.file?]
  switches other := by simp [switched_turnOn, holds.switches other]
  limits := by
    have same : (draft.turnOn kind).limits = draft.limits := by cases kind <;> rfl
    simp [same, holds.limits, Item.limits, Item.last?, Item.number?]

theorem limits_append_limit (items : List Item) (option : LimitOption) (value : String) (number : Nat)
    (numeral : Size.Numeral value.toList number) :
    Item.limits (items ++ [.limit option value number numeral]) = option.apply number (Item.limits items) := by
  cases option <;> simp [Item.limits, Item.last?, Item.number?, LimitOption.apply]

theorem Holds.limit (holds : Holds earlier draft) (option : LimitOption) {value : String} {number : Nat}
    (numeral : Size.Numeral value.toList number) :
    Holds (earlier ++ [.limit option value number numeral])
      { draft with limits := option.apply number draft.limits } where
  path := by simp [holds.path, Item.file?]
  switches kind := by
    have same : switched { draft with limits := option.apply number draft.limits } kind = draft.switched kind := by
      cases kind <;> rfl
    simp [same, holds.switches kind]
  limits := by rw [limits_append_limit, holds.limits]

theorem Holds.file (holds : Holds earlier draft) (vacant : draft.path = none) {path : String}
    (plain : ¬ "--".toList <+: path.toList) :
    Holds (earlier ++ [.file path plain]) { draft with path := some path } where
  path := by simp [holds.path, vacant, Item.file?]
  switches kind := by
    have same : switched { draft with path := some path } kind = draft.switched kind := by cases kind <;> rfl
    simp [same, holds.switches kind]
  limits := by simp [holds.limits, Item.limits, Item.last?, Item.number?]

/-- The invocation that a draft with a path ends in. -/
def complete (draft : Draft) (path : String) : Invocation :=
  { path, listing := draft.listing, trace := draft.trace, profile := draft.profile, limits := draft.limits }

theorem Holds.mean (holds : Holds earlier draft) {path : String} (found : draft.path = some path) :
    Item.Mean earlier (draft.complete path) where
  path := by simp [holds.path, found, complete]
  switches kind := by
    have same : (draft.complete path).switched kind = draft.switched kind := by cases kind <;> rfl
    rw [same, holds.switches kind]
  limits := holds.limits

end Draft

section

variable {draft : Draft} {earlier : List Item} {rest : List String} {invocation : Invocation}

theorem read_nil {path : String} (found : draft.path = some path) : read draft [] = .ok (draft.complete path) := by
  rw [read, found]
  rfl

theorem read_switch (draft : Draft) (kind : Switch) (rest : List String) :
    read draft (kind.token :: rest) = read (draft.turnOn kind) rest := by
  cases kind <;> simp [Switch.token, read, Draft.turnOn]

theorem read_limit (draft : Draft) (option : LimitOption) {value : String} {number : Nat}
    (numeral : Size.Numeral value.toList number) (rest : List String) :
    read draft (option.flag :: value :: rest) =
      read { draft with limits := option.apply number draft.limits } rest := by
  have number := Size.read?_eq_some_iff.mpr numeral
  cases option <;> simp [LimitOption.flag, read, LimitOption.ofFlag?, number]

theorem read_file (vacant : draft.path = none) {path : String} (plain : ¬ "--".toList <+: path.toList)
    (rest : List String) : read draft (path :: rest) = read { draft with path := some path } rest := by
  have noSwitch (kind : Switch) : path ≠ kind.token := fun same => plain (same ▸ Item.token_dashed kind)
  have noLimit : LimitOption.ofFlag? path = none := by
    cases found : LimitOption.ofFlag? path with
    | none => rfl
    | some option => exact absurd (LimitOption.eq_flag_of_ofFlag? found ▸ Item.flag_dashed option) plain
  have noOption : ¬ path.startsWith "--" = true := fun dashed => plain (String.startsWith_string_iff.mp dashed)
  have other : path ≠ "--dis" ∧ path ≠ "--trace" ∧ path ≠ "--profile" :=
    ⟨noSwitch .listing, noSwitch .trace, noSwitch .profile⟩
  simp [read, other, noLimit, noOption, vacant]

theorem exists_items_cons {item : Item}
    (later : ∃ items, Item.spell items = rest ∧ Item.Mean (earlier ++ [item] ++ items) invocation) :
    ∃ items, Item.spell items = item.tokens ++ rest ∧ Item.Mean (earlier ++ items) invocation := by
  obtain ⟨items, spelled, mean⟩ := later
  exact ⟨item :: items, by rw [Item.spell_cons, spelled], by simpa using mean⟩

/-- Arguments that are understood are divided as they are read. -/
theorem items_of_read {arguments : List String} (holds : draft.Holds earlier)
    (understood : read draft arguments = .ok invocation) :
    ∃ items, Item.spell items = arguments ∧ Item.Mean (earlier ++ items) invocation := by
  induction draft, arguments using read.induct generalizing earlier with
  | case1 draft path found =>
      rw [read_nil found] at understood
      cases understood
      exact ⟨[], rfl, by simpa using holds.mean found⟩
  | case3 draft rest ih =>
      exact exists_items_cons (ih (holds.switch .listing) ((read_switch draft .listing rest).symm.trans understood))
  | case4 draft rest ih =>
      exact exists_items_cons (ih (holds.switch .trace) ((read_switch draft .trace rest).symm.trans understood))
  | case5 draft rest ih =>
      exact exists_items_cons (ih (holds.switch .profile) ((read_switch draft .profile rest).symm.trans understood))
  | case7 draft argument _ _ _ option known value rest number readable ih =>
      obtain rfl := LimitOption.eq_flag_of_ofFlag? known
      have numeral := Size.read?_eq_some_iff.mp readable
      exact exists_items_cons
        (ih (holds.limit option numeral) ((read_limit draft option numeral rest).symm.trans understood))
  | case11 draft argument rest _ _ _ unknown undashed vacant ih =>
      have plain : ¬ "--".toList <+: argument.toList := fun dashed => undashed (String.startsWith_string_iff.mpr dashed)
      have none : draft.path = none := by simpa using vacant
      exact exists_items_cons (ih (holds.file none plain) ((read_file none plain rest).symm.trans understood))
  | case2 draft missing => simp [read, missing] at understood
  | case6 draft argument noListing noTrace noProfile option known =>
      simp [read, known] at understood
  | case8 draft argument noListing noTrace noProfile option known value rest unreadable =>
      simp [read, known, unreadable] at understood
  | case9 draft argument rest noListing noTrace noProfile unknown dashed =>
      simp [read, unknown, dashed] at understood
  | case10 draft argument rest noListing noTrace noProfile unknown undashed taken =>
      simp [read, unknown, undashed, taken] at understood

/-- Items of which one is a file are understood. -/
theorem exists_read {items : List Item} {path : String} (holds : draft.Holds earlier)
    (single : (earlier ++ items).filterMap Item.file? = [path]) :
    ∃ invocation, read draft (Item.spell items) = .ok invocation ∧ Item.Mean (earlier ++ items) invocation := by
  induction items generalizing draft earlier with
  | nil =>
      have found : draft.path = some path := by
        rw [List.append_nil, holds.path] at single
        cases present : draft.path with
        | none => rw [present] at single; cases single
        | some other => rw [present] at single; cases single; rfl
      exact ⟨_, read_nil found, by simpa using holds.mean found⟩
  | cons item items ih =>
      rw [List.append_cons] at single ⊢
      cases item with
      | switch kind =>
          obtain ⟨invocation, understood, mean⟩ := ih (holds.switch kind) single
          exact ⟨invocation, (read_switch draft kind _).trans understood, mean⟩
      | limit option value number numeral =>
          obtain ⟨invocation, understood, mean⟩ := ih (holds.limit option numeral) single
          exact ⟨invocation, (read_limit draft option numeral _).trans understood, mean⟩
      | file other plain =>
          have vacant : draft.path = none := by
            cases present : draft.path with
            | none => rfl
            | some earlierPath => simp [holds.path, present, Item.file?] at single
          obtain ⟨invocation, understood, mean⟩ := ih (holds.file vacant plain) single
          exact ⟨invocation, (read_file vacant plain _).trans understood, mean⟩

end

theorem Item.Mean.unique {items : List Item} {invocation other : Invocation} (first : Mean items invocation)
    (second : Mean items other) : invocation = other := by
  have path : invocation.path = other.path := by simpa [first.path] using second.path
  have switches (kind : Switch) : invocation.switched kind = other.switched kind := by
    rw [Bool.eq_iff_iff, first.switches, second.switches]
  have limits : invocation.limits = other.limits := first.limits.trans second.limits.symm
  obtain ⟨_, _, _, _, _⟩ := invocation
  obtain ⟨_, _, _, _, _⟩ := other
  have listing := switches .listing
  have trace := switches .trace
  have profile := switches .profile
  simp_all [switched]

/-- The limits of one kind stand in the same order. -/
def Item.KeepsOrder (items others : List Item) : Prop :=
  ∀ option, items.filter (Item.sets option) = others.filter (Item.sets option)

theorem Item.last?_filter (items : List Item) (option : LimitOption) :
    last? (items.filter (sets option)) option = last? items option := by
  have kept (item : Item) : (if item.sets option then item.number? option else none) = item.number? option := by
    unfold sets
    cases item.number? option <;> rfl
  simp only [last?, List.filterMap_filter, kept]

theorem Item.Mean.perm {items others : List Item} {invocation : Invocation} (mean : Mean items invocation)
    (permuted : others.Perm items) (ordered : KeepsOrder items others) : Mean others invocation where
  path := List.perm_singleton.mp (mean.path ▸ permuted.filterMap _)
  switches kind := (mean.switches kind).trans permuted.mem_iff.symm
  limits := by
    have last (option : LimitOption) : last? items option = last? others option := by
      rw [← last?_filter items, ordered option, last?_filter]
    rw [mean.limits, Item.limits, Item.limits, last, last, last, last]

/-- Arguments are understood if and only if they can be divided into items of which just one is a file. They
can be divided in one way only, and mean what their items do: the path is the file, a switch is on if it
occurs, and a limit is as its last item sets it. Items in another order mean the same as long as the limits of
one kind keep theirs. -/
theorem arguments_exact (arguments : List String) :
    ((∃ invocation, ofArguments arguments = .ok invocation) ↔
      ∃ items path, Item.spell items = arguments ∧ items.filterMap Item.file? = [path]) ∧
    (∀ items others, Item.spell items = arguments → Item.spell others = arguments → items = others) ∧
    ∀ items invocation, Item.spell items = arguments → ofArguments arguments = .ok invocation →
      Item.Mean items invocation ∧
      ∀ others : List Item, others.Perm items → Item.KeepsOrder items others →
        ofArguments (Item.spell others) = .ok invocation := by
  have means {items : List Item} {invocation : Invocation}
      (understood : ofArguments (Item.spell items) = .ok invocation) : Item.Mean items invocation := by
    obtain ⟨others, same, mean⟩ := items_of_read Draft.holds_nil understood
    rw [← Item.spell_injective same]
    simpa using mean
  refine ⟨⟨?_, ?_⟩, ?_, ?_⟩
  · rintro ⟨invocation, understood⟩
    obtain ⟨items, spelled, mean⟩ := items_of_read Draft.holds_nil understood
    exact ⟨items, invocation.path, spelled, by simpa using mean.path⟩
  · rintro ⟨items, path, rfl, single⟩
    obtain ⟨invocation, understood, _⟩ := exists_read Draft.holds_nil (by simpa using single)
    exact ⟨invocation, understood⟩
  · rintro items others rfl same
    exact Item.spell_injective same.symm
  · rintro items invocation rfl understood
    refine ⟨means understood, fun others permuted ordered => ?_⟩
    have mean := (means understood).perm permuted ordered
    obtain ⟨other, otherwise, _⟩ := exists_read Draft.holds_nil (by simpa using mean.path)
    rw [(means otherwise).unique mean] at otherwise
    exact otherwise

theorem numeral_five : Size.Numeral "5".toList 5 :=
  ⟨⟨['5'], .inl rfl, by simp, by simp, rfl⟩, by norm_num⟩

theorem numeral_signedSeven : Size.Numeral "+7".toList 7 :=
  ⟨⟨['7'], .inr rfl, by simp, by simp, rfl⟩, by norm_num⟩

/-- A limit that is set twice, once with a sign. -/
def repeatedLimit : List Item :=
  [.limit .operations "5" 5 numeral_five, .switch .listing, .file "c.json" (by decide),
    .limit .operations "+7" 7 numeral_signedSeven]

theorem arguments_exact_repeatedLimit :
    ofArguments ["--max-ops", "5", "--dis", "c.json", "--max-ops", "+7"] =
        .ok { path := "c.json", listing := true, limits := { maxOperations := some 7 } } ∧
      ofArguments ["c.json", "--max-ops", "5", "--max-ops", "+7", "--dis"] =
        .ok { path := "c.json", listing := true, limits := { maxOperations := some 7 } } := by
  have understood : ofArguments (Item.spell repeatedLimit) =
      .ok { path := "c.json", listing := true, limits := { maxOperations := some 7 } } :=
    calc read {} (Item.spell repeatedLimit)
      _ = read { limits := { maxOperations := some 5 } } ["--dis", "c.json", "--max-ops", "+7"] :=
          read_limit {} .operations numeral_five _
      _ = read { listing := true, limits := { maxOperations := some 5 } } ["c.json", "--max-ops", "+7"] :=
          read_switch _ .listing _
      _ = read { path := some "c.json", listing := true, limits := { maxOperations := some 5 } } ["--max-ops", "+7"] :=
          read_file rfl (by decide) _
      _ = read { path := some "c.json", listing := true, limits := { maxOperations := some 7 } } [] :=
          read_limit _ .operations numeral_signedSeven _
      _ = .ok { path := "c.json", listing := true, limits := { maxOperations := some 7 } } :=
          read_nil rfl
  obtain ⟨_, reorders⟩ := (arguments_exact _).2.2 repeatedLimit _ rfl understood
  have permuted : [repeatedLimit[2], repeatedLimit[0], repeatedLimit[3], repeatedLimit[1]].Perm repeatedLimit := by
    decide
  exact ⟨understood, reorders _ permuted fun option => by cases option <;> rfl⟩

end Invocation

end BlockVM
