import Mathlib.Data.List.Forall2
import BlockVM.Proofs.Components

namespace BlockVM

/-! The text of plain data can be read in one way only. A text says by its first character what it is the text of, a
number or a quoted text ends where it has to, and between the items of a row stands what no row can end with. -/

namespace Text.Quoted

/-- The character that a backslash and `c` stand for. -/
def meant (c : Char) : Char :=
  if c = 'n' then '\n' else if c = 'r' then '\r' else if c = 't' then '\t' else c

/-- Reads up to the closing quote; what stands behind it is left. `escaping` says that a backslash stands before. -/
def readBody (quote : Char) : (escaping : Bool) → List Char → Option (List Char × List Char)
  | _, [] => none
  | true, c :: rest => (readBody quote false rest).map (Prod.map (meant c :: ·) id)
  | false, c :: rest =>
      if c = quote then some ([], rest)
      else if c = '\\' then readBody quote true rest
      else (readBody quote false rest).map (Prod.map (c :: ·) id)

/-- Reads a quoted text; what stands behind it is left. -/
def read? : List Char → Option (List Char × List Char)
  | [] => none
  | quote :: rest => if quote = '\'' ∨ quote = '"' then readBody quote false rest else none

/-- The text that is quoted, if nothing stands behind it. -/
def decode? (quoted : String) : Option String :=
  match read? quoted.toList with
  | some (text, []) => some (String.ofList text)
  | _ => none

theorem mark_cases (text : List Char) : mark text = '\'' ∨ mark text = '"' := by
  unfold mark
  split
  · exact .inr rfl
  · exact .inl rfl

theorem readBody_encodeChar {quote : Char} (either : quote = '\'' ∨ quote = '"') (c : Char) (rest : List Char) :
    readBody quote false (encodeChar quote c ++ rest) = (readBody quote false rest).map (Prod.map (c :: ·) id) := by
  have plain : '\\' ≠ quote := by rcases either with rfl | rfl <;> decide
  have escape (letter : Char) (stands : meant letter = c) :
      readBody quote false ('\\' :: letter :: rest) = (readBody quote false rest).map (Prod.map (c :: ·) id) := by
    rw [readBody, if_neg plain, if_pos rfl, readBody, stands]
  unfold encodeChar
  split
  · exact escape '\\' (by subst c; rfl)
  split
  · exact escape 'n' (by subst c; rfl)
  split
  · exact escape 'r' (by subst c; rfl)
  split
  · exact escape 't' (by subst c; rfl)
  split
  · rename_i own
    exact escape c (by subst own; rcases either with rfl | rfl <;> rfl)
  · rename_i slash _ _ _ other
    rw [List.singleton_append, readBody, if_neg other, if_neg slash]

theorem readBody_encode {quote : Char} (either : quote = '\'' ∨ quote = '"') (text rest : List Char) :
    readBody quote false (text.flatMap (encodeChar quote) ++ quote :: rest) = some (text, rest) := by
  induction text with
  | nil => simp [readBody]
  | cons c text ih =>
      rw [List.flatMap_cons, List.append_assoc, readBody_encodeChar either, ih]
      rfl

/-- Whatever follows, the quoted text is read back. -/
theorem read?_encode (text rest : List Char) : read? (encode text ++ rest) = some (text, rest) := by
  have either := mark_cases text
  simp only [encode, List.cons_append, List.append_assoc, List.nil_append, read?, if_pos either,
    readBody_encode either]

theorem decode?_render (text : String) : decode? (render text) = some text := by
  have read := read?_encode text.toList []
  rw [List.append_nil] at read
  simp [decode?, render, read]

theorem encode_append {text other s t : List Char} (same : encode text ++ s = encode other ++ t) :
    text = other ∧ s = t := by
  have read := read?_encode text s
  rw [same, read?_encode other t] at read
  cases read
  exact ⟨rfl, rfl⟩

end Text.Quoted

/-- Nothing follows, or what separates or closes. -/
def Text.Closes (rest : List Char) : Prop :=
  ∀ c more, rest = c :: more → c = ',' ∨ c = ']' ∨ c = ')'

/-- No further item of a row follows. -/
structure Text.Stops (rest : List Char) : Prop where
  closes : Text.Closes rest
  last : ∀ more, rest ≠ ',' :: ' ' :: more

namespace Text

theorem closes_nil : Closes [] :=
  fun _ _ same => by cases same

theorem closes_cons {c : Char} (closing : c = ',' ∨ c = ']' ∨ c = ')') (rest : List Char) : Closes (c :: rest) := by
  intro d more same
  cases same
  exact closing

theorem stops_cons {c : Char} (closing : c = ']' ∨ c = ')') (rest : List Char) : Stops (c :: rest) where
  closes := closes_cons (.inr closing) rest
  last := by
    rintro more ⟨⟩
    simp at closing

/-- A comma right before the closing parenthesis. -/
theorem stops_comma (rest : List Char) : Stops (',' :: ')' :: rest) where
  closes := closes_cons (.inl rfl) _
  last := by rintro more ⟨⟩

/-- A character of a number. -/
def numeric (c : Char) : Bool :=
  c.isDigit || c == '-'

def digits (i : Int) : List Char :=
  (toString i).toList

theorem toList_repr (n : Nat) : n.repr.toList = Nat.toDigits 10 n := by
  rw [Nat.repr_eq_ofList_toDigits, String.toList_ofList]

theorem digits_ofNat (n : Nat) : digits (.ofNat n) = Nat.toDigits 10 n :=
  toList_repr n

theorem digits_negSucc (n : Nat) : digits (.negSucc n) = '-' :: Nat.toDigits 10 (n + 1) := by
  rw [← toList_repr]
  exact String.toList_append

theorem isDigit_of_mem {n : Nat} {c : Char} (member : c ∈ Nat.toDigits 10 n) : c.isDigit = true :=
  Nat.isDigit_of_mem_toDigits (by decide) (by decide) member

theorem numeric_of_mem {i : Int} {c : Char} (member : c ∈ digits i) : numeric c = true := by
  cases i with
  | ofNat n =>
      rw [digits_ofNat] at member
      simp [numeric, isDigit_of_mem member]
  | negSucc n =>
      rw [digits_negSucc] at member
      rcases List.mem_cons.mp member with rfl | member
      · rfl
      · simp [numeric, isDigit_of_mem member]

theorem toDigits_injective {n m : Nat} (same : Nat.toDigits 10 n = Nat.toDigits 10 m) : n = m := by
  rw [← Nat.ofDigitChars_ten_toDigits (n := n), same, Nat.ofDigitChars_ten_toDigits]

theorem digits_injective {i j : Int} (same : digits i = digits j) : i = j := by
  have signed {n m : Nat} (same : Nat.toDigits 10 n = '-' :: Nat.toDigits 10 m) : False := by
    have digit := isDigit_of_mem (same ▸ List.mem_cons_self : '-' ∈ Nat.toDigits 10 n)
    cases digit
  cases i with
  | ofNat n =>
      cases j with
      | ofNat m =>
          rw [digits_ofNat, digits_ofNat] at same
          rw [toDigits_injective same]
      | negSucc m =>
          rw [digits_ofNat, digits_negSucc] at same
          cases signed same
  | negSucc n =>
      cases j with
      | ofNat m =>
          rw [digits_ofNat, digits_negSucc] at same
          cases signed same.symm
      | negSucc m =>
          rw [digits_negSucc, digits_negSucc, List.cons_inj_right] at same
          rw [Nat.succ.inj (toDigits_injective same)]

/-- A number goes on as long as there are characters of a number. -/
theorem takeWhile_digits (i : Int) {rest : List Char} (closes : Closes rest) :
    (digits i ++ rest).takeWhile numeric = digits i := by
  have none : rest.takeWhile numeric = [] := by
    cases rest with
    | nil => rfl
    | cons c more => rcases closes c more rfl with rfl | rfl | rfl <;> rfl
  rw [List.takeWhile_append_of_pos fun c => numeric_of_mem, none, List.append_nil]

theorem digits_append {i j : Int} {s t : List Char} (first : Closes s) (second : Closes t)
    (same : digits i ++ s = digits j ++ t) : i = j ∧ s = t := by
  have alike : digits i = digits j := by rw [← takeWhile_digits i first, same, takeWhile_digits j second]
  rw [alike, List.append_cancel_left_eq] at same
  exact ⟨digits_injective alike, same⟩

end Text

namespace Range

/-- What stands behind the bounds: the step, unless it is one, and the parenthesis. -/
def closing (r : Range) : List Char :=
  (if r.step = 1 then [] else ',' :: ' ' :: Text.digits r.step.toInt) ++ [')']

theorem toList_render (r : Range) : r.render.toList =
    "range(".toList ++ (Text.digits r.start.toInt ++ (',' :: ' ' :: (Text.digits r.stop.toInt ++ r.closing))) := by
  have one : r.step.toInt = 1 ↔ r.step = 1 := Int64.toInt_inj (y := 1)
  by_cases unit : r.step = 1 <;> simp [render, closing, one, unit, Text.digits, toString]

theorem closes_closing (r : Range) (rest : List Char) : Text.Closes (r.closing ++ rest) := by
  unfold closing
  split
  · exact Text.closes_cons (.inr (.inr rfl)) _
  · exact Text.closes_cons (.inl rfl) _

theorem closing_append {p q : Range} {s t : List Char} (same : p.closing ++ s = q.closing ++ t) :
    p.step = q.step ∧ s = t := by
  unfold closing at same
  by_cases first : p.step = 1 <;> by_cases second : q.step = 1
  · rw [if_pos first, if_pos second] at same
    exact ⟨first.trans second.symm, List.append_cancel_left same⟩
  · simp [first, second] at same
  · simp [first, second] at same
  · simp only [first, second, if_false, List.cons_append, List.cons_inj_right, List.append_assoc] at same
    obtain ⟨steps, rests⟩ := Text.digits_append (Text.closes_cons (.inr (.inr rfl)) _)
      (Text.closes_cons (.inr (.inr rfl)) _) same
    exact ⟨Int64.toInt_inj.mp steps, (List.cons_inj_right _).mp rests⟩

theorem render_append {p q : Range} {s t : List Char} (same : p.render.toList ++ s = q.render.toList ++ t) :
    p = q ∧ s = t := by
  rw [toList_render, toList_render] at same
  simp only [List.append_assoc, List.append_cancel_left_eq, List.cons_append] at same
  obtain ⟨starts, same⟩ := Text.digits_append (Text.closes_cons (.inl rfl) _) (Text.closes_cons (.inl rfl) _) same
  simp only [List.cons_inj_right] at same
  obtain ⟨stops, same⟩ := Text.digits_append (p.closes_closing s) (q.closes_closing t) same
  obtain ⟨steps, rests⟩ := closing_append same
  refine ⟨?_, rests⟩
  cases p
  cases q
  simp_all [Int64.toInt_inj]

end Range

namespace Text

/-- What stands behind the first item of a row: the others, each after a comma. -/
def spread {α : Type} (text : α → List Char) (items : List α) : List Char :=
  items.flatMap fun item => ',' :: ' ' :: text item

/-- The items of a row with a comma between each two. -/
def row {α : Type} (text : α → List Char) : List α → List Char
  | [] => []
  | item :: items => text item ++ spread text items

theorem closes_spread {α : Type} {text : α → List Char} {rest : List Char} (closes : Closes rest) (items : List α) :
    Closes (spread text items ++ rest) := by
  cases items with
  | nil => exact closes
  | cons item items => exact closes_cons (.inl rfl) _

section

variable {α β : Type} {first : α → List Char} {second : β → List Char} {alike : α → β → Prop} {xs : List α}
  {ys : List β} {s t : List Char}

theorem spread_append
    (items : ∀ x ∈ xs, ∀ y ∈ ys, ∀ s t, Closes s → Closes t → first x ++ s = second y ++ t → alike x y ∧ s = t)
    (left : Stops s) (right : Stops t) (same : spread first xs ++ s = spread second ys ++ t) :
    List.Forall₂ alike xs ys ∧ s = t := by
  induction xs generalizing ys with
  | nil =>
      cases ys with
      | nil => exact ⟨.nil, same⟩
      | cons y ys => exact absurd same (left.last _)
  | cons x xs ih =>
      cases ys with
      | nil => exact absurd same.symm (right.last _)
      | cons y ys =>
          simp only [spread, List.flatMap_cons, List.cons_append, List.cons_inj_right, List.append_assoc] at same
          obtain ⟨head, same⟩ := items x List.mem_cons_self y List.mem_cons_self _ _ (closes_spread left.closes xs)
            (closes_spread right.closes ys) same
          obtain ⟨tail, rests⟩ := ih (fun x inside y member => items x (.tail _ inside) y (.tail _ member)) same
          exact ⟨.cons head tail, rests⟩

theorem row_append
    (items : ∀ x ∈ xs, ∀ y ∈ ys, ∀ s t, Closes s → Closes t → first x ++ s = second y ++ t → alike x y ∧ s = t)
    (opens : ∀ x ∈ xs, ∀ rest, ¬ Closes (first x ++ rest)) (opens' : ∀ y ∈ ys, ∀ rest, ¬ Closes (second y ++ rest))
    (left : Stops s) (right : Stops t) (same : row first xs ++ s = row second ys ++ t) :
    List.Forall₂ alike xs ys ∧ s = t := by
  cases xs with
  | nil =>
      cases ys with
      | nil => exact ⟨.nil, same⟩
      | cons y ys =>
          have closes := left.closes
          rw [show s = _ from same, row, List.append_assoc] at closes
          exact absurd closes (opens' y List.mem_cons_self _)
  | cons x xs =>
      cases ys with
      | nil =>
          have closes := right.closes
          rw [show t = _ from same.symm, row, List.append_assoc] at closes
          exact absurd closes (opens x List.mem_cons_self _)
      | cons y ys =>
          rw [row, row, List.append_assoc, List.append_assoc] at same
          obtain ⟨head, same⟩ := items x List.mem_cons_self y List.mem_cons_self _ _ (closes_spread left.closes xs)
            (closes_spread right.closes ys) same
          obtain ⟨tail, rests⟩ :=
            spread_append (fun x inside y member => items x (.tail _ inside) y (.tail _ member)) left right same
          exact ⟨.cons head tail, rests⟩

end

/-- What the first character of a text shows. -/
inductive Opening where
  | nothing
  | truth
  | number
  | quote
  | list
  | tuple
  | range

def opening? (c : Char) : Option Opening :=
  if c = 'N' then some .nothing
  else if c = 'T' ∨ c = 'F' then some .truth
  else if numeric c then some .number
  else if c = '\'' ∨ c = '"' then some .quote
  else if c = '[' then some .list
  else if c = '(' then some .tuple
  else if c = 'r' then some .range
  else none

theorem opening?_numeric {c : Char} (number : numeric c = true) : opening? c = some .number := by
  have other (d : Char) (letter : numeric d = false) : c ≠ d := by
    rintro rfl
    rw [number] at letter
    cases letter
  simp [opening?, number, other 'N' rfl, other 'T' rfl, other 'F' rfl]

theorem exists_digits (i : Int) : ∃ c more, digits i = c :: more ∧ opening? c = some .number := by
  have some : digits i ≠ [] := by
    cases i with
    | ofNat n =>
        rw [digits_ofNat]
        exact Nat.toDigits_ne_nil
    | negSucc n =>
        rw [digits_negSucc]
        exact List.cons_ne_nil _ _
  obtain ⟨c, more, written⟩ := List.exists_cons_of_ne_nil some
  exact ⟨c, more, written, opening?_numeric (numeric_of_mem (written ▸ List.mem_cons_self))⟩

theorem not_closes {c : Char} {more : List Char} (opens : opening? c ≠ none) : ¬ Closes (c :: more) := by
  intro closes
  rcases closes c more rfl with rfl | rfl | rfl <;> exact opens rfl

end Text

namespace Value

/-- Values of one structure. They may lie in two heaps, and have identities of their own. -/
inductive Alike (h k : Heap) : Value → Value → Prop where
  | nothing : Alike h k .nothing .nothing
  | bool (value : Bool) : Alike h k (.bool value) (.bool value)
  | int (value : Int64) : Alike h k (.int value) (.int value)
  | str (id other : Nat) (text : String) : Alike h k (.str id text) (.str other text)
  | range (progression : Range) : Alike h k (.range progression) (.range progression)
  | list {r s : ListRef} (items : List.Forall₂ (Alike h k) (h.items r).toList (k.items s).toList) :
      Alike h k (.list r) (.list s)
  | tuple {id other : Nat} {xs ys : List Value} (items : List.Forall₂ (Alike h k) xs ys) :
      Alike h k (.tuple id xs) (.tuple other ys)

def opening? : Value → Option Text.Opening
  | .nothing => some .nothing
  | .bool _ => some .truth
  | .int _ => some .number
  | .str .. => some .quote
  | .list _ => some .list
  | .tuple .. => some .tuple
  | .range _ => some .range
  | _ => none

/-- The text of a value as a row of characters. -/
def text (heap : Heap) (room : Nat) (v : Value) : List Char :=
  (reprWithin heap room v).toList

theorem toList_joinComma (shown : String) (texts : List String) :
    (joinComma shown texts).toList = shown.toList ++ Text.row String.toList texts := by
  fun_induction joinComma shown texts with
  | case1 shown => simp [Text.row]
  | case2 shown text => simp [Text.row, Text.spread]
  | case3 shown text texts rest ih =>
      cases texts with
      | nil => cases rest rfl
      | cons other texts => simp [ih, Text.row, Text.spread]

theorem row_map {α β : Type} (text : β → List Char) (f : α → β) (items : List α) :
    Text.row text (items.map f) = Text.row (fun item => text (f item)) items := by
  cases items with
  | nil => rfl
  | cons item items => simp [Text.row, Text.spread, List.flatMap_map]

section

variable {h k heap : Heap} {room : Nat} {a b v : Value}

theorem reprWithin_list (ref : ListRef) : reprWithin heap (room + 1) (.list ref) =
    joinComma "[" ((heap.items ref).toList.map (reprWithin heap room)) ++ "]" := rfl

theorem reprWithin_tuple (id : Nat) (items : List Value) : reprWithin heap (room + 1) (.tuple id items) =
    joinComma "(" (items.map (reprWithin heap room)) ++ (if items.length = 1 then ",)" else ")") := rfl

theorem text_list (ref : ListRef) :
    text heap (room + 1) (.list ref) = '[' :: (Text.row (text heap room) (heap.items ref).toList ++ [']']) := by
  rw [text, reprWithin_list, String.toList_append, toList_joinComma, row_map]
  rfl

theorem text_tuple (id : Nat) (items : List Value) : text heap (room + 1) (.tuple id items) =
    '(' :: (Text.row (text heap room) items ++ if items.length = 1 then [',', ')'] else [')']) := by
  rw [text, reprWithin_tuple, String.toList_append, toList_joinComma, row_map]
  split <;> rfl

theorem text_str (id : Nat) (s : String) : text heap (room + 1) (.str id s) = Text.Quoted.encode s.toList :=
  String.toList_ofList

theorem text_bool (value : Bool) : text heap (room + 1) (.bool value) =
    if value then ['T', 'r', 'u', 'e'] else ['F', 'a', 'l', 's', 'e'] := by
  cases value with
  | false =>
      change "False".toList = _
      rfl
  | true =>
      change "True".toList = _
      rfl

theorem text_nothing : text heap (room + 1) .nothing = ['N', 'o', 'n', 'e'] := by
  change "None".toList = _
  rfl

theorem text_opens (plain : v.Plain heap room) :
    ∃ c more, text heap room v = c :: more ∧ Text.opening? c = v.opening? ∧ v.opening? ≠ none := by
  cases room with
  | zero => cases plain.positive
  | succ room =>
      have data := plain.data
      cases v with
      | nothing => exact ⟨'N', _, text_nothing, rfl, by simp [opening?]⟩
      | bool value =>
          cases value with
          | false => exact ⟨'F', _, text_bool false, rfl, by simp [opening?]⟩
          | true => exact ⟨'T', _, text_bool true, rfl, by simp [opening?]⟩
      | int i =>
          obtain ⟨c, more, written, opens⟩ := Text.exists_digits i.toInt
          exact ⟨c, more, written, opens, by simp [opening?]⟩
      | str id s =>
          refine ⟨Text.Quoted.mark s.toList, _, text_str id s, ?_, by simp [opening?]⟩
          rcases Text.Quoted.mark_cases s.toList with quote | quote <;> rw [quote] <;> rfl
      | list ref => exact ⟨'[', _, text_list ref, rfl, by simp [opening?]⟩
      | tuple id items => exact ⟨'(', _, text_tuple id items, rfl, by simp [opening?]⟩
      | range progression => exact ⟨'r', _, progression.toList_render, rfl, by simp [opening?]⟩
      | _ => cases data

theorem not_closes_text (plain : v.Plain heap room) (rest : List Char) : ¬ Text.Closes (text heap room v ++ rest) := by
  obtain ⟨c, more, written, opens, known⟩ := text_opens plain
  rw [written]
  exact Text.not_closes (opens ▸ known)

/-- Whatever closes behind them, equal texts are those of values of one structure, and the same follows. -/
theorem text_append {s t : List Char} (left : a.Plain h room) (right : b.Plain k room) (first : Text.Closes s)
    (second : Text.Closes t) (same : text h room a ++ s = text k room b ++ t) : Alike h k a b ∧ s = t := by
  induction room generalizing a b s t with
  | zero => cases left.positive
  | succ room ih =>
      have kinds : a.opening? = b.opening? := by
        obtain ⟨c, more, written, opens, _⟩ := text_opens left
        obtain ⟨d, others, shown, opens', _⟩ := text_opens right
        rw [written, shown, List.cons_append, List.cons_append] at same
        rw [← opens, ← opens', (List.cons.inj same).1]
      have rows {p q : List Char} (before : Text.Stops p) (behind : Text.Stops q)
          (same : Text.row (text h room) (a.elements h) ++ p = Text.row (text k room) (b.elements k) ++ q) :
          List.Forall₂ (Alike h k) (a.elements h) (b.elements k) ∧ p = q :=
        Text.row_append (fun x inside y member s t => ih (left.item inside) (right.item member))
          (fun x inside => not_closes_text (left.item inside)) (fun y member => not_closes_text (right.item member))
          before behind same
      have whole := left.data
      cases a with
      | nothing =>
          cases b with
          | nothing => exact ⟨.nothing, List.append_cancel_left same⟩
          | _ => cases kinds
      | bool value =>
          cases b with
          | bool other =>
              rw [text_bool, text_bool] at same
              cases value <;> cases other <;> first | exact ⟨.bool _, List.append_cancel_left same⟩ | cases same
          | _ => cases kinds
      | int i =>
          cases b with
          | int j =>
              obtain ⟨numbers, rests⟩ := Text.digits_append first second same
              cases Int64.toInt_inj.mp numbers
              exact ⟨.int i, rests⟩
          | _ => cases kinds
      | str id text =>
          cases b with
          | str other again =>
              rw [text_str, text_str] at same
              obtain ⟨texts, rests⟩ := Text.Quoted.encode_append same
              cases String.toList_inj.mp texts
              exact ⟨.str id other text, rests⟩
          | _ => cases kinds
      | range p =>
          cases b with
          | range q =>
              obtain ⟨rfl, rests⟩ := Range.render_append same
              exact ⟨.range p, rests⟩
          | _ => cases kinds
      | list r =>
          cases b with
          | list s =>
              rw [text_list, text_list] at same
              simp only [List.cons_append, List.cons_inj_right, List.append_assoc, List.nil_append] at same
              obtain ⟨items, rests⟩ := rows (Text.stops_cons (.inl rfl) _) (Text.stops_cons (.inl rfl) _) same
              exact ⟨.list items, (List.cons_inj_right _).mp rests⟩
          | _ => cases kinds
      | tuple id xs =>
          cases b with
          | tuple other ys =>
              have stops (n : Nat) (rest : List Char) :
                  Text.Stops ((if n = 1 then [',', ')'] else [')']) ++ rest) := by
                split
                · exact Text.stops_comma rest
                · exact Text.stops_cons (.inr rfl) rest
              rw [text_tuple, text_tuple] at same
              simp only [List.cons_append, List.cons_inj_right, List.append_assoc] at same
              obtain ⟨items, rests⟩ := rows (stops _ _) (stops _ _) same
              rw [show ys.length = xs.length from items.length_eq.symm, List.append_cancel_left_eq] at rests
              exact ⟨.tuple items, rests⟩
          | _ => cases kinds
      | _ => cases whole

/-- What a text shows is the structure. -/
theorem Alike.reprWithin_eq (alike : Alike h k a b) (room : Nat) : reprWithin h room a = reprWithin k room b := by
  induction room generalizing a b with
  | zero => rfl
  | succ room ih =>
      have rows {xs ys : List Value} (items : List.Forall₂ (Alike h k) xs ys) :
          xs.map (reprWithin h room) = ys.map (reprWithin k room) := by
        induction items with
        | nil => rfl
        | cons head _ tail => rw [List.map_cons, List.map_cons, ih head, tail]
      cases alike with
      | list items => rw [reprWithin_list, reprWithin_list, rows items]
      | tuple items => rw [reprWithin_tuple, reprWithin_tuple, rows items, items.length_eq]
      | bool value => cases value <;> rfl
      | _ => rfl

end

end Value

/-- Two plain values, nested no deeper than is shown, have the same text exactly if they have the same structure. A
text in quotes is read back to what it stands for, whatever is in it. -/
theorem repr_unambiguous :
    (∀ (h k : Heap) (a b : Value), a.Plain h (Value.nestingLimit + 1) → b.Plain k (Value.nestingLimit + 1) →
      (a.repr h = b.repr k ↔ Value.Alike h k a b)) ∧
    ∀ text : String, Text.Quoted.decode? (Text.Quoted.render text) = some text := by
  refine ⟨fun h k a b left right => ⟨fun same => ?_, fun alike => alike.reprWithin_eq _⟩, Text.Quoted.decode?_render⟩
  have texts : a.text h (Value.nestingLimit + 1) = b.text k (Value.nestingLimit + 1) := congrArg String.toList same
  exact (Value.text_append left right Text.closes_nil Text.closes_nil (by rw [texts])).1

/-- One text that holds a separator between quotes, and two texts. -/
def separators : Heap :=
  { Heap.empty with lists := #[#[.str 0 "a', 'b"], #[.str 1 "a", .str 2 "b"], #[.str 3 "a', 'b"]] }

/-- The text with the separator is shown otherwise than the two texts, and the same as another text like it. -/
theorem repr_unambiguous_separators :
    (Value.list ⟨0⟩).Plain separators (Value.nestingLimit + 1) ∧
      (Value.list ⟨1⟩).Plain separators (Value.nestingLimit + 1) ∧
      (Value.list ⟨0⟩).repr separators ≠ (Value.list ⟨1⟩).repr separators ∧
      (Value.list ⟨0⟩).repr separators = (Value.list ⟨2⟩).repr separators ∧
      Text.Quoted.decode? (Text.Quoted.render "it's \"\\n\"\n") = some "it's \"\\n\"\n" := by
  have first : (Value.list ⟨0⟩).Plain separators (Value.nestingLimit + 1) := by decide
  have second : (Value.list ⟨1⟩).Plain separators (Value.nestingLimit + 1) := by decide
  have third : (Value.list ⟨2⟩).Plain separators (Value.nestingLimit + 1) := by decide
  obtain ⟨shown, quoted⟩ := repr_unambiguous
  refine ⟨first, second, fun same => ?_, ?_, quoted _⟩
  · cases (shown _ _ _ _ first second).mp same with
    | list items => cases (show 1 = 2 from items.length_eq)
  · exact (shown _ _ _ _ first third).mpr (.list (.cons (.str 0 3 _) .nil))

end BlockVM
