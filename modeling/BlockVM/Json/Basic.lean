import BlockVM.Binary64.Layout
import BlockVM.Word

namespace BlockVM.Json

/-! Number literals. Their digits are kept, since an integer and a float are read from them by
different rules. -/

structure Numeral where
  negative : Bool
  whole : List Char
  /-- The digits behind the point; none if there is no point. -/
  fraction : List Char
  /-- Whether the exponent is negative, and its digits. -/
  exponent : Option (Bool × List Char)
deriving Repr, DecidableEq, Inhabited

namespace Numeral

def ofNat (n : Nat) : Numeral :=
  { negative := false, whole := Nat.toDigits 10 n, fraction := [], exponent := none }

def ofInt (i : Int) : Numeral :=
  { ofNat i.natAbs with negative := i < 0 }

/-- The exponent is written with its sign. -/
def render (n : Numeral) : List Char :=
  let sign := if n.negative then ['-'] else []
  let point := if n.fraction.isEmpty then [] else '.' :: n.fraction
  let scale :=
    match n.exponent with
    | none => []
    | some (negative, digits) => 'e' :: (if negative then '-' else '+') :: digits
  sign ++ n.whole ++ point ++ scale

/-- Digits at the front of a text, and the rest. -/
def spanDigits (text : List Char) : List Char × List Char :=
  (text.takeWhile Char.isDigit, text.dropWhile Char.isDigit)

/-- Reads the exponent behind its mark. -/
def scanExponent (text : List Char) : Option ((Bool × List Char) × List Char) :=
  let (negative, unsigned) :=
    match text with
    | '-' :: rest => (true, rest)
    | '+' :: rest => (false, rest)
    | rest => (false, rest)
  match spanDigits unsigned with
  | ([], _) => none
  | (digits, rest) => some ((negative, digits), rest)

/-- Reads the digits behind a point, if there is a point. -/
def scanFraction : List Char → Option (List Char × List Char)
  | '.' :: rest =>
      match spanDigits rest with
      | ([], _) => none
      | found => some found
  | rest => some ([], rest)

/-- Reads an exponent with its mark, if there is one. -/
def scanScale : List Char → Option (Option (Bool × List Char) × List Char)
  | 'e' :: rest => (scanExponent rest).map fun (exponent, after) => (some exponent, after)
  | 'E' :: rest => (scanExponent rest).map fun (exponent, after) => (some exponent, after)
  | rest => some (none, rest)

/-- Reads a literal behind its sign: no leading zeros, and digits on both sides of a point. -/
def scanUnsigned (negative : Bool) (text : List Char) : Option (Numeral × List Char) :=
  match spanDigits text with
  | ([], _) => none
  | ('0' :: _ :: _, _) => none
  | (whole, afterWhole) => do
      let (fraction, afterFraction) ← scanFraction afterWhole
      let (exponent, after) ← scanScale afterFraction
      return ({ negative, whole, fraction, exponent }, after)

/-- Reads a literal at the front of a text. -/
def scan : List Char → Option (Numeral × List Char)
  | '-' :: rest => scanUnsigned true rest
  | text => scanUnsigned false text

/-- The integer a literal stands for. A literal with a point or an exponent is a float, and so is
a negative zero. -/
def integer? (n : Numeral) : Option Int :=
  if n.fraction.isEmpty ∧ n.exponent = none then
    let magnitude : Nat := Nat.ofDigitChars 10 n.whole 0
    if n.negative then
      if magnitude = 0 then none else some (-magnitude)
    else some magnitude
  else none

/-! A float is read from a significand of one unsigned word and a power of ten. Digits that the
word has no room for are dropped, and the significand is scaled by at most one multiplication or
a few divisions, so the result may miss the nearest float by the last place. -/

/-- Takes digits into the significand as long as it stays in one word. -/
def gather (significand : Nat) : List Char → Nat × List Char
  | [] => (significand, [])
  | digit :: rest =>
      let next := significand * 10 + (digit.toNat - '0'.toNat)
      if next ≤ Size.greatest then gather next rest else (significand, digit :: rest)

def powerOfTen (exponent : Nat) : Float :=
  Float.ofScientific 1 false exponent

/-- Divides by `10 ^ exponent` in steps of at most `10 ^ 308`; `fuel` steps are enough, because
three of them bring any significand to zero. -/
def divideByPower : Nat → Float → Nat → Float
  | 0, f, _ => f
  | fuel + 1, f, exponent =>
      if exponent ≤ 308 then f / powerOfTen exponent
      else if f == 0 then f
      else divideByPower fuel (f / powerOfTen 308) (exponent - 308)

/-- `significand * 10 ^ exponent`, unless that is beyond the largest float. -/
def scale? (significand : Nat) (exponent : Int) : Option Float :=
  let f := (UInt64.ofNat significand).toFloat
  if exponent < 0 then some (divideByPower 4 f exponent.natAbs)
  else if exponent ≤ 308 then
    let scaled := f * powerOfTen exponent.toNat
    if scaled.isInf then none else some scaled
  else if f == 0 then some f
  else none

/-- The float a literal stands for; there is none beyond the largest float. -/
def float? (n : Numeral) : Option Float :=
  let (whole, moved) := gather 0 n.whole
  let (significand, dropped) := gather whole n.fraction
  let start : Int := moved.length - ((n.fraction.length : Int) - dropped.length)
  let magnitude? :=
    match n.exponent with
    | none => scale? significand start
    | some (negative, digits) =>
        let written := Nat.ofDigitChars 10 digits 0
        if written < 1 <<< 31 then
          scale? significand (if negative then start - written else start + written)
        else if significand = 0 ∨ negative then some 0
        else none
  magnitude?.map fun magnitude => if n.negative then -magnitude else magnitude

/-- Floats are written with an exponent from `1e16` on and below `1e-5`; the exponent has a sign
and no padding. -/
def layout : NumberLayout :=
  { tie := .even, lowest := -4, highest := 16, exponentWidth := 1 }

/-- The literal of a finite float. -/
def ofFloat? (x : Float) : Option Numeral :=
  match Binary64.ofFloat x with
  | .finite negative significand exponent =>
      (scan (layout.finite negative significand exponent)).map (·.1)
  | _ => none

end Numeral

end BlockVM.Json

namespace BlockVM

/-- A JSON document. Objects keep all their fields in the order in which they are written. A
string literal may hold an escape for half a surrogate pair; it then has no text. -/
inductive Json where
  | null
  | bool (value : Bool)
  | number (numeral : Json.Numeral)
  | string (text : Option String)
  | array (items : List Json)
  | object (fields : List (Option String × Json))
deriving Inhabited

namespace Json

/-- A string with its text. -/
abbrev text (s : String) : Json := .string (some s)

/-- An object with the given names. -/
def record (fields : List (String × Json)) : Json :=
  .object (fields.map fun (name, value) => (some name, value))

end Json

end BlockVM
