import BlockVM.Text.Basic
import BlockVM.Word

namespace BlockVM.Binary64

/-- `coefficient * 10 ^ scale` as the nearest float. Beyond the range of floats the result is
zero or infinite, and the power is never formed. -/
def ofDecimal (coefficient : Nat) (scale : Int) : Float :=
  if coefficient = 0 then 0
  else
    let point := (Nat.toDigits 10 coefficient).length + scale
    if point < -400 then 0
    else if 400 < point then Float.ofBits 0x7ff0000000000000
    else Float.ofScientific coefficient (scale < 0) scale.natAbs

/-- Digits, optionally a point and digits, optionally an exponent; at least one digit stands
before or behind the point. -/
def readUnsigned? (text : List Char) : Option Float :=
  let whole := text.takeWhile Char.isDigit
  let afterWhole := text.dropWhile Char.isDigit
  let (fraction, afterFraction) :=
    match afterWhole with
    | '.' :: rest => (rest.takeWhile Char.isDigit, rest.dropWhile Char.isDigit)
    | rest => ([], rest)
  if whole = [] ∧ fraction = [] then none
  else
    let coefficient := Nat.ofDigitChars 10 (whole ++ fraction) 0
    match afterFraction with
    | [] => some (ofDecimal coefficient (-fraction.length))
    | mark :: rest =>
        if mark = 'e' ∨ mark = 'E' then
          let (negative, digits) :=
            match rest with
            | '-' :: digits => (true, digits)
            | '+' :: digits => (false, digits)
            | digits => (false, digits)
          if digits ≠ [] ∧ digits.all Char.isDigit then
            let magnitude : Int := Nat.ofDigitChars 10 digits 0
            some (ofDecimal coefficient ((if negative then -magnitude else magnitude) - fraction.length))
          else none
        else none

def infinity : Float := Float.ofBits 0x7ff0000000000000

def quietNaN : Float := Float.ofBits 0x7ff8000000000000

/-- A decimal number or one of the words `inf`, `infinity` and `nan` in any case, with an
optional sign and blanks around it. -/
def read? (text : String) : Option Float :=
  let trimmed := Text.trimBlanks text.toList
  let (negative, body) :=
    match trimmed with
    | '-' :: rest => (true, rest)
    | '+' :: rest => (false, rest)
    | rest => (false, rest)
  let word := String.ofList (body.map Char.toLower)
  let magnitude? :=
    if word = "inf" ∨ word = "infinity" then some infinity
    else if word = "nan" then some quietNaN
    else readUnsigned? body
  magnitude?.map fun magnitude => if negative then -magnitude else magnitude

end BlockVM.Binary64
