import BlockVM.Json.Basic

namespace BlockVM.Json

def isBlank (c : Char) : Bool :=
  c == ' ' || c == '\n' || c == '\t' || c == '\r'

def skipBlanks (text : List Char) : List Char :=
  text.dropWhile isBlank

def hexDigit? (c : Char) : Option Nat :=
  if '0' ≤ c ∧ c ≤ '9' then some (c.toNat - '0'.toNat)
  else if 'a' ≤ c ∧ c ≤ 'f' then some (c.toNat - 'a'.toNat + 10)
  else if 'A' ≤ c ∧ c ≤ 'F' then some (c.toNat - 'A'.toNat + 10)
  else none

/-- Four hexadecimal digits. -/
def codeUnit? : List Char → Option (Nat × List Char)
  | a :: b :: c :: d :: rest => do
      let a ← hexDigit? a
      let b ← hexDigit? b
      let c ← hexDigit? c
      let d ← hexDigit? d
      return (((a * 16 + b) * 16 + c) * 16 + d, rest)
  | _ => none

def shortEscape? : Char → Option Char
  | '"' => some '"'
  | '\\' => some '\\'
  | '/' => some '/'
  | 'b' => some '\x08'
  | 'f' => some '\x0c'
  | 'n' => some '\n'
  | 'r' => some '\r'
  | 't' => some '\t'
  | _ => none

def isHighSurrogate (unit : Nat) : Bool :=
  0xd800 ≤ unit && unit < 0xdc00

def isLowSurrogate (unit : Nat) : Bool :=
  0xdc00 ≤ unit && unit < 0xe000

def joinSurrogates (high low : Nat) : Char :=
  Char.ofNat (0x10000 + (high - 0xd800) * 0x400 + (low - 0xdc00))

/-- Characters read so far, last first; none once half a surrogate pair was met. -/
abbrev Collected := Option (List Char)

def Collected.push (collected : Collected) (c : Char) : Collected :=
  collected.map (c :: ·)

/-- Reads a string behind its opening quote, with a step for each character or escape. -/
def scanString : Nat → Collected → List Char → Option (Option String × List Char)
  | 0, _, _ => none
  | _ + 1, _, [] => none
  | _ + 1, collected, '"' :: rest => some (collected.map fun chars => String.ofList chars.reverse, rest)
  | fuel + 1, collected, '\\' :: 'u' :: rest =>
      match codeUnit? rest with
      | none => none
      | some (unit, after) =>
          if isHighSurrogate unit then
            match after with
            | '\\' :: 'u' :: second =>
                match codeUnit? second with
                | none => none
                | some (low, behind) =>
                    if isLowSurrogate low then
                      scanString fuel (collected.push (joinSurrogates unit low)) behind
                    else scanString fuel none after
            | _ => scanString fuel none after
          else if isLowSurrogate unit then scanString fuel none after
          else scanString fuel (collected.push (Char.ofNat unit)) after
  | fuel + 1, collected, '\\' :: c :: rest =>
      match shortEscape? c with
      | none => none
      | some escaped => scanString fuel (collected.push escaped) rest
  | fuel + 1, collected, c :: rest =>
      if c = '\\' ∨ c < ' ' then none else scanString fuel (collected.push c) rest

def scanText (text : List Char) : Option (Option String × List Char) :=
  scanString (text.length + 1) (some []) text

mutual

/-- Reads a value at the front of a text, with a step for each value and each separator. -/
def scanValue : Nat → List Char → Option (Json × List Char)
  | 0, _ => none
  | fuel + 1, text =>
      match skipBlanks text with
      | 'n' :: 'u' :: 'l' :: 'l' :: rest => some (.null, rest)
      | 't' :: 'r' :: 'u' :: 'e' :: rest => some (.bool true, rest)
      | 'f' :: 'a' :: 'l' :: 's' :: 'e' :: rest => some (.bool false, rest)
      | '"' :: rest => (scanText rest).map fun (content, after) => (.string content, after)
      | '[' :: rest =>
          match skipBlanks rest with
          | ']' :: after => some (.array [], after)
          | _ => scanItems fuel [] rest
      | '\x7b' :: rest =>
          match skipBlanks rest with
          | '\x7d' :: after => some (.object [], after)
          | _ => scanFields fuel [] rest
      | other => (Numeral.scan other).map fun (numeral, after) => (.number numeral, after)

/-- Reads items up to the end of an array; `items` are those before, last first. -/
def scanItems : Nat → List Json → List Char → Option (Json × List Char)
  | 0, _, _ => none
  | fuel + 1, items, text =>
      match scanValue fuel text with
      | none => none
      | some (item, rest) =>
          match skipBlanks rest with
          | ',' :: after => scanItems fuel (item :: items) after
          | ']' :: after => some (.array (item :: items).reverse, after)
          | _ => none

/-- Reads fields up to the end of an object; `fields` are those before, last first. -/
def scanFields : Nat → List (Option String × Json) → List Char → Option (Json × List Char)
  | 0, _, _ => none
  | fuel + 1, fields, text =>
      match skipBlanks text with
      | '"' :: rest =>
          match scanText rest with
          | none => none
          | some (name, afterName) =>
              match skipBlanks afterName with
              | ':' :: afterColon =>
                  match scanValue fuel afterColon with
                  | none => none
                  | some (value, afterValue) =>
                      match skipBlanks afterValue with
                      | ',' :: after => scanFields fuel ((name, value) :: fields) after
                      | '\x7d' :: after => some (.object ((name, value) :: fields).reverse, after)
                      | _ => none
              | _ => none
      | _ => none

end

/-- The document a whole text holds. This stands for the library reader of `serde_json`. What is granted of it
and of `pretty` is that it reads back what is written, which is `Legible.parse?_pretty` here. -/
def parse? (text : String) : Option Json :=
  let chars := text.toList
  match scanValue (2 * chars.length + 2) chars with
  | some (value, rest) => if (skipBlanks rest).isEmpty then some value else none
  | none => none

end BlockVM.Json
