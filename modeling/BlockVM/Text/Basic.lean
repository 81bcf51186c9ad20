namespace BlockVM.Text

/-- Blanks on the left up to `width` characters; a longer text stays as it is. -/
def alignRight (width : Nat) (text : String) : String :=
  "".pushn ' ' (width - text.length) ++ text

/-- Blanks on the right up to `width` characters; a longer text stays as it is. -/
def alignLeft (width : Nat) (text : String) : String :=
  text.pushn ' ' (width - text.length)

/-- Characters with the Unicode property `White_Space`. -/
def isBlank (c : Char) : Bool :=
  let n := c.toNat
  (0x09 ≤ n && n ≤ 0x0d) || n == 0x20 || n == 0x85 || n == 0xa0 || n == 0x1680 ||
    (0x2000 ≤ n && n ≤ 0x200a) || n == 0x2028 || n == 0x2029 || n == 0x202f ||
    n == 0x205f || n == 0x3000

/-- Drops the blanks at both ends. -/
def trimBlanks (text : List Char) : List Char :=
  ((text.dropWhile isBlank).reverse.dropWhile isBlank).reverse

/-- What is left of a text without its first `count` bytes, if a character ends there. -/
def dropBytes? (count : Nat) (text : String) : Option String.Slice :=
  (text.pos? ⟨count⟩).map text.sliceFrom

theorem dropBytes?_append (before after : String) :
    ∃ rest, dropBytes? before.utf8ByteSize (before ++ after) = some rest ∧ rest.copy = after := by
  have valid : String.Pos.Raw.IsValid (before ++ after) ⟨before.utf8ByteSize⟩ :=
    String.Pos.Raw.isValid_iff_exists_append.mpr ⟨before, after, rfl, rfl⟩
  have splits : ((before ++ after).pos _ valid).Splits before after := ⟨rfl, rfl⟩
  refine ⟨_, ?_, splits.copy_sliceFrom_eq⟩
  simp [dropBytes?, String.pos?, String.Slice.pos?, valid]
  rfl

namespace Quoted

/-- The quote around a text that is shown: an apostrophe, unless the text holds apostrophes and no double quote. -/
def mark (text : List Char) : Char :=
  if '\'' ∈ text && !('"' ∈ text) then '"' else '\''

/-- Backslash, line feed, carriage return, tab and the quote itself are escaped. -/
def encodeChar (mark c : Char) : List Char :=
  if c = '\\' then ['\\', '\\']
  else if c = '\n' then ['\\', 'n']
  else if c = '\r' then ['\\', 'r']
  else if c = '\t' then ['\\', 't']
  else if c = mark then ['\\', c]
  else [c]

def encode (text : List Char) : List Char :=
  let quote := mark text
  quote :: text.flatMap (encodeChar quote) ++ [quote]

def render (text : String) : String :=
  String.ofList (encode text.toList)

end Quoted

end BlockVM.Text
