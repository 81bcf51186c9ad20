import BlockVM.Json.Basic

namespace BlockVM.Json

/-! Writing JSON with one item or field a line and two blanks for each level. -/

def hexChar (digit : Nat) : Char :=
  Nat.digitChar digit

/-- Quotes, backslashes and control characters are escaped. -/
def escapeChar (c : Char) : List Char :=
  if c = '"' then ['\\', '"']
  else if c = '\\' then ['\\', '\\']
  else if c = '\x08' then ['\\', 'b']
  else if c = '\x0c' then ['\\', 'f']
  else if c = '\n' then ['\\', 'n']
  else if c = '\r' then ['\\', 'r']
  else if c = '\t' then ['\\', 't']
  else if c < ' ' then ['\\', 'u', '0', '0', hexChar (c.toNat / 16), hexChar (c.toNat % 16)]
  else [c]

def quote (text : String) : List Char :=
  '"' :: text.toList.flatMap escapeChar ++ ['"']

def newline (level : Nat) : List Char :=
  '\n' :: List.replicate (2 * level) ' '

mutual

def prettyAt (level : Nat) : Json → List Char
  | .null => "null".toList
  | .bool true => "true".toList
  | .bool false => "false".toList
  | .number numeral => numeral.render
  | .string text => quote (text.getD "")
  | .array [] => ['[', ']']
  | .array (item :: items) =>
      '[' :: newline (level + 1) ++ prettyAt (level + 1) item ++ prettyItems (level + 1) items ++
        newline level ++ [']']
  | .object [] => ['\x7b', '\x7d']
  | .object ((name, value) :: fields) =>
      '\x7b' :: newline (level + 1) ++ quote (name.getD "") ++ [':', ' '] ++
        prettyAt (level + 1) value ++ prettyFields (level + 1) fields ++ newline level ++ ['\x7d']

def prettyItems (level : Nat) : List Json → List Char
  | [] => []
  | item :: items => ',' :: newline level ++ prettyAt level item ++ prettyItems level items

def prettyFields (level : Nat) : List (Option String × Json) → List Char
  | [] => []
  | (name, value) :: fields =>
      ',' :: newline level ++ quote (name.getD "") ++ [':', ' '] ++ prettyAt level value ++
        prettyFields level fields

end

/-- The text of a document. This stands for the library writer of `serde_json`. -/
def pretty (document : Json) : String :=
  String.ofList (prettyAt 0 document)

end BlockVM.Json
