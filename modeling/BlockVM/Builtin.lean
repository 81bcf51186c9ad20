namespace BlockVM

/-- The built-in functions. -/
inductive Builtin where
  | abs
  | bool
  | float
  | int
  | len
  | list
  | max
  | min
  | print
  | range
  | repr
  | str
  | sum
  | tuple
deriving Repr, DecidableEq, Inhabited

namespace Builtin

def all : List Builtin :=
  [.abs, .bool, .float, .int, .len, .list, .max, .min, .print, .range, .repr, .str, .sum, .tuple]

def name : Builtin → String
  | .abs => "abs"
  | .bool => "bool"
  | .float => "float"
  | .int => "int"
  | .len => "len"
  | .list => "list"
  | .max => "max"
  | .min => "min"
  | .print => "print"
  | .range => "range"
  | .repr => "repr"
  | .str => "str"
  | .sum => "sum"
  | .tuple => "tuple"

def ofName? (name : String) : Option Builtin :=
  all.find? (·.name == name)

end Builtin

end BlockVM
