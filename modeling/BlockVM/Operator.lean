namespace BlockVM

inductive UnaryOperator where
  | positive
  | negative
  | not
  | invert
deriving Repr, DecidableEq, Inhabited

namespace UnaryOperator

def all : List UnaryOperator := [.positive, .negative, .not, .invert]

def name : UnaryOperator → String
  | .positive => "POSITIVE"
  | .negative => "NEGATIVE"
  | .not => "NOT"
  | .invert => "INVERT"

/-- The operator as error messages show it. -/
def symbol : UnaryOperator → String
  | .positive => "unary +"
  | .negative => "unary -"
  | .not => "not"
  | .invert => "unary ~"

def ofName? (name : String) : Option UnaryOperator :=
  all.find? (·.name == name)

end UnaryOperator

inductive BinaryOperator where
  | power
  | multiply
  | modulo
  | add
  | subtract
  | floorDivide
  | trueDivide
  | shiftLeft
  | shiftRight
  | and
  | xor
  | or
deriving Repr, DecidableEq, Inhabited

namespace BinaryOperator

def all : List BinaryOperator :=
  [.power, .multiply, .modulo, .add, .subtract, .floorDivide, .trueDivide, .shiftLeft, .shiftRight,
    .and, .xor, .or]

def name : BinaryOperator → String
  | .power => "POWER"
  | .multiply => "MULTIPLY"
  | .modulo => "MODULO"
  | .add => "ADD"
  | .subtract => "SUBTRACT"
  | .floorDivide => "FLOOR_DIVIDE"
  | .trueDivide => "TRUE_DIVIDE"
  | .shiftLeft => "LSHIFT"
  | .shiftRight => "RSHIFT"
  | .and => "AND"
  | .xor => "XOR"
  | .or => "OR"

/-- The operator as error messages show it. -/
def symbol : BinaryOperator → String
  | .power => "** or pow()"
  | .multiply => "*"
  | .modulo => "%"
  | .add => "+"
  | .subtract => "-"
  | .floorDivide => "//"
  | .trueDivide => "/"
  | .shiftLeft => "<<"
  | .shiftRight => ">>"
  | .and => "&"
  | .xor => "^"
  | .or => "|"

def ofName? (name : String) : Option BinaryOperator :=
  all.find? (·.name == name)

end BinaryOperator

/-- Comparisons, in the order of their selectors. -/
inductive Comparison where
  | less
  | lessEqual
  | equal
  | notEqual
  | greater
  | greaterEqual
  | member
  | notMember
  | same
  | notSame
  | exceptionMatch
deriving Repr, DecidableEq, Inhabited

namespace Comparison

def all : List Comparison :=
  [.less, .lessEqual, .equal, .notEqual, .greater, .greaterEqual, .member, .notMember, .same,
    .notSame, .exceptionMatch]

def ofSelector? (selector : Nat) : Option Comparison :=
  all[selector]?

def symbol : Comparison → String
  | .less => "<"
  | .lessEqual => "<="
  | .equal => "=="
  | .notEqual => "!="
  | .greater => ">"
  | .greaterEqual => ">="
  | .member => "in"
  | .notMember => "not in"
  | .same => "is"
  | .notSame => "is not"
  | .exceptionMatch => "exception match"

end Comparison

end BlockVM
