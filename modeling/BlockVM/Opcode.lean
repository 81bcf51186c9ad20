import BlockVM.Operator

namespace BlockVM

/-! The instruction set: an opcode is one byte, and from `Opcode.firstWithOperand` on an operand
of two bytes follows it, low byte first. -/

inductive Opcode where
  | popTop
  | rotTwo
  | rotThree
  | dupTop
  | dupTopTwo
  | nop
  | unary (operator : UnaryOperator)
  | binary (operator : BinaryOperator)
  | inplace (operator : BinaryOperator)
  | binarySubscr
  | storeSubscr
  | getIter
  | printExpr
  | breakLoop
  | returnValue
  | yieldValue
  | popBlock
  | endFinally
  | popExcept
  | storeName
  | deleteName
  | unpackSequence
  | forIter
  | storeGlobal
  | deleteGlobal
  | loadConst
  | loadName
  | buildTuple
  | buildList
  | loadAttr
  | compareOp
  | jumpForward
  | jumpIfFalseOrPop
  | jumpIfTrueOrPop
  | jumpAbsolute
  | popJumpIfFalse
  | popJumpIfTrue
  | loadGlobal
  | continueLoop
  | setupLoop
  | setupExcept
  | setupFinally
  | loadFast
  | storeFast
  | deleteFast
  | raiseVarargs
  | callFunction
  | makeFunction
  | loadClosure
  | loadDeref
  | listAppend
deriving Repr, DecidableEq, Inhabited

/-- How an operand is resolved. -/
inductive OperandClass where
  /-- No operand follows the opcode. -/
  | none
  /-- An index into the constants. -/
  | const
  /-- An index into the names. -/
  | name
  /-- An index into the local slots. -/
  | slot
  /-- A distance from the following instruction. -/
  | jumpRelative
  /-- An offset in the instruction stream. -/
  | jumpAbsolute
  /-- The number itself. -/
  | int
deriving Repr, DecidableEq, Inhabited

namespace OperandClass

def label : OperandClass → String
  | .none => "None"
  | .const => "Const"
  | .name => "Name"
  | .slot => "Local"
  | .jumpRelative => "JumpRelative"
  | .jumpAbsolute => "JumpAbsolute"
  | .int => "Int"

def isJump : OperandClass → Bool
  | .jumpRelative | .jumpAbsolute => true
  | _ => false

end OperandClass

namespace Opcode

/-- The first byte whose opcode carries an operand. -/
def firstWithOperand : Nat := 90

def ofNat? : Nat → Option Opcode
  | 1 => some .popTop
  | 2 => some .rotTwo
  | 3 => some .rotThree
  | 4 => some .dupTop
  | 5 => some .dupTopTwo
  | 9 => some .nop
  | 10 => some (.unary .positive)
  | 11 => some (.unary .negative)
  | 12 => some (.unary .not)
  | 15 => some (.unary .invert)
  | 19 => some (.binary .power)
  | 20 => some (.binary .multiply)
  | 22 => some (.binary .modulo)
  | 23 => some (.binary .add)
  | 24 => some (.binary .subtract)
  | 25 => some .binarySubscr
  | 26 => some (.binary .floorDivide)
  | 27 => some (.binary .trueDivide)
  | 28 => some (.inplace .floorDivide)
  | 29 => some (.inplace .trueDivide)
  | 55 => some (.inplace .add)
  | 56 => some (.inplace .subtract)
  | 57 => some (.inplace .multiply)
  | 59 => some (.inplace .modulo)
  | 60 => some .storeSubscr
  | 62 => some (.binary .shiftLeft)
  | 63 => some (.binary .shiftRight)
  | 64 => some (.binary .and)
  | 65 => some (.binary .xor)
  | 66 => some (.binary .or)
  | 67 => some (.inplace .power)
  | 68 => some .getIter
  | 70 => some .printExpr
  | 75 => some (.inplace .shiftLeft)
  | 76 => some (.inplace .shiftRight)
  | 77 => some (.inplace .and)
  | 78 => some (.inplace .xor)
  | 79 => some (.inplace .or)
  | 80 => some .breakLoop
  | 83 => some .returnValue
  | 86 => some .yieldValue
  | 87 => some .popBlock
  | 88 => some .endFinally
  | 89 => some .popExcept
  | 90 => some .storeName
  | 91 => some .deleteName
  | 92 => some .unpackSequence
  | 93 => some .forIter
  | 97 => some .storeGlobal
  | 98 => some .deleteGlobal
  | 100 => some .loadConst
  | 101 => some .loadName
  | 102 => some .buildTuple
  | 103 => some .buildList
  | 106 => some .loadAttr
  | 107 => some .compareOp
  | 110 => some .jumpForward
  | 111 => some .jumpIfFalseOrPop
  | 112 => some .jumpIfTrueOrPop
  | 113 => some .jumpAbsolute
  | 114 => some .popJumpIfFalse
  | 115 => some .popJumpIfTrue
  | 116 => some .loadGlobal
  | 119 => some .continueLoop
  | 120 => some .setupLoop
  | 121 => some .setupExcept
  | 122 => some .setupFinally
  | 124 => some .loadFast
  | 125 => some .storeFast
  | 126 => some .deleteFast
  | 130 => some .raiseVarargs
  | 131 => some .callFunction
  | 132 => some .makeFunction
  | 135 => some .loadClosure
  | 136 => some .loadDeref
  | 145 => some .listAppend
  | _ => none

def toNat : Opcode → Nat
  | .popTop => 1
  | .rotTwo => 2
  | .rotThree => 3
  | .dupTop => 4
  | .dupTopTwo => 5
  | .nop => 9
  | .unary .positive => 10
  | .unary .negative => 11
  | .unary .not => 12
  | .unary .invert => 15
  | .binary .power => 19
  | .binary .multiply => 20
  | .binary .modulo => 22
  | .binary .add => 23
  | .binary .subtract => 24
  | .binarySubscr => 25
  | .binary .floorDivide => 26
  | .binary .trueDivide => 27
  | .inplace .floorDivide => 28
  | .inplace .trueDivide => 29
  | .inplace .add => 55
  | .inplace .subtract => 56
  | .inplace .multiply => 57
  | .inplace .modulo => 59
  | .storeSubscr => 60
  | .binary .shiftLeft => 62
  | .binary .shiftRight => 63
  | .binary .and => 64
  | .binary .xor => 65
  | .binary .or => 66
  | .inplace .power => 67
  | .getIter => 68
  | .printExpr => 70
  | .inplace .shiftLeft => 75
  | .inplace .shiftRight => 76
  | .inplace .and => 77
  | .inplace .xor => 78
  | .inplace .or => 79
  | .breakLoop => 80
  | .returnValue => 83
  | .yieldValue => 86
  | .popBlock => 87
  | .endFinally => 88
  | .popExcept => 89
  | .storeName => 90
  | .deleteName => 91
  | .unpackSequence => 92
  | .forIter => 93
  | .storeGlobal => 97
  | .deleteGlobal => 98
  | .loadConst => 100
  | .loadName => 101
  | .buildTuple => 102
  | .buildList => 103
  | .loadAttr => 106
  | .compareOp => 107
  | .jumpForward => 110
  | .jumpIfFalseOrPop => 111
  | .jumpIfTrueOrPop => 112
  | .jumpAbsolute => 113
  | .popJumpIfFalse => 114
  | .popJumpIfTrue => 115
  | .loadGlobal => 116
  | .continueLoop => 119
  | .setupLoop => 120
  | .setupExcept => 121
  | .setupFinally => 122
  | .loadFast => 124
  | .storeFast => 125
  | .deleteFast => 126
  | .raiseVarargs => 130
  | .callFunction => 131
  | .makeFunction => 132
  | .loadClosure => 135
  | .loadDeref => 136
  | .listAppend => 145

def ofByte? (byte : UInt8) : Option Opcode :=
  ofNat? byte.toNat

def toByte (op : Opcode) : UInt8 :=
  UInt8.ofNat op.toNat

theorem ofNat?_toNat (op : Opcode) : ofNat? op.toNat = some op := by
  cases op with
  | unary operator => cases operator <;> rfl
  | binary operator => cases operator <;> rfl
  | inplace operator => cases operator <;> rfl
  | _ => rfl

theorem toNat_lt (op : Opcode) : op.toNat < 256 := by
  cases op with
  | unary operator => cases operator <;> decide
  | binary operator => cases operator <;> decide
  | inplace operator => cases operator <;> decide
  | _ => decide

theorem ofByte?_toByte (op : Opcode) : ofByte? op.toByte = some op := by
  simp [ofByte?, toByte, Nat.mod_eq_of_lt (toNat_lt op), ofNat?_toNat]

/-- Every opcode, in the order of the bytes. -/
def all : List Opcode :=
  (List.range 256).filterMap ofNat?

def hasOperand (op : Opcode) : Bool :=
  firstWithOperand ≤ op.toNat

def operandClass : Opcode → OperandClass
  | .loadConst => .const
  | .storeName | .deleteName | .storeGlobal | .deleteGlobal | .loadName | .loadAttr
  | .loadGlobal => .name
  | .loadFast | .storeFast | .deleteFast => .slot
  | .jumpForward | .forIter | .setupLoop | .setupExcept | .setupFinally => .jumpRelative
  | .jumpIfFalseOrPop | .jumpIfTrueOrPop | .jumpAbsolute | .popJumpIfFalse | .popJumpIfTrue
  | .continueLoop => .jumpAbsolute
  | .unpackSequence | .buildTuple | .buildList | .compareOp | .raiseVarargs | .callFunction
  | .makeFunction | .loadClosure | .loadDeref | .listAppend => .int
  | _ => .none

theorem hasOperand_eq (op : Opcode) : op.hasOperand = (op.operandClass != .none) := by
  cases op with
  | unary operator => cases operator <;> rfl
  | binary operator => cases operator <;> rfl
  | inplace operator => cases operator <;> rfl
  | _ => rfl

def mnemonic : Opcode → String
  | .popTop => "POP_TOP"
  | .rotTwo => "ROT_TWO"
  | .rotThree => "ROT_THREE"
  | .dupTop => "DUP_TOP"
  | .dupTopTwo => "DUP_TOP_TWO"
  | .nop => "NOP"
  | .unary operator => "UNARY_" ++ operator.name
  | .binary operator => "BINARY_" ++ operator.name
  | .inplace operator => "INPLACE_" ++ operator.name
  | .binarySubscr => "BINARY_SUBSCR"
  | .storeSubscr => "STORE_SUBSCR"
  | .getIter => "GET_ITER"
  | .printExpr => "PRINT_EXPR"
  | .breakLoop => "BREAK_LOOP"
  | .returnValue => "RETURN_VALUE"
  | .yieldValue => "YIELD_VALUE"
  | .popBlock => "POP_BLOCK"
  | .endFinally => "END_FINALLY"
  | .popExcept => "POP_EXCEPT"
  | .storeName => "STORE_NAME"
  | .deleteName => "DELETE_NAME"
  | .unpackSequence => "UNPACK_SEQUENCE"
  | .forIter => "FOR_ITER"
  | .storeGlobal => "STORE_GLOBAL"
  | .deleteGlobal => "DELETE_GLOBAL"
  | .loadConst => "LOAD_CONST"
  | .loadName => "LOAD_NAME"
  | .buildTuple => "BUILD_TUPLE"
  | .buildList => "BUILD_LIST"
  | .loadAttr => "LOAD_ATTR"
  | .compareOp => "COMPARE_OP"
  | .jumpForward => "JUMP_FORWARD"
  | .jumpIfFalseOrPop => "JUMP_IF_FALSE_OR_POP"
  | .jumpIfTrueOrPop => "JUMP_IF_TRUE_OR_POP"
  | .jumpAbsolute => "JUMP_ABSOLUTE"
  | .popJumpIfFalse => "POP_JUMP_IF_FALSE"
  | .popJumpIfTrue => "POP_JUMP_IF_TRUE"
  | .loadGlobal => "LOAD_GLOBAL"
  | .continueLoop => "CONTINUE_LOOP"
  | .setupLoop => "SETUP_LOOP"
  | .setupExcept => "SETUP_EXCEPT"
  | .setupFinally => "SETUP_FINALLY"
  | .loadFast => "LOAD_FAST"
  | .storeFast => "STORE_FAST"
  | .deleteFast => "DELETE_FAST"
  | .raiseVarargs => "RAISE_VARARGS"
  | .callFunction => "CALL_FUNCTION"
  | .makeFunction => "MAKE_FUNCTION"
  | .loadClosure => "LOAD_CLOSURE"
  | .loadDeref => "LOAD_DEREF"
  | .listAppend => "LIST_APPEND"

def ofMnemonic? (mnemonic : String) : Option Opcode :=
  all.find? (·.mnemonic == mnemonic)

end Opcode

end BlockVM
