namespace StackCode

/-!
# The opcode catalog

The closed set of instructions of the machine.

* `Opcode` — the opcodes; `Opcode.byte`, `Opcode.name`, `Opcode.operandClass` read the catalog.
* `Opcode.ofByte?`, `Opcode.ofName?` — look an opcode up.
* `Opcode.stackEffect` — the net change of the operand stack.
-/

/-- What an operand stands for. -/
inductive OperandClass where
  | none
  /-- A plain integer. -/
  | int
  /-- An index into the constant table. -/
  | const
  /-- An index into the name table. -/
  | name
  /-- An index into the table of local variables. -/
  | local
  /-- An index into the cell variables followed by the free variables. -/
  | free
  /-- The byte offset of the target. -/
  | jumpAbs
  /-- The distance in bytes from the end of the instruction to the target. -/
  | jumpRel
  deriving DecidableEq, Repr

namespace OperandClass

/-- The class is that of jumps. -/
def isJump : OperandClass → Bool
  | jumpAbs | jumpRel => true
  | _ => false

/-- The class as messages name it. -/
def label : OperandClass → String
  | none => "None"
  | int => "Int"
  | const => "Const"
  | name => "Name"
  | .local => "Local"
  | free => "Free"
  | jumpAbs => "JumpAbs"
  | jumpRel => "JumpRel"

/-- All classes of operands. -/
def all : List OperandClass := [none, int, const, name, .local, free, jumpAbs, jumpRel]

/-- The class of a label. -/
def ofLabel? (label : String) : Option OperandClass := all.find? (·.label = label)

end OperandClass

/-- The instructions of the machine, in byte order. -/
inductive Opcode where
  | popTop | rotTwo | rotThree | dupTop | dupTopTwo | nop | unaryPositive | unaryNegative
  | unaryNot | unaryInvert | binaryMatrixMultiply | inplaceMatrixMultiply | binaryPower
  | binaryMultiply | binaryModulo | binaryAdd | binarySubtract | binarySubscr | binaryFloorDivide
  | binaryTrueDivide | inplaceFloorDivide | inplaceTrueDivide | getAiter | getAnext
  | beforeAsyncWith | inplaceAdd | inplaceSubtract | inplaceMultiply | inplaceModulo
  | storeSubscr | deleteSubscr | binaryLshift | binaryRshift | binaryAnd | binaryXor | binaryOr
  | inplacePower | getIter | getYieldFromIter | printExpr | loadBuildClass | yieldFrom
  | getAwaitable | inplaceLshift | inplaceRshift | inplaceAnd | inplaceXor | inplaceOr
  | breakLoop | withCleanupStart | withCleanupFinish | returnValue | importStar
  | setupAnnotations | yieldValue | popBlock | endFinally | popExcept | storeName | deleteName
  | unpackSequence | forIter | unpackEx | storeAttr | deleteAttr | storeGlobal | deleteGlobal
  | loadConst | loadName | buildTuple | buildList | buildSet | buildMap | loadAttr | compareOp
  | importName | importFrom | jumpForward | jumpIfFalseOrPop | jumpIfTrueOrPop | jumpAbsolute
  | popJumpIfFalse | popJumpIfTrue | loadGlobal | continueLoop | setupLoop | setupExcept
  | setupFinally | loadFast | storeFast | deleteFast | storeAnnotation | raiseVarargs
  | callFunction | makeFunction | buildSlice | loadClosure | loadDeref | storeDeref | deleteDeref
  | callFunctionKw | callFunctionEx | setupWith | listAppend | setAdd | mapAdd | loadClassderef
  | buildListUnpack | buildMapUnpack | buildMapUnpackWithCall | buildTupleUnpack | buildSetUnpack
  | setupAsyncWith | formatValue | buildConstKeyMap | buildString | buildTupleUnpackWithCall
  deriving DecidableEq, Repr

/-- A byte or a name that the catalog does not hold. -/
inductive Opcode.LookupError where
  | byte (byte : UInt8)
  | name (name : String)
  deriving DecidableEq, Repr

def Opcode.LookupError.message : Opcode.LookupError → String
  | .byte b => s!"unknown opcode byte {b}"
  | .name n => s!"unknown opcode name `{n}`"

namespace Opcode

/-- Every opcode, in byte order. -/
def all : List Opcode :=
  [popTop, rotTwo, rotThree, dupTop, dupTopTwo, nop, unaryPositive, unaryNegative, unaryNot,
    unaryInvert, binaryMatrixMultiply, inplaceMatrixMultiply, binaryPower, binaryMultiply,
    binaryModulo, binaryAdd, binarySubtract, binarySubscr, binaryFloorDivide, binaryTrueDivide,
    inplaceFloorDivide, inplaceTrueDivide, getAiter, getAnext, beforeAsyncWith, inplaceAdd,
    inplaceSubtract, inplaceMultiply, inplaceModulo, storeSubscr, deleteSubscr, binaryLshift,
    binaryRshift, binaryAnd, binaryXor, binaryOr, inplacePower, getIter, getYieldFromIter,
    printExpr, loadBuildClass, yieldFrom, getAwaitable, inplaceLshift, inplaceRshift, inplaceAnd,
    inplaceXor, inplaceOr, breakLoop, withCleanupStart, withCleanupFinish, returnValue,
    importStar, setupAnnotations, yieldValue, popBlock, endFinally, popExcept, storeName,
    deleteName, unpackSequence, forIter, unpackEx, storeAttr, deleteAttr, storeGlobal,
    deleteGlobal, loadConst, loadName, buildTuple, buildList, buildSet, buildMap, loadAttr,
    compareOp, importName, importFrom, jumpForward, jumpIfFalseOrPop, jumpIfTrueOrPop,
    jumpAbsolute, popJumpIfFalse, popJumpIfTrue, loadGlobal, continueLoop, setupLoop,
    setupExcept, setupFinally, loadFast, storeFast, deleteFast, storeAnnotation, raiseVarargs,
    callFunction, makeFunction, buildSlice, loadClosure, loadDeref, storeDeref, deleteDeref,
    callFunctionKw, callFunctionEx, setupWith, listAppend, setAdd, mapAdd, loadClassderef,
    buildListUnpack, buildMapUnpack, buildMapUnpackWithCall, buildTupleUnpack, buildSetUnpack,
    setupAsyncWith, formatValue, buildConstKeyMap, buildString, buildTupleUnpackWithCall]

/-- An opcode's byte, its name and the class of its operand. -/
def info : Opcode → UInt8 × String × OperandClass
  | popTop => (1, "POP_TOP", .none)
  | rotTwo => (2, "ROT_TWO", .none)
  | rotThree => (3, "ROT_THREE", .none)
  | dupTop => (4, "DUP_TOP", .none)
  | dupTopTwo => (5, "DUP_TOP_TWO", .none)
  | nop => (9, "NOP", .none)
  | unaryPositive => (10, "UNARY_POSITIVE", .none)
  | unaryNegative => (11, "UNARY_NEGATIVE", .none)
  | unaryNot => (12, "UNARY_NOT", .none)
  | unaryInvert => (15, "UNARY_INVERT", .none)
  | binaryMatrixMultiply => (16, "BINARY_MATRIX_MULTIPLY", .none)
  | inplaceMatrixMultiply => (17, "INPLACE_MATRIX_MULTIPLY", .none)
  | binaryPower => (19, "BINARY_POWER", .none)
  | binaryMultiply => (20, "BINARY_MULTIPLY", .none)
  | binaryModulo => (22, "BINARY_MODULO", .none)
  | binaryAdd => (23, "BINARY_ADD", .none)
  | binarySubtract => (24, "BINARY_SUBTRACT", .none)
  | binarySubscr => (25, "BINARY_SUBSCR", .none)
  | binaryFloorDivide => (26, "BINARY_FLOOR_DIVIDE", .none)
  | binaryTrueDivide => (27, "BINARY_TRUE_DIVIDE", .none)
  | inplaceFloorDivide => (28, "INPLACE_FLOOR_DIVIDE", .none)
  | inplaceTrueDivide => (29, "INPLACE_TRUE_DIVIDE", .none)
  | getAiter => (50, "GET_AITER", .none)
  | getAnext => (51, "GET_ANEXT", .none)
  | beforeAsyncWith => (52, "BEFORE_ASYNC_WITH", .none)
  | inplaceAdd => (55, "INPLACE_ADD", .none)
  | inplaceSubtract => (56, "INPLACE_SUBTRACT", .none)
  | inplaceMultiply => (57, "INPLACE_MULTIPLY", .none)
  | inplaceModulo => (59, "INPLACE_MODULO", .none)
  | storeSubscr => (60, "STORE_SUBSCR", .none)
  | deleteSubscr => (61, "DELETE_SUBSCR", .none)
  | binaryLshift => (62, "BINARY_LSHIFT", .none)
  | binaryRshift => (63, "BINARY_RSHIFT", .none)
  | binaryAnd => (64, "BINARY_AND", .none)
  | binaryXor => (65, "BINARY_XOR", .none)
  | binaryOr => (66, "BINARY_OR", .none)
  | inplacePower => (67, "INPLACE_POWER", .none)
  | getIter => (68, "GET_ITER", .none)
  | getYieldFromIter => (69, "GET_YIELD_FROM_ITER", .none)
  | printExpr => (70, "PRINT_EXPR", .none)
  | loadBuildClass => (71, "LOAD_BUILD_CLASS", .none)
  | yieldFrom => (72, "YIELD_FROM", .none)
  | getAwaitable => (73, "GET_AWAITABLE", .none)
  | inplaceLshift => (75, "INPLACE_LSHIFT", .none)
  | inplaceRshift => (76, "INPLACE_RSHIFT", .none)
  | inplaceAnd => (77, "INPLACE_AND", .none)
  | inplaceXor => (78, "INPLACE_XOR", .none)
  | inplaceOr => (79, "INPLACE_OR", .none)
  | breakLoop => (80, "BREAK_LOOP", .none)
  | withCleanupStart => (81, "WITH_CLEANUP_START", .none)
  | withCleanupFinish => (82, "WITH_CLEANUP_FINISH", .none)
  | returnValue => (83, "RETURN_VALUE", .none)
  | importStar => (84, "IMPORT_STAR", .none)
  | setupAnnotations => (85, "SETUP_ANNOTATIONS", .none)
  | yieldValue => (86, "YIELD_VALUE", .none)
  | popBlock => (87, "POP_BLOCK", .none)
  | endFinally => (88, "END_FINALLY", .none)
  | popExcept => (89, "POP_EXCEPT", .none)
  | storeName => (90, "STORE_NAME", .name)
  | deleteName => (91, "DELETE_NAME", .name)
  | unpackSequence => (92, "UNPACK_SEQUENCE", .int)
  | forIter => (93, "FOR_ITER", .jumpRel)
  | unpackEx => (94, "UNPACK_EX", .int)
  | storeAttr => (95, "STORE_ATTR", .name)
  | deleteAttr => (96, "DELETE_ATTR", .name)
  | storeGlobal => (97, "STORE_GLOBAL", .name)
  | deleteGlobal => (98, "DELETE_GLOBAL", .name)
  | loadConst => (100, "LOAD_CONST", .const)
  | loadName => (101, "LOAD_NAME", .name)
  | buildTuple => (102, "BUILD_TUPLE", .int)
  | buildList => (103, "BUILD_LIST", .int)
  | buildSet => (104, "BUILD_SET", .int)
  | buildMap => (105, "BUILD_MAP", .int)
  | loadAttr => (106, "LOAD_ATTR", .name)
  | compareOp => (107, "COMPARE_OP", .int)
  | importName => (108, "IMPORT_NAME", .name)
  | importFrom => (109, "IMPORT_FROM", .name)
  | jumpForward => (110, "JUMP_FORWARD", .jumpRel)
  | jumpIfFalseOrPop => (111, "JUMP_IF_FALSE_OR_POP", .jumpAbs)
  | jumpIfTrueOrPop => (112, "JUMP_IF_TRUE_OR_POP", .jumpAbs)
  | jumpAbsolute => (113, "JUMP_ABSOLUTE", .jumpAbs)
  | popJumpIfFalse => (114, "POP_JUMP_IF_FALSE", .jumpAbs)
  | popJumpIfTrue => (115, "POP_JUMP_IF_TRUE", .jumpAbs)
  | loadGlobal => (116, "LOAD_GLOBAL", .name)
  | continueLoop => (119, "CONTINUE_LOOP", .jumpAbs)
  | setupLoop => (120, "SETUP_LOOP", .jumpRel)
  | setupExcept => (121, "SETUP_EXCEPT", .jumpRel)
  | setupFinally => (122, "SETUP_FINALLY", .jumpRel)
  | loadFast => (124, "LOAD_FAST", .local)
  | storeFast => (125, "STORE_FAST", .local)
  | deleteFast => (126, "DELETE_FAST", .local)
  | storeAnnotation => (127, "STORE_ANNOTATION", .name)
  | raiseVarargs => (130, "RAISE_VARARGS", .int)
  | callFunction => (131, "CALL_FUNCTION", .int)
  | makeFunction => (132, "MAKE_FUNCTION", .int)
  | buildSlice => (133, "BUILD_SLICE", .int)
  | loadClosure => (135, "LOAD_CLOSURE", .free)
  | loadDeref => (136, "LOAD_DEREF", .free)
  | storeDeref => (137, "STORE_DEREF", .free)
  | deleteDeref => (138, "DELETE_DEREF", .free)
  | callFunctionKw => (141, "CALL_FUNCTION_KW", .int)
  | callFunctionEx => (142, "CALL_FUNCTION_EX", .int)
  | setupWith => (143, "SETUP_WITH", .jumpRel)
  | listAppend => (145, "LIST_APPEND", .int)
  | setAdd => (146, "SET_ADD", .int)
  | mapAdd => (147, "MAP_ADD", .int)
  | loadClassderef => (148, "LOAD_CLASSDEREF", .free)
  | buildListUnpack => (149, "BUILD_LIST_UNPACK", .int)
  | buildMapUnpack => (150, "BUILD_MAP_UNPACK", .int)
  | buildMapUnpackWithCall => (151, "BUILD_MAP_UNPACK_WITH_CALL", .int)
  | buildTupleUnpack => (152, "BUILD_TUPLE_UNPACK", .int)
  | buildSetUnpack => (153, "BUILD_SET_UNPACK", .int)
  | setupAsyncWith => (154, "SETUP_ASYNC_WITH", .jumpRel)
  | formatValue => (155, "FORMAT_VALUE", .int)
  | buildConstKeyMap => (156, "BUILD_CONST_KEY_MAP", .int)
  | buildString => (157, "BUILD_STRING", .int)
  | buildTupleUnpackWithCall => (158, "BUILD_TUPLE_UNPACK_WITH_CALL", .int)

/-- The byte that stands for the opcode. -/
def byte (op : Opcode) : UInt8 := op.info.1

/-- The opcode's name. -/
def name (op : Opcode) : String := op.info.2.1

/-- The class of the opcode's operand. -/
def operandClass (op : Opcode) : OperandClass := op.info.2.2

/-- Opcodes from this byte on carry an operand. -/
def firstWithArg : UInt8 := 90

/-- Opcodes from `firstWithArg` on have an operand. -/
def hasArg (op : Opcode) : Bool := firstWithArg ≤ op.byte

/-- Just these opcodes have a class of operands. -/
theorem hasArg_iff (op : Opcode) : op.hasArg = true ↔ op.operandClass ≠ .none := by
  cases op <;> decide

/-- The opcode jumps. -/
def isJump (op : Opcode) : Bool := op.operandClass.isJump

/-- Makes the routine around it a generator. -/
def isYield (op : Opcode) : Bool := op = yieldValue || op = yieldFrom

/-- Addresses a cell or free variable. -/
def usesFree (op : Opcode) : Bool := op.operandClass = .free

/-- The opcode of a byte, if the byte stands for one. -/
def ofByte? (b : UInt8) : Except LookupError Opcode :=
  match all.find? (·.byte = b) with
  | some op => .ok op
  | none => .error (.byte b)

/-- The opcode of a name, if there is one. -/
def ofName? (name : String) : Except LookupError Opcode :=
  match all.find? (·.name = name) with
  | some op => .ok op
  | none => .error (.name name)

/-- The number of bits of `mask` that `arg` has, for a mask of one bit. -/
def bitOf (arg mask : UInt32) : Int := if arg &&& mask = 0 then 0 else 1

/-- The net change of the operand stack when the instruction falls through; a block set-up counts
    the room of its handler. -/
def stackEffect (op : Opcode) (arg : UInt32) : Int :=
  let n := arg.toInt32.toInt
  match op with
  | nop | rotTwo | rotThree | unaryPositive | unaryNegative | unaryNot | unaryInvert
  | getIter | getYieldFromIter | getAiter | getAwaitable | breakLoop | setupAnnotations
  | yieldValue | popBlock | popExcept | deleteName | deleteGlobal | deleteFast
  | deleteDeref | loadAttr | jumpForward | jumpAbsolute | jumpIfFalseOrPop
  | jumpIfTrueOrPop | continueLoop | setupLoop => 0
  | dupTop | loadBuildClass | getAnext | beforeAsyncWith | withCleanupStart | forIter
  | loadConst | loadName | loadGlobal | loadFast | loadClosure | loadDeref | loadClassderef
  | importFrom => 1
  | dupTopTwo => 2
  | popTop | binaryMatrixMultiply | inplaceMatrixMultiply | binaryPower | binaryMultiply
  | binaryModulo | binaryAdd | binarySubtract | binarySubscr | binaryFloorDivide
  | binaryTrueDivide | inplaceFloorDivide | inplaceTrueDivide | inplaceAdd
  | inplaceSubtract | inplaceMultiply | inplaceModulo | binaryLshift | binaryRshift
  | binaryAnd | binaryXor | binaryOr | inplacePower | inplaceLshift | inplaceRshift
  | inplaceAnd | inplaceXor | inplaceOr | printExpr | yieldFrom | withCleanupFinish
  | returnValue | importStar | endFinally | storeName | deleteAttr | storeGlobal
  | compareOp | importName | popJumpIfFalse | popJumpIfTrue | storeFast | storeDeref
  | storeAnnotation | listAppend | setAdd => -1
  | deleteSubscr | storeAttr | mapAdd => -2
  | storeSubscr => -3
  | setupExcept | setupFinally | setupAsyncWith => 6
  | setupWith => 7
  | unpackSequence => n - 1
  | unpackEx => n % 256 + n / 256
  | buildTuple | buildList | buildSet | buildString | buildListUnpack | buildTupleUnpack
  | buildTupleUnpackWithCall | buildSetUnpack | buildMapUnpack | buildMapUnpackWithCall => 1 - n
  | buildMap => 1 - 2 * n
  | buildConstKeyMap => -n
  | raiseVarargs | callFunction => -n
  | callFunctionKw => -n - 1
  | callFunctionEx => -1 - bitOf arg 1
  | makeFunction => -1 - bitOf arg 1 - bitOf arg 2 - bitOf arg 4 - bitOf arg 8
  | buildSlice => if arg = 3 then -2 else -1
  | formatValue => -bitOf arg 4

end Opcode

end StackCode
