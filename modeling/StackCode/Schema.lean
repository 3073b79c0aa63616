import StackCode.Container
import StackCode.Flag
import StackCode.Json
import StackCode.Signature

namespace StackCode

/-!
# Documents of domain values

How the values of this library are written as JSON documents and read back.

* `Schema` — a writer and a reader of one type; `Schema.normal?` reads a document and writes it.
* `Schema.const`, `Schema.unit`, `Schema.container` — stored units and what they hold.
* `Schema.signature`, `Schema.operand`, `Schema.flags`, … — the other types.

A structure is a record of its fields.  A choice is its name, or a record with the name alone and
what comes with it.
-/

/-- How the values of a type are written and read. -/
structure Schema (α : Type) where
  write : α → Json.Value
  read? : Json.Value → Option α

namespace Schema

/-- Reads a document and writes what it says. -/
def normal? {α : Type} (s : Schema α) (v : Json.Value) : Option Json.Value :=
  (s.read? v).map s.write

/-! ### Plain values -/

/-- The integer of a document. -/
def int? : Json.Value → Option Int
  | .number (.int i) => some i
  | _ => none

/-- An integer from `0` up to `bound`. -/
def below? (bound : Nat) (v : Json.Value) : Option Nat :=
  (int? v).bind fun i => if 0 ≤ i ∧ i < bound then some i.toNat else none

/-- A natural number as an integer. -/
def ofNat (n : Nat) : Json.Value := .number (.int n)

/-- Numbers below `256`. -/
def uint8 : Schema UInt8 where
  write b := ofNat b.toNat
  read? v := (below? UInt8.size v).map UInt8.ofNat

/-- Numbers below `2 ^ 32`. -/
def uint32 : Schema UInt32 where
  write n := ofNat n.toNat
  read? v := (below? UInt32.size v).map UInt32.ofNat

/-- Integers from `0` to `2 ^ 32 - 1`: places and offsets. -/
def place : Schema Nat where
  write := ofNat
  read? := below? UInt32.size

/-- Signed numbers of 64 bits. -/
def int64 : Schema Int64 where
  write i := .number (.int i.toInt)
  read? v := (int? v).bind Text.fitInt64?

/-- Floating-point numbers; an integer is read as the nearest one. -/
def float : Schema Binary64 where
  write x := .number (.float x)
  read? v :=
    match v with
    | .number (.float x) => some x
    | .number (.int i) => some (.ofInt i)
    | _ => none

/-- Truth values. -/
def bool : Schema Bool where
  write := .bool
  read? v :=
    match v with
    | .bool b => some b
    | _ => none

/-- Text as it is. -/
def string : Schema String where
  write := .string
  read? v :=
    match v with
    | .string s => some s
    | _ => none

/-- Lists, item by item. -/
def list {α : Type} (s : Schema α) : Schema (List α) where
  write items := .list (items.map s.write)
  read? v :=
    match v with
    | .list items => items.mapM s.read?
    | _ => none

/-- A value or `null`. -/
def option {α : Type} (s : Schema α) : Schema (Option α) where
  write
    | some a => s.write a
    | none => .null
  read? v := if v.isNull then some none else (s.read? v).map some

/-- One of the values `all`, by its name. -/
def named {α : Type} (all : List α) (name : α → String) : Schema α where
  write a := .string (name a)
  read? v := do
    let (label, rest) ← v.variant?
    if rest.isNull then all.find? (name · = label) else none

/-! ### Catalogs and tables -/

/-- Encodings by their labels. -/
def encoding : Schema Encoding := named [.legacy, .wordcode] Encoding.label

/-- Opcodes by their names. -/
def opcode : Schema Opcode := named Opcode.all Opcode.name

/-- Classes of operands by their labels. -/
def operandClass : Schema OperandClass := named OperandClass.all OperandClass.label

/-- The flags that are on, as one truth value for every flag. -/
def flags : Schema (List Flag) where
  write on := .record (Flag.all.map fun f => (f.name, .bool (f ∈ on)))
  read? v := do
    let values ← (← v.fields? (Flag.all.map Flag.name)).mapM bool.read?
    return ((Flag.all.zip values).filter (·.2)).map (·.1)

/-- A line start by its offset and its line. -/
def lineStart : Schema LineStart where
  write s := .record [("offset", uint32.write s.offset), ("line", uint32.write s.line)]
  read? v := do
    match ← v.fields? ["offset", "line"] with
    | [offset, line] => return ⟨← uint32.read? offset, ← uint32.read? line⟩
    | _ => none

/-- Formats by their caps and their sign. -/
def lineFormat : Schema LineTable.Format where
  write f := .record [("max_addr_delta", uint8.write f.maxAddrDelta),
    ("max_line_delta", uint8.write f.maxLineDelta)]
  read? v := do
    match ← v.fields? ["max_addr_delta", "max_line_delta"] with
    | [addr, line] => return ⟨← uint8.read? addr, ← uint8.read? line⟩
    | _ => none

/-- Signatures by their parts. -/
def signature : Schema Signature where
  write sig := .record [("positional", (list string).write sig.positional),
    ("varargs", (option string).write sig.varargs), ("kwonly", (list string).write sig.kwonly),
    ("varkw", (option string).write sig.varkw)]
  read? v := do
    match ← v.fields? ["positional", "varargs", "kwonly", "varkw"] with
    | [positional, varargs, kwonly, varkw] =>
      return {
        positional := ← (list string).read? positional
        varargs := ← (option string).read? varargs
        kwonly := ← (list string).read? kwonly
        varkw := ← (option string).read? varkw }
    | _ => none

/-! ### Constants and units -/

mutual

/-- A constant with the name of its kind, those without content by the name alone. -/
def writeConst : Const → Json.Value
  | .none => .string "None"
  | .ellipsis => .string "Ellipsis"
  | .bool b => .record [("Bool", .bool b)]
  | .int i => .record [("Int", int64.write i)]
  | .float x => .record [("Float", float.write x)]
  | .str s => .record [("Str", .string s)]
  | .bytes bs => .record [("Bytes", (list uint8).write bs)]
  | .tuple items => .record [("Tuple", .list (writeConsts items))]
  | .code unit => .record [("Code", writeUnit unit)]

/-- Constants one by one. -/
def writeConsts : List Const → List Json.Value
  | [] => []
  | c :: cs => writeConst c :: writeConsts cs

/-- A unit by its parts. -/
def writeUnit : StoredUnit → Json.Value
  | { argcount, kwonlyargcount, nlocals, stacksize, flags, code, consts, names, varnames, filename,
      name, firstlineno, lineTable, freevars, cellvars } =>
    .record [("argcount", uint32.write argcount), ("kwonlyargcount", uint32.write kwonlyargcount),
      ("nlocals", uint32.write nlocals), ("stacksize", uint32.write stacksize),
      ("flags", uint32.write flags), ("code", (list uint8).write code),
      ("consts", .list (writeConsts consts)), ("names", (list string).write names),
      ("varnames", (list string).write varnames), ("filename", .string filename),
      ("name", .string name), ("firstlineno", uint32.write firstlineno),
      ("lnotab", (list uint8).write lineTable), ("freevars", (list string).write freevars),
      ("cellvars", (list string).write cellvars)]

end

/-- The names of the fields of a unit. -/
def unitFields : List String :=
  ["argcount", "kwonlyargcount", "nlocals", "stacksize", "flags", "code", "consts", "names",
    "varnames", "filename", "name", "firstlineno", "lnotab", "freevars", "cellvars"]

/-- Reads a unit whose constants `readConst?` reads. -/
def readUnit? (readConst? : Json.Value → Option Const) (v : Json.Value) : Option StoredUnit := do
  match ← v.fields? unitFields with
  | [argcount, kwonlyargcount, nlocals, stacksize, flags, code, .list consts, names, varnames,
      filename, name, firstlineno, lineTable, freevars, cellvars] =>
    return {
      argcount := ← uint32.read? argcount
      kwonlyargcount := ← uint32.read? kwonlyargcount
      nlocals := ← uint32.read? nlocals
      stacksize := ← uint32.read? stacksize
      flags := ← uint32.read? flags
      code := ← (list uint8).read? code
      consts := ← consts.mapM readConst?
      names := ← (list string).read? names
      varnames := ← (list string).read? varnames
      filename := ← string.read? filename
      name := ← string.read? name
      firstlineno := ← uint32.read? firstlineno
      lineTable := ← (list uint8).read? lineTable
      freevars := ← (list string).read? freevars
      cellvars := ← (list string).read? cellvars }
  | _ => none

/-- Reads a constant in which tuples and units nest less than `depth` deep. -/
def readConst? : (depth : Nat) → Json.Value → Option Const
  | 0, _ => none
  | depth + 1, v => do
    let (label, inner) ← v.variant?
    match label with
    | "None" => if inner.isNull then return .none else none
    | "Ellipsis" => if inner.isNull then return .ellipsis else none
    | "Bool" => Const.bool <$> bool.read? inner
    | "Int" => Const.int <$> int64.read? inner
    | "Float" => Const.float <$> float.read? inner
    | "Str" => Const.str <$> string.read? inner
    | "Bytes" => Const.bytes <$> (list uint8).read? inner
    | "Tuple" =>
      match inner with
      | .list items => Const.tuple <$> items.mapM (readConst? depth)
      | _ => none
    | "Code" => Const.code <$> readUnit? (readConst? depth) inner
    | _ => none

/-- Constants; those that are read nest less than `depth` deep. -/
def const (depth : Nat) : Schema Const := ⟨writeConst, readConst? depth⟩

/-- Stored units; those that are read nest less than `depth` deep. -/
def unit (depth : Nat) : Schema StoredUnit := ⟨writeUnit, readUnit? (readConst? depth)⟩

/-- Containers by their encoding and their unit, which nests less than `depth` deep. -/
def container (depth : Nat) : Schema Container where
  write c := .record [("encoding", encoding.write c.encoding), ("code", writeUnit c.unit)]
  read? v := do
    match ← v.fields? ["encoding", "code"] with
    | [e, code] => return ⟨← encoding.read? e, ← (unit depth).read? code⟩
    | _ => none

/-- Operands with the name of their kind, those without content by the name alone. -/
def operand (depth : Nat) : Schema Operand where
  write
    | .none => .string "None"
    | .int v => .record [("Int", uint32.write v)]
    | .const c => .record [("Const", writeConst c)]
    | .name s => .record [("Name", .string s)]
    | .localVar s => .record [("Local", .string s)]
    | .freeVar s => .record [("Free", .string s)]
    | .jump t => .record [("Jump", ofNat t)]
  read? v := do
    let (label, inner) ← v.variant?
    match label with
    | "None" => if inner.isNull then return .none else none
    | "Int" => Operand.int <$> uint32.read? inner
    | "Const" => Operand.const <$> readConst? depth inner
    | "Name" => Operand.name <$> string.read? inner
    | "Local" => Operand.localVar <$> string.read? inner
    | "Free" => Operand.freeVar <$> string.read? inner
    | "Jump" => Operand.jump <$> place.read? inner
    | _ => none

end Schema

end StackCode
