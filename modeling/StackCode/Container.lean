import StackCode.Encoding
import StackCode.Const
import StackCode.Crc32
import StackCode.Container.Field

namespace StackCode

/-!
# Containers

A container holds one unit with everything nested in it and the encoding of all their
instructions:

    "CWCO" | version, 16 bits | encoding, 8 bits | sections | "CRCC" | 4 | checksum

The sections of a unit come in a fixed order, each as a tag and a blob.  A nested unit is a blob of
sections.

* `Container.write?`, `Container.read?` — the container as bytes.
* `StoredUnit.write?`, `StoredUnit.readWith` — the sections of a unit.
* `Const.write?`, `Const.read` — a constant: a tag of one byte and its content.
-/

/-! ### Writing -/

/-- A section: its tag and its content as a blob. -/
def section? (s : Section) (content : List UInt8) : Except FormatError (List UInt8) := do
  let b ← blob? content
  return s.tag ++ b

/-- The content of a table of texts: their number, then each of them. -/
def texts? (table : List String) : Except FormatError (List UInt8) := do
  let n ← count? table.length
  let body ← writeFields? (table.map .text)
  return n ++ body

mutual

/-- The bytes of a constant. -/
def Const.write? : Const → Except FormatError (List UInt8)
  | .none => .ok [0]
  | .ellipsis => .ok [1]
  | .bool b => .ok [2, if b then 1 else 0]
  | .int v => writeFields? [.u8 3, .i64 v]
  | .float x => writeFields? [.u8 4, .f64 x]
  | .str s => writeFields? [.u8 5, .text s]
  | .bytes bs => writeFields? [.u8 6, .blob bs]
  | .tuple items => do
    let n ← count? items.length
    let body ← Const.writeItems? items
    return 7 :: n ++ body
  | .code unit => do
    let body ← StoredUnit.write? unit
    writeFields? [.u8 8, .blob body]

/-- The bytes of constants, one after the other. -/
def Const.writeItems? : List Const → Except FormatError (List UInt8)
  | [] => .ok []
  | item :: items => do
    let first ← Const.write? item
    let rest ← Const.writeItems? items
    return first ++ rest

/-- The sections of a unit. -/
def StoredUnit.write? : StoredUnit → Except FormatError (List UInt8)
  | { argcount, kwonlyargcount, nlocals, stacksize, flags, code, consts, names, varnames, filename,
      name, firstlineno, lineTable, freevars, cellvars } => do
    let info ← writeFields? [.u32 argcount, .u32 kwonlyargcount, .u32 nlocals, .u32 stacksize,
      .u32 flags, .u32 firstlineno, .text name, .text filename]
    let infoSection ← section? .info info
    let codeSection ← section? .code code
    let n ← count? consts.length
    let items ← Const.writeItems? consts
    let constSection ← section? .consts (n ++ items)
    let nameSection ← section? .names (← texts? names)
    let varSection ← section? .varnames (← texts? varnames)
    let freeSection ← section? .freevars (← texts? freevars)
    let cellSection ← section? .cellvars (← texts? cellvars)
    let lineSection ← section? .lines lineTable
    return infoSection ++ codeSection ++ constSection ++ nameSection ++ varSection ++ freeSection ++
      cellSection ++ lineSection

end

/-! ### Reading -/

/-- Reads the section `s` and hands on its content. -/
def Reader.section (s : Section) : Reader (List UInt8) := do
  let found ← Reader.tag
  if found ≠ s then throw (.corrupted (.wrongSection s found))
  Reader.blob

/-- Reads the section `s`, whose content `r` has to read to its end. -/
def Reader.inSection {α : Type} (s : Section) (r : Reader α) : Reader α := do
  let content ← Reader.section s
  Reader.within content do
    let x ← r
    let left ← Reader.remaining
    if left ≠ 0 then throw (.invalidLength (some s) left)
    return x

/-- Reads a number and as many items. -/
def Reader.counted {α : Type} (r : Reader α) : Reader (List α) := do
  let n ← Reader.u32
  Reader.times r n.toNat

/-- Reads the sections of a unit; `readConst` reads one constant. -/
def StoredUnit.readWith (readConst : Reader Const) : Reader StoredUnit := do
  let info ← Reader.inSection .info do
    let argcount ← Reader.u32
    let kwonlyargcount ← Reader.u32
    let nlocals ← Reader.u32
    let stacksize ← Reader.u32
    let flags ← Reader.u32
    let firstlineno ← Reader.u32
    let name ← Reader.text
    let filename ← Reader.text
    let unit : StoredUnit := {
      argcount := argcount, kwonlyargcount, nlocals, stacksize
      flags, firstlineno, name, filename }
    return unit
  let code ← Reader.section .code
  let consts ← Reader.inSection .consts (Reader.counted readConst)
  let names ← Reader.inSection .names (Reader.counted Reader.text)
  let varnames ← Reader.inSection .varnames (Reader.counted Reader.text)
  let freevars ← Reader.inSection .freevars (Reader.counted Reader.text)
  let cellvars ← Reader.inSection .cellvars (Reader.counted Reader.text)
  let lineTable ← Reader.section .lines
  return { info with code, consts, names, varnames, freevars, cellvars, lineTable }

/-- Reads a constant in which constants are nested at most `depth` deep.  Every level takes at
    least one byte, so the number of bytes is depth enough. -/
def Const.read : (depth : Nat) → Reader Const
  | 0 => do
    let tag ← Reader.u8
    throw (.corrupted (.unknownConst tag))
  | depth + 1 => do
    let tag ← Reader.u8
    match tag with
    | 0 => return .none
    | 1 => return .ellipsis
    | 2 =>
      let b ← Reader.u8
      return .bool (b ≠ 0)
    | 3 => Const.int <$> Reader.i64
    | 4 => Const.float <$> Reader.f64
    | 5 => Const.str <$> Reader.text
    | 6 => Const.bytes <$> Reader.blob
    | 7 => Const.tuple <$> Reader.counted (Const.read depth)
    | 8 =>
      let content ← Reader.blob
      Reader.within content do
        let unit ← StoredUnit.readWith (Const.read depth)
        let left ← Reader.remaining
        if left ≠ 0 then throw (.corrupted .trailingNested)
        return .code unit
    | other => throw (.corrupted (.unknownConst other))

/-! ### Containers -/

/-- A unit and the encoding of its instructions and of those nested in it. -/
structure Container where
  encoding : Encoding
  unit : StoredUnit
  deriving DecidableEq

namespace Container

/-- The letters `CWCO`. -/
def magic : List UInt8 := [67, 87, 67, 79]

/-- The version that is written and read. -/
def version : UInt16 := 1

/-- Bytes of the checksum section. -/
def trailerSize : Nat := 12

/-- Everything before the checksum section. -/
def body? (c : Container) : Except FormatError (List UInt8) := do
  let head ← writeFields? [.raw magic, .u16 version, .u8 c.encoding.tag]
  let sections ← c.unit.write?
  return head ++ sections

/-- The checksum section of a body. -/
def trailer (body : List UInt8) : List UInt8 :=
  Section.checksum.tag ++ Bytes.ofNat 4 4 ++ Bytes.ofNat 4 (crc32 body).toNat

/-- The bytes of a container, with its checksum behind them. -/
def write? (c : Container) : Except FormatError (List UInt8) := do
  let body ← c.body?
  return body ++ trailer body

/-- Reads the checksum section, whose length is four. -/
def readTrailer : Reader UInt32 := do
  let tag ← Reader.tag
  if tag ≠ .checksum then throw (.corrupted .missingTrailer)
  let length ← Reader.u32
  if length ≠ 4 then throw (.corrupted .missingTrailer)
  Reader.u32

/-- Reads a body to its end. -/
def readBody (size : Nat) : Reader Container := do
  let letters ← Reader.take 4
  if letters ≠ magic then throw .invalidMagic
  let v ← Reader.u16
  if v ≠ version then throw (.unsupportedVersion v)
  let tag ← Reader.u8
  match Encoding.ofTag? tag with
  | none => throw (.corrupted (.unknownEncoding tag))
  | some encoding =>
    let unit ← StoredUnit.readWith (Const.read size)
    let left ← Reader.remaining
    if left ≠ 0 then throw (.corrupted .trailingBytes)
    return ⟨encoding, unit⟩

/-- Reads a container, the checksum before all else. -/
def read? (bytes : List UInt8) : Except FormatError Container := do
  if bytes.length < 7 + trailerSize then
    throw (.unexpectedEof (7 + trailerSize) bytes.length)
  let body := bytes.take (bytes.length - trailerSize)
  let expected ← readTrailer.run? (bytes.drop (bytes.length - trailerSize))
  if crc32 body ≠ expected then throw (.corrupted .checksumMismatch)
  (readBody body.length).run? body

end Container

end StackCode
