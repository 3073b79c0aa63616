import StackCode.Binary64
import StackCode.Container.Error

namespace StackCode

/-!
# Fields of a container

Numbers are little-endian; blobs and texts follow their length in bytes, a number of 32 bits.

* `Reader` — a sequential reader that may fail; a failed read keeps the place it has reached.
* `Reader.take` and its successors — one reader for each kind of field.
* `blob?` — the bytes of a blob; those of a fixed-width field always exist.
* `Field`, `FieldKind` — fields and their kinds as values.
-/

/-- The bytes that are left to read, and the number of bytes read before them. -/
structure Input where
  rest : List UInt8
  offset : Nat := 0
  deriving Repr

/-- A sequential reader. -/
abbrev Reader (α : Type) := EStateM FormatError Input α

namespace Reader

/-- Reads `n` bytes; where fewer are left the reader does not move. -/
def take (n : Nat) : Reader (List UInt8) := do
  let input ← get
  if input.rest.length < n then throw (.unexpectedEof n input.offset)
  set ({ rest := input.rest.drop n, offset := input.offset + n } : Input)
  return input.rest.take n

/-- Reads a number of `width` bytes. -/
def number (width : Nat) : Reader Nat := do
  let bytes ← take width
  return Bytes.toNat bytes

/-- Reads one byte. -/
def u8 : Reader UInt8 := do
  let n ← number 1
  return UInt8.ofNat n

/-- Reads a number of 16 bits. -/
def u16 : Reader UInt16 := do
  let n ← number 2
  return UInt16.ofNat n

/-- Reads a number of 32 bits. -/
def u32 : Reader UInt32 := do
  let n ← number 4
  return UInt32.ofNat n

/-- Reads a signed number of 64 bits. -/
def i64 : Reader Int64 := do
  let n ← number 8
  return (UInt64.ofNat n).toInt64

/-- Reads the bits of a float. -/
def f64 : Reader Binary64 := do
  let n ← number 8
  return ⟨UInt64.ofNat n⟩

/-- Reads a section's tag. -/
def tag : Reader Section := do
  let bytes ← take 4
  match Section.ofTag? bytes with
  | some s => return s
  | none => throw (.invalidTag bytes)

/-- Reads a length and as many bytes. -/
def blob : Reader (List UInt8) := do
  let n ← number 4
  take n

/-- Reads a blob that holds text. -/
def text : Reader String := do
  let bytes ← blob
  match Bytes.toText? bytes with
  | some s => return s
  | none => throw .invalidUtf8

/-- Reads `n` times and collects the results. -/
def times {α : Type} (r : Reader α) : Nat → Reader (List α)
  | 0 => return []
  | n + 1 => do
    let x ← r
    let xs ← times r n
    return x :: xs

/-- The number of bytes left. -/
def remaining : Reader Nat := do
  let input ← get
  return input.rest.length

/-- Runs a reader on bytes of its own. -/
def within {α : Type} (bytes : List UInt8) (r : Reader α) : Reader α :=
  match r.run { rest := bytes } with
  | .ok a _ => return a
  | .error e _ => throw e

/-- The result of a reader on `bytes`. -/
def run? {α : Type} (r : Reader α) (bytes : List UInt8) : Except FormatError α :=
  match r.run { rest := bytes } with
  | .ok a _ => .ok a
  | .error e _ => .error e

end Reader

/-- A count or length as a field of 32 bits. -/
def count? (n : Nat) : Except FormatError (List UInt8) :=
  if n < UInt32.size then .ok (Bytes.ofNat 4 n) else .error (.invalidLength none n)

/-- The bytes of a blob: its length, then its content. -/
def blob? (bytes : List UInt8) : Except FormatError (List UInt8) := do
  let length ← count? bytes.length
  return length ++ bytes

/-- A field and its value. -/
inductive Field where
  | u8 (v : UInt8)
  | u16 (v : UInt16)
  | u32 (v : UInt32)
  | i64 (v : Int64)
  | f64 (x : Binary64)
  | tag (s : Section)
  /-- Bytes without a length before them. -/
  | raw (bytes : List UInt8)
  | blob (bytes : List UInt8)
  | text (s : String)
  deriving DecidableEq, Repr

/-- What a reader has to know of a field. -/
inductive FieldKind where
  | u8 | u16 | u32 | i64 | f64 | tag
  | raw (length : Nat)
  | blob | text
  deriving DecidableEq, Repr

namespace Field

/-- The kind of a field. -/
def kind : Field → FieldKind
  | u8 _ => .u8
  | u16 _ => .u16
  | u32 _ => .u32
  | i64 _ => .i64
  | f64 _ => .f64
  | tag _ => .tag
  | raw bytes => .raw bytes.length
  | blob _ => .blob
  | text _ => .text

/-- The bytes of a field. -/
def write? : Field → Except FormatError (List UInt8)
  | u8 v => .ok (Bytes.ofNat 1 v.toNat)
  | u16 v => .ok (Bytes.ofNat 2 v.toNat)
  | u32 v => .ok (Bytes.ofNat 4 v.toNat)
  | i64 v => .ok (Bytes.ofNat 8 v.toUInt64.toNat)
  | f64 x => .ok (Bytes.ofNat 8 x.bits.toNat)
  | tag s => .ok s.tag
  | raw bytes => .ok bytes
  | blob bytes => blob? bytes
  | text s => blob? (Bytes.ofText s)

end Field

/-- Reads a field of the given kind. -/
def FieldKind.read : FieldKind → Reader Field
  | u8 => Field.u8 <$> Reader.u8
  | u16 => Field.u16 <$> Reader.u16
  | u32 => Field.u32 <$> Reader.u32
  | i64 => Field.i64 <$> Reader.i64
  | f64 => Field.f64 <$> Reader.f64
  | tag => Field.tag <$> Reader.tag
  | raw n => Field.raw <$> Reader.take n
  | blob => Field.blob <$> Reader.blob
  | text => Field.text <$> Reader.text

/-- The bytes of a list of fields. -/
def writeFields? : List Field → Except FormatError (List UInt8)
  | [] => .ok []
  | f :: fs => do
    let bytes ← f.write?
    let rest ← writeFields? fs
    return bytes ++ rest

end StackCode
