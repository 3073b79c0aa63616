import StackCode.Container.Section
import StackCode.Text.Digits

namespace StackCode

/-!
# Faults of a container

* `FormatError` — why bytes are no container, or a unit has none.
* `Corruption` — what is wrong with bytes that have the form of a container.
-/

/-- What is wrong with bytes that have the form of a container. -/
inductive Corruption where
  /-- The last twelve bytes are no checksum section. -/
  | missingTrailer
  | checksumMismatch
  | unknownEncoding (tag : UInt8)
  /-- Bytes between the last section and the trailer. -/
  | trailingBytes
  | wrongSection (expected found : Section)
  /-- Bytes behind the last section of a nested unit. -/
  | trailingNested
  | unknownConst (tag : UInt8)
  deriving DecidableEq, Repr

def Corruption.message : Corruption → String
  | .missingTrailer => "missing CRC trailer"
  | .checksumMismatch => "CRC mismatch"
  | .unknownEncoding tag => s!"unknown encoding tag {tag}"
  | .trailingBytes => "trailing bytes after last section"
  | .wrongSection expected found =>
    "expected section " ++ expected.label ++ ", found " ++ found.label
  | .trailingNested => "trailing bytes in nested code"
  | .unknownConst tag => "unknown constant tag 0x" ++ Text.hexUpper 2 tag.toNat

/-- Why bytes are no container, or a unit has none. -/
inductive FormatError where
  | invalidMagic
  | unsupportedVersion (version : UInt16)
  /-- Four bytes that open no section. -/
  | invalidTag (bytes : List UInt8)
  /-- `needed` bytes were asked for at offset `at`, where fewer are left. -/
  | unexpectedEof (needed «at» : Nat)
  /-- A length that its field cannot hold, or bytes left over at the end of a section. -/
  | invalidLength (place : Option Section) (length : Nat)
  | invalidUtf8
  | corrupted (cause : Corruption)
  deriving DecidableEq, Repr

def FormatError.message : FormatError → String
  | .invalidMagic => "invalid container magic"
  | .unsupportedVersion v => s!"unsupported container version {v}"
  | .invalidTag bytes =>
    "invalid section tag: 0x" ++ String.join (bytes.map fun b => Text.hexUpper 2 b.toNat)
  | .unexpectedEof n a => s!"unexpected EOF: need {n} bytes at {a}"
  | .invalidLength none n => s!"invalid length: {n}"
  | .invalidLength (some place) n => "invalid length for " ++ place.label ++ s!": {n}"
  | .invalidUtf8 => "invalid utf-8"
  | .corrupted cause => "corrupted: " ++ cause.message

end StackCode
