import StackCode.Bytes

namespace StackCode

/-!
# Sections of a container

* `Section` — the parts of a container, each opened by a tag of four letters.
-/

/-- A part of a container. -/
inductive Section where
  /-- Counters, flags, first line, name and file. -/
  | info
  /-- Instruction bytes. -/
  | code
  /-- Constants. -/
  | consts
  /-- Names of globals and attributes. -/
  | names
  /-- Names of local variables. -/
  | varnames
  | freevars
  | cellvars
  /-- The line table. -/
  | lines
  /-- The checksum. -/
  | checksum
  deriving DecidableEq, Repr

namespace Section

/-- All sections, in the order they are written in. -/
def all : List Section :=
  [info, code, consts, names, varnames, freevars, cellvars, lines, checksum]

/-- The four letters of the tag. -/
def label : Section → String
  | info => "META"
  | code => "CODE"
  | consts => "CNST"
  | names => "NAME"
  | varnames => "VARS"
  | freevars => "FREE"
  | cellvars => "CELL"
  | lines => "LNTB"
  | checksum => "CRCC"

/-- The tag as bytes: the codes of its letters. -/
def tag : Section → List UInt8
  | info => [77, 69, 84, 65]
  | code => [67, 79, 68, 69]
  | consts => [67, 78, 83, 84]
  | names => [78, 65, 77, 69]
  | varnames => [86, 65, 82, 83]
  | freevars => [70, 82, 69, 69]
  | cellvars => [67, 69, 76, 76]
  | lines => [76, 78, 84, 66]
  | checksum => [67, 82, 67, 67]

/-- Tags are of one length. -/
@[simp] theorem length_tag (s : Section) : s.tag.length = 4 := by cases s <;> rfl

/-- The section of a tag. -/
def ofTag? (bytes : List UInt8) : Option Section := all.find? (·.tag = bytes)

/-- Every section has a tag of its own. -/
@[simp] theorem ofTag?_tag (s : Section) : ofTag? s.tag = some s := by cases s <;> rfl

/-- Only its tag reads as a section. -/
theorem tag_of_ofTag? {bytes : List UInt8} {s : Section} (h : ofTag? bytes = some s) :
    s.tag = bytes := by
  simpa using List.find?_some h

/-- The section of a label. -/
def ofLabel? (label : String) : Option Section := all.find? (·.label = label)

end Section

end StackCode
