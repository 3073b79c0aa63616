import StackCode.Text.Digits

namespace StackCode

/-!
# Unit flags

The bit mask that describes how a unit runs, and the flags that its bits name.

* `Flag` — the sixteen named bits, in bit order.
* `Flags` — a mask; bits without a name are kept as they are.
* `Flags.unpack?` — the named flags of a mask that is not above every combination of them.
-/

/-- A named bit of a unit's mask. -/
inductive Flag where
  /-- Locals are stored in numbered slots. -/
  | optimized
  /-- A call makes a fresh local namespace. -/
  | newLocals
  /-- Takes surplus positional arguments. -/
  | varargs
  /-- Takes surplus keyword arguments. -/
  | varKeywords
  /-- Is defined inside another routine. -/
  | nested
  /-- Yields. -/
  | generator
  /-- Uses neither cells nor free variables. -/
  | noFree
  | coroutine
  /-- A generator that may be awaited. -/
  | iterableCoroutine
  | futureDivision
  | futureAbsoluteImport
  | futureWithStatement
  | futurePrintFunction
  | futureUnicodeLiterals
  | futureBarryAsBdfl
  | futureGeneratorStop
  deriving DecidableEq, Repr

namespace Flag

/-- Every flag, in bit order. -/
def all : List Flag :=
  [optimized, newLocals, varargs, varKeywords, nested, generator, noFree, coroutine,
    iterableCoroutine, futureDivision, futureAbsoluteImport, futureWithStatement,
    futurePrintFunction, futureUnicodeLiterals, futureBarryAsBdfl, futureGeneratorStop]

/-- The bit of a flag. -/
def bit : Flag → UInt32
  | optimized => 0x1
  | newLocals => 0x2
  | varargs => 0x4
  | varKeywords => 0x8
  | nested => 0x10
  | generator => 0x20
  | noFree => 0x40
  | coroutine => 0x80
  | iterableCoroutine => 0x100
  | futureDivision => 0x2000
  | futureAbsoluteImport => 0x4000
  | futureWithStatement => 0x8000
  | futurePrintFunction => 0x10000
  | futureUnicodeLiterals => 0x20000
  | futureBarryAsBdfl => 0x40000
  | futureGeneratorStop => 0x80000

/-- The name of a flag. -/
def name : Flag → String
  | optimized => "optimized"
  | newLocals => "newlocals"
  | varargs => "varargs"
  | varKeywords => "varkeywords"
  | nested => "nested"
  | generator => "generator"
  | noFree => "nofree"
  | coroutine => "coroutine"
  | iterableCoroutine => "iterable_coroutine"
  | futureDivision => "future_division"
  | futureAbsoluteImport => "future_absolute_import"
  | futureWithStatement => "future_with_statement"
  | futurePrintFunction => "future_print_function"
  | futureUnicodeLiterals => "future_unicode_literals"
  | futureBarryAsBdfl => "future_barry_as_bdfl"
  | futureGeneratorStop => "future_generator_stop"

/-- The flag of a name. -/
def ofName? (name : String) : Option Flag := all.find? (·.name = name)

end Flag

/-- A unit's mask. -/
structure Flags where
  mask : UInt32
  deriving DecidableEq, Repr, Inhabited

/-- A mask that is larger than the combination of every flag. -/
structure FlagsError where
  mask : UInt32
  deriving DecidableEq, Repr

namespace Flags

/-- The flag is set. -/
def has (s : Flags) (f : Flag) : Bool := s.mask &&& f.bit = f.bit

/-- The mask with `f` switched on or off. -/
def set (s : Flags) (f : Flag) (on : Bool) : Flags :=
  if on then ⟨s.mask ||| f.bit⟩ else ⟨s.mask &&& ~~~f.bit⟩

/-- The mask of a list of flags. -/
def ofList (fs : List Flag) : Flags := ⟨fs.foldl (fun acc f => acc ||| f.bit) 0⟩

/-- The named flags that are on, in bit order. -/
def toList (s : Flags) : List Flag := Flag.all.filter s.has

/-- The combination of every flag. -/
def full : Flags := ofList Flag.all

/-- The named flags of `s`; its other bits are dropped. -/
def unpack? (s : Flags) : Except FlagsError (List Flag) :=
  if full.mask < s.mask then .error ⟨s.mask⟩ else .ok s.toList

end Flags

def FlagsError.message (e : FlagsError) : String :=
  let mask := Text.hex e.mask.toNat
  let most := Text.hex Flags.full.mask.toNat
  s!"flags mask 0x{mask} exceeds the maximum 0x{most}"

end StackCode
