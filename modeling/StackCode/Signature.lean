import StackCode.Flag
import StackCode.Instr

namespace StackCode

/-!
# Signatures

* `Signature` — the parameters of a routine by kind.
* `Signature.parse?`, `Signature.argnames` — the signature as a list of words.
* `Signature.ofLayout?`, `Signature.varnames` — the signature as the first local variables.
-/

/-- The parameters of a routine. -/
structure Signature where
  positional : List String := []
  /-- Takes surplus positional arguments. -/
  varargs : Option String := none
  /-- Parameters that are given by keyword only. -/
  kwonly : List String := []
  /-- Takes surplus keyword arguments. -/
  varkw : Option String := none
  deriving DecidableEq, Repr

namespace Signature

/-- A word of a signature's text. -/
inductive Word where
  | plain (name : String)
  /-- A word after one star; the name may be empty. -/
  | star (name : String)
  /-- A word after two stars. -/
  | starStar (name : String)
  deriving DecidableEq, Repr

/-- A word by the stars that it begins with. -/
def Word.ofText (s : String) : Word :=
  match s.toList with
  | '*' :: '*' :: rest => .starStar (String.ofList rest)
  | '*' :: rest => .star (String.ofList rest)
  | _ => .plain s

/-- Reads words on top of the signature `sig`; `starred` says that a starred word was read.  A word
    with one star opens the keyword-only parameters, and takes surplus arguments if it has a
    name. -/
def parseOn (sig : Signature) (starred : Bool) : List String → Except BuildError Signature
  | [] => .ok sig
  | s :: rest =>
    match Word.ofText s with
    | .starStar name =>
      if sig.varkw.isSome then .error (.duplicateVarkw s)
      else parseOn { sig with varkw := some name } starred rest
    | .star name =>
      if sig.varkw.isSome then .error (.argAfterVarkw s)
      else if starred then .error (.duplicateVarargs s)
      else parseOn (if name.isEmpty then sig else { sig with varargs := some name }) true rest
    | .plain name =>
      if sig.varkw.isSome then .error (.argAfterVarkw s)
      else if starred then parseOn { sig with kwonly := sig.kwonly ++ [name] } true rest
      else parseOn { sig with positional := sig.positional ++ [name] } false rest

/-- The signature of a list of words, read from the left. -/
def parse? (words : List String) : Except BuildError Signature := parseOn {} false words

/-- The words of the signature. -/
def argnames (sig : Signature) : List String :=
  let star := match sig.varargs with
    | some name => ["*" ++ name]
    | none => if sig.kwonly.isEmpty then [] else ["*"]
  let starStar := match sig.varkw with
    | some name => ["**" ++ name]
    | none => []
  sig.positional ++ star ++ sig.kwonly ++ starStar

/-- The parameters in the order of their local variables. -/
def varnames (sig : Signature) : List String :=
  sig.positional ++ sig.kwonly ++ sig.varargs.toList ++ sig.varkw.toList

/-- Counts and flags that need more names than there are. -/
structure LayoutError where
  needed : Nat
  found : Nat
  deriving DecidableEq, Repr

/-- The signature of the first local variables, by the counts and flags of a stored unit. -/
def ofLayout? (argcount kwonly : Nat) (flags : Flags) (varnames : List String) :
    Except LayoutError Signature :=
  let one := fun f : Flag => if flags.has f then 1 else 0
  let needed := argcount + kwonly + one .varargs + one .varKeywords
  if varnames.length < needed then .error ⟨needed, varnames.length⟩
  else
    let rest := varnames.drop (argcount + kwonly)
    .ok {
      positional := varnames.take argcount
      kwonly := (varnames.drop argcount).take kwonly
      varargs := (rest.take (one .varargs)).head?
      varkw := ((rest.drop (one .varargs)).take (one .varKeywords)).head? }

end Signature

end StackCode
