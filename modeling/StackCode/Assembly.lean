import StackCode.Assembly.Literal
import StackCode.Routine.Builder
import StackCode.Text.Lines

namespace StackCode

/-!
# Assembly text

A routine as text: one instruction, directive or label on a line, and comments behind `;`.

    .name   clamp
    .args   x, *rest
    .line 3
        LOAD_FAST          x
        POP_JUMP_IF_FALSE  done
        LOAD_CONST         "positive"
        RETURN_VALUE
    done:
        LOAD_CONST         None
        RETURN_VALUE

* `Assembly.assemble?` — the routine of a text.
* `Assembly.State.line` — what one line does.
* `AssemblyError` — the line that is at fault, and its fault.
-/

/-- What is wrong with a line. -/
inductive AssemblyFault where
  | unknownOpcode (word : String)
  | unknownDirective (name : String)
  /-- A directive that cannot use its value. -/
  | badDirective (directive value : String)
  | missingOperand (opcode : Opcode)
  | unexpectedOperand (opcode : Opcode)
  | badInt (text : String)
  | badLiteral (e : LiteralError)
  | badIdentifier (text : String)
  /-- A label that is defined twice. -/
  | duplicateLabel (name : String)
  /-- A label that is used and never defined. -/
  | undefinedLabel (name : String)
  | build (e : BuildError)
  deriving DecidableEq, Repr

def AssemblyFault.message : AssemblyFault → String
  | .unknownOpcode w => s!"unknown instruction `{w}`"
  | .unknownDirective n => s!"unknown directive `.{n}`"
  | .badDirective d v => s!"bad value for `.{d}`: `{v}`"
  | .missingOperand op => op.name ++ " needs an operand"
  | .unexpectedOperand op => op.name ++ " takes no operand"
  | .badInt t => s!"expected an integer, got `{t}`"
  | .badLiteral e => "bad literal: " ++ e.message
  | .badIdentifier t => s!"expected an identifier, got `{t}`"
  | .duplicateLabel n => s!"label `{n}` defined twice"
  | .undefinedLabel n => s!"label `{n}` is never defined"
  | .build e => e.message

/-- The fault of a line; lines count from one. -/
structure AssemblyError where
  line : Nat
  fault : AssemblyFault
  deriving DecidableEq, Repr

def AssemblyError.message (e : AssemblyError) : String :=
  let line := e.line
  s!"line {line}: " ++ e.fault.message

namespace Assembly

/-! ### Words of a line -/

/-- The part of a line before an unquoted `;`; `quote` is the quote that is open, and `skip` says
    that a backslash came before. -/
def beforeComment (quote : Option Char) (skip : Bool) : List Char → List Char
  | [] => []
  | c :: cs =>
    match quote with
    | some q =>
      if skip then c :: beforeComment quote false cs
      else if c = '\\' then c :: beforeComment quote true cs
      else c :: beforeComment (if c = q then none else quote) false cs
    | none =>
      if c = ';' then []
      else c :: beforeComment (if Literal.isQuote c then some c else none) false cs

/-- A line without its comment; a line that begins with `;` or `#` is one. -/
def stripComment (cs : List Char) : List Char :=
  match cs.dropWhile Text.isBlank with
  | ';' :: _ => []
  | '#' :: _ => []
  | _ => beforeComment none false cs

/-- Letters, digits and `_`, `<`, `>`, `.`, of which a digit, `>` and `.` do not come first. -/
def isIdentifier : List Char → Bool
  | [] => false
  | c :: cs =>
    (Text.isLetter c || c = '_' || c = '<') &&
      cs.all fun d => Text.isAlnum d || d = '_' || d = '<' || d = '>' || d = '.'

/-- A name, if the characters form one. -/
def identifier (cs : List Char) : Except AssemblyFault String :=
  if isIdentifier cs then .ok (String.ofList cs) else .error (.badIdentifier (String.ofList cs))

/-! ### Lines -/

/-- A label of the text. -/
structure LabelEntry where
  name : String
  /-- The label's placeholder. -/
  handle : Handle
  /-- The line that mentions it first. -/
  firstUse : Nat
  defined : Bool := false
  deriving DecidableEq

/-- The routine assembled so far, and the labels in the order of their first mention. -/
structure State where
  builder : Builder := {}
  labels : List LabelEntry := []
  deriving DecidableEq

namespace State

/-- The result of an action on the builder. -/
def build {α : Type} (s : State) (act : BuilderM α) : Except AssemblyFault (α × State) :=
  match act.run s.builder with
  | .ok a b => .ok (a, { s with builder := b })
  | .error e _ => .error (.build e)

/-- Sets what a directive sets. -/
def set (s : State) (act : BuilderM Unit) : Except AssemblyFault State := do
  let (_, s) ← s.build act
  return s

/-- The label of a name, if the text has named it before. -/
def find? (s : State) (name : String) : Option LabelEntry := s.labels.find? (·.name = name)

/-- The placeholder of a label, made at its first mention. -/
def label (s : State) (current : Nat) (name : String) : Except AssemblyFault (Handle × State) :=
  match s.find? name with
  | some entry => .ok (entry.handle, s)
  | none => do
    let (handle, s) ← s.build Builder.label
    let entry : LabelEntry := { name := name, handle := handle, firstUse := current }
    return (handle, { s with labels := s.labels ++ [entry] })

/-- Defines a label at the next instruction. -/
def define (s : State) (current : Nat) (text : List Char) : Except AssemblyFault State := do
  let name ← identifier text
  let (handle, s) ← s.label current name
  if (s.find? name).any (·.defined) then throw (.duplicateLabel name)
  let labels := s.labels.map fun entry =>
    if entry.name = name then { entry with defined := true } else entry
  ({ s with labels := labels }).set (Builder.place handle)

/-- Follows a directive, given without its dot. -/
def directive (s : State) (text : List Char) : Except AssemblyFault State :=
  let (name, rest) := Text.cutAtBlank text
  let value := Text.trim rest
  let bad := AssemblyFault.badDirective (String.ofList name) (String.ofList value)
  let words := (Text.words value).map String.ofList
  match String.ofList name with
  | "name" => s.set (Builder.modifyDraft fun d => { d with name := String.ofList value })
  | "filename" => s.set (Builder.modifyDraft fun d => { d with filename := String.ofList value })
  | "firstlineno" =>
    match Text.readUInt32? value with
    | some n => s.set (Builder.modifyDraft fun d => { d with firstlineno := n })
    | none => .error bad
  | "line" =>
    match Text.readUInt32? value with
    | some n => s.set (Builder.line n)
    | none => .error bad
  | "encoding" =>
    match Encoding.ofName? (String.ofList value) with
    | some e => s.set (Builder.modifyDraft fun d => { d with encoding := e })
    | none => .error bad
  | "args" => s.set (Builder.args words)
  | "cellvars" => s.set (Builder.modifyDraft fun d => { d with cellvars := words })
  | "freevars" => s.set (Builder.modifyDraft fun d => { d with freevars := words })
  | other => .error (.unknownDirective other)

/-- Reads the operand of an instruction. -/
def operand (s : State) (current : Nat) (opcode : Opcode) (text : List Char) :
    Except AssemblyFault (Operand × State) :=
  match opcode.operandClass with
  | .none => if text.isEmpty then .ok (.none, s) else .error (.unexpectedOperand opcode)
  | cls =>
    if text.isEmpty then .error (.missingOperand opcode)
    else
      match cls with
      | .none => .ok (.none, s)
      | .int =>
        match Text.readUInt32? text with
        | some n => .ok (.int n, s)
        | none => .error (.badInt (String.ofList text))
      | .const =>
        match Literal.readChars? text with
        | .ok c => .ok (.const c, s)
        | .error e => .error (.badLiteral e)
      | .name => (fun n => (.name n, s)) <$> identifier text
      | .local => (fun n => (.localVar n, s)) <$> identifier text
      | .free => (fun n => (.freeVar n, s)) <$> identifier text
      | .jumpAbs | .jumpRel => do
        let name ← identifier text
        let (handle, s) ← s.label current name
        return (.jump handle, s)

/-- Appends the instruction of a line. -/
def instruction (s : State) (current : Nat) (text : List Char) : Except AssemblyFault State := do
  let (word, rest) := Text.cutAtBlank text
  match Opcode.ofName? (String.ofList (word.map Char.toUpper)) with
  | .error _ => throw (.unknownOpcode (String.ofList word))
  | .ok opcode =>
    let (operand, s) ← s.operand current opcode (Text.trim rest)
    let (_, s) ← s.build (Builder.push opcode operand)
    return s

/-- Does what the line numbered `current` says. -/
def line (s : State) (current : Nat) (raw : List Char) : Except AssemblyFault State :=
  match Text.trim (stripComment raw) with
  | [] => .ok s
  | '.' :: rest => s.directive rest
  | text =>
    if text.getLast? = some ':' then s.define current (Text.trim text.dropLast)
    else s.instruction current text

/-- Does what the lines say, the first of which is numbered `current`. -/
def run (s : State) (current : Nat) : List (List Char) → Except AssemblyError State
  | [] => .ok s
  | raw :: rest =>
    match s.line current raw with
    | .ok s => run s (current + 1) rest
    | .error fault => .error ⟨current, fault⟩

/-- The routine, if every label is defined.  `last` is the number of the last line. -/
def finish (s : State) (last : Nat) : Except AssemblyError Routine :=
  match s.labels.find? (!·.defined) with
  | some entry => .error ⟨entry.firstUse, .undefinedLabel entry.name⟩
  | none =>
    match Builder.build.run s.builder with
    | .ok c _ => .ok c
    | .error e _ => .error ⟨last, .build e⟩

end State

/-- The routine of a text. -/
def assemble? (source : String) : Except AssemblyError Routine := do
  let lines := Text.lines source.toList
  let s ← State.run {} 1 lines
  s.finish lines.length

end Assembly

end StackCode
