import StackCode.Const
import StackCode.Decimal.Reader

namespace StackCode

/-!
# Constant literals

* `Literal.read?` — the constant that a text denotes: `None`, `True`, `False`, `...`, a number,
  quoted text, quoted bytes after `b`, or a tuple in brackets.
* `Literal.readQuoted` — quoted text behind its opening quote.
* `LiteralError` — why a text denotes no constant.
-/

/-- Why a text denotes no constant. -/
inductive LiteralError where
  /-- Something follows the constant. -/
  | trailingInput (text : String)
  | empty
  | unterminatedTuple
  | unterminatedString
  /-- The text ends behind a backslash. -/
  | incompleteEscape
  /-- What follows `\x` is not the value of a byte. -/
  | badEscape (digits : String)
  /-- A character of quoted bytes above `255`. -/
  | nonByte (c : Char)
  /-- A word that is neither a name nor a number. -/
  | unreadable (word : String)
  deriving DecidableEq, Repr

def LiteralError.message : LiteralError → String
  | .trailingInput text => s!"trailing input in `{text}`"
  | .empty => "empty literal"
  | .unterminatedTuple => "unterminated tuple"
  | .unterminatedString => "unterminated string"
  | .incompleteEscape => "incomplete escape"
  | .badEscape digits => s!"bad escape \\x{digits}"
  | .nonByte c => s!"non-byte `{c}`"
  | .unreadable word => s!"`{word}`"

namespace Literal

/-! ### Quoted text -/

/-- The byte that at most two characters denote: hexadecimal digits, of which a plus sign may take
    the place of the first. -/
def hexByte? : List Char → Option Nat
  | [a] => Text.hexDigit? a
  | [a, b] =>
    if a = '+' then Text.hexDigit? b
    else (Text.hexDigit? a).bind fun x => (Text.hexDigit? b).map fun y => 16 * x + y
  | _ => none

/-- The character that stands behind a backslash for another, or for itself. -/
def escaped (c : Char) : Char :=
  if c = 'n' then '\n'
  else if c = 't' then '\t'
  else if c = 'r' then '\r'
  else if c = '0' then '\x00'
  else c

/-- The character of an escape by its code. -/
def hexChar (digits : List Char) : Except LiteralError Char :=
  match hexByte? digits with
  | some n => .ok (Char.ofNat n)
  | none => .error (.badEscape (String.ofList digits))

/-- Puts a character in front of what was read. -/
def consRead (c : Char) (r : List Char × List Char) : List Char × List Char := (c :: r.1, r.2)

/-- Reads quoted text behind its opening quote `q`: its characters, and what follows the closing
    quote. -/
def readQuoted (q : Char) : List Char → Except LiteralError (List Char × List Char)
  | [] => .error .unterminatedString
  | '\\' :: [] => .error .incompleteEscape
  | '\\' :: 'x' :: [] => .error (.badEscape "")
  | '\\' :: 'x' :: a :: [] => do
    let _ ← hexChar [a]
    throw .unterminatedString
  | '\\' :: 'x' :: a :: b :: rest => do
    let c ← hexChar [a, b]
    consRead c <$> readQuoted q rest
  | '\\' :: c :: rest => consRead (escaped c) <$> readQuoted q rest
  | c :: rest => if c = q then .ok ([], rest) else consRead c <$> readQuoted q rest

/-- The character begins or ends a quoted literal. -/
def isQuote (c : Char) : Bool := c = Text.doubleQuote || c = Text.singleQuote

/-- The bytes of the characters of quoted bytes. -/
def toBytes (cs : List Char) : Except LiteralError (List UInt8) :=
  cs.mapM fun c => if c.toNat < 256 then .ok (UInt8.ofNat c.toNat) else .error (.nonByte c)

/-! ### Words -/

/-- Reads a word that is not quoted: a name or a number. -/
def ofWord (word : List Char) : Except LiteralError Const :=
  if word = ['N', 'o', 'n', 'e'] then .ok .none
  else if word = ['T', 'r', 'u', 'e'] then .ok (.bool true)
  else if word = ['F', 'a', 'l', 's', 'e'] then .ok (.bool false)
  else if word = ['.', '.', '.'] then .ok .ellipsis
  else
    match Text.readInt64? word with
    | some v => .ok (.int v)
    | none =>
      match Decimal.read? word with
      | some x => .ok (.float x)
      | none => .error (.unreadable (String.ofList word))

/-- Goes on in a word. -/
def inWord (c : Char) : Bool := !(Text.isBlank c || c = ',' || c = ')')

/-! ### Values -/

/-- What is left behind blanks. -/
def skipBlanks (cs : List Char) : List Char := cs.dropWhile Text.isBlank

mutual

/-- Reads a constant and hands back what follows it.  Every call behind another has fewer
    characters before it, so `fuel` need only exceed their number. -/
def readValue : (fuel : Nat) → List Char → Except LiteralError (Const × List Char)
  | 0, _ => .error .empty
  | fuel + 1, cs =>
    match skipBlanks cs with
    | [] => .error .empty
    | '(' :: rest => do
      let (items, rest) ← readItems fuel rest
      return (.tuple items, rest)
    | c :: rest =>
      if isQuote c then do
        let (s, rest) ← readQuoted c rest
        return (.str (String.ofList s), rest)
      else if c = 'b' ∧ rest.head?.any isQuote then do
        let (s, rest) ← readQuoted (rest.headD Text.doubleQuote) rest.tail
        let bytes ← toBytes s
        return (.bytes bytes, rest)
      else do
        let value ← ofWord ((c :: rest).takeWhile inWord)
        return (value, (c :: rest).dropWhile inWord)

/-- Reads the items of a tuple up to its closing bracket; a comma stands between two of them, and
    may stand behind the last. -/
def readItems : (fuel : Nat) → List Char → Except LiteralError (List Const × List Char)
  | 0, _ => .error .empty
  | fuel + 1, cs =>
    match skipBlanks cs with
    | ')' :: rest => .ok ([], rest)
    | cs => do
      let (item, rest) ← readValue fuel cs
      match skipBlanks rest with
      | ',' :: rest => do
        let (items, rest) ← readItems fuel rest
        return (item :: items, rest)
      | ')' :: rest => return ([item], rest)
      | _ => throw .unterminatedTuple

end

/-- The constant that a text denotes; blanks may surround it. -/
def readChars? (cs : List Char) : Except LiteralError Const := do
  let (value, rest) ← readValue (2 * cs.length + 2) cs
  if !(skipBlanks rest).isEmpty then throw (.trailingInput (String.ofList cs))
  return value

/-- The constant that a text denotes. -/
def read? (text : String) : Except LiteralError Const := readChars? text.toList

end Literal

end StackCode
