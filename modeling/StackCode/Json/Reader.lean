import StackCode.Json.Number

namespace StackCode.Json

/-!
# Reading documents

* `read?` — the tree of a document; blanks may stand around every value and sign.
* `readString?` — a quoted text behind its opening quote.
* `readValue?` — a value, and what follows it.
-/

/-- The blanks of documents. -/
def isBlank (c : Char) : Bool := c = ' ' || c = '\n' || c = '\t' || c = '\r'

/-- What is left behind blanks. -/
def skipBlanks (cs : List Char) : List Char := cs.dropWhile isBlank

/-! ### Quoted text -/

/-- The value of four hexadecimal digits. -/
def hex4? : List Char → Option Nat
  | [a, b, c, d] =>
    [a, b, c, d].foldlM (fun acc digit => (Text.hexDigit? digit).map (16 * acc + ·)) 0
  | _ => none

/-- The character of two surrogates, the first the high one. -/
def pairChar? (high low : Nat) : Option Char :=
  if 0xDC00 ≤ low ∧ low < 0xE000 then
    some (Char.ofNat (0x10000 + (high - 0xD800) * 0x400 + (low - 0xDC00)))
  else none

/-- What stands behind a backslash for a single character. -/
def escaped? (c : Char) : Option Char :=
  if c = Text.doubleQuote || c = '\\' || c = '/' then some c
  else if c = 'b' then some '\x08'
  else if c = 'f' then some '\x0c'
  else if c = 'n' then some '\n'
  else if c = 'r' then some '\r'
  else if c = 't' then some '\t'
  else none

/-- Puts a character in front of what was read. -/
def prepend (c : Char) (r : List Char × List Char) : List Char × List Char := (c :: r.1, r.2)

/-- Reads a quoted text behind its opening quote: its characters, and what follows the closing
    quote.  A character outside of the basic plane may be written as two surrogates. -/
def readString? : List Char → Option (List Char × List Char)
  | [] => none
  | '\\' :: 'u' :: a :: b :: c :: d :: rest =>
    match hex4? [a, b, c, d] with
    | none => none
    | some code =>
      if 0xD800 ≤ code ∧ code < 0xDC00 then
        match rest with
        | '\\' :: 'u' :: e :: f :: g :: h :: rest =>
          match (hex4? [e, f, g, h]).bind (pairChar? code) with
          | none => none
          | some c => prepend c <$> readString? rest
        | _ => none
      else if 0xDC00 ≤ code ∧ code < 0xE000 then none
      else prepend (Char.ofNat code) <$> readString? rest
  | '\\' :: c :: rest =>
    match escaped? c with
    | none => none
    | some c => prepend c <$> readString? rest
  | c :: rest =>
    if c = Text.doubleQuote then some ([], rest)
    else if c.toNat < 32 || c = '\\' then none
    else prepend c <$> readString? rest

/-! ### Values -/

/-- Puts a field in front of others; a later field of the same name takes its place. -/
def putField (name : String) (v : Value) (fields : List (String × Value)) :
    List (String × Value) :=
  if (fields.lookup name).isSome then fields else (name, v) :: fields

mutual

/-- Reads a value and hands back what follows it.  Two calls, one inside the other, have fewer
    characters before them, so that `fuel` need only exceed twice their number. -/
def readValue? : (fuel : Nat) → List Char → Option (Value × List Char)
  | 0, _ => none
  | fuel + 1, cs =>
    match skipBlanks cs with
    | 'n' :: 'u' :: 'l' :: 'l' :: rest => some (.null, rest)
    | 't' :: 'r' :: 'u' :: 'e' :: rest => some (.bool true, rest)
    | 'f' :: 'a' :: 'l' :: 's' :: 'e' :: rest => some (.bool false, rest)
    | '[' :: rest =>
      match skipBlanks rest with
      | ']' :: rest => some (.list [], rest)
      | rest => (readItems? fuel rest).map fun r => (.list r.1, r.2)
    | '\x7b' :: rest =>
      match skipBlanks rest with
      | '\x7d' :: rest => some (.record [], rest)
      | rest => (readFields? fuel rest).map fun r => (.record r.1, r.2)
    | c :: rest =>
      if c = Text.doubleQuote then
        (readString? rest).map fun r => (.string (String.ofList r.1), r.2)
      else (readNumber? (c :: rest)).map fun r => (.number r.1, r.2)
    | [] => none

/-- Reads one or more values between commas and the closing bracket. -/
def readItems? : (fuel : Nat) → List Char → Option (List Value × List Char)
  | 0, _ => none
  | fuel + 1, cs => do
    let (v, rest) ← readValue? fuel cs
    match skipBlanks rest with
    | ',' :: rest =>
      let (vs, rest) ← readItems? fuel rest
      return (v :: vs, rest)
    | ']' :: rest => return ([v], rest)
    | _ => none

/-- Reads one or more named values between commas and the closing brace. -/
def readFields? : (fuel : Nat) → List Char → Option (List (String × Value) × List Char)
  | 0, _ => none
  | fuel + 1, cs => do
    let inside ← match skipBlanks cs with
      | c :: rest => if c = Text.doubleQuote then some rest else none
      | [] => none
    let (name, rest) ← readString? inside
    let afterColon ← match skipBlanks rest with
      | ':' :: rest => some rest
      | _ => none
    let (v, rest) ← readValue? fuel afterColon
    match skipBlanks rest with
    | ',' :: rest =>
      let (fields, rest) ← readFields? fuel rest
      return (putField (String.ofList name) v fields, rest)
    | '\x7d' :: rest => return ([(String.ofList name, v)], rest)
    | _ => none

end

/-- The tree of a document. -/
def read? (text : String) : Option Value :=
  match readValue? (2 * text.length + 2) text.toList with
  | some (v, rest) => if (skipBlanks rest).isEmpty then some v else none
  | none => none

end StackCode.Json
