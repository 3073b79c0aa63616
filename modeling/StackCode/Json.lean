import StackCode.Decimal.Shortest
import StackCode.Text.Digits
import StackCode.Text.Quoted

namespace StackCode.Json

/-!
# JSON documents

* `Value` — the tree of a document.  Integers and floating-point numbers are told apart.
* `Value.text` — a document on one line.
* `Value.variant?`, `Value.fields?` — a value as a choice and as the fields of a structure.
-/

/-- A number of a document. -/
inductive Number where
  | int (i : Int)
  | float (x : Binary64)
  deriving DecidableEq, Repr

/-- The tree of a document. -/
inductive Value where
  | null
  | bool (b : Bool)
  | number (n : Number)
  | string (s : String)
  | list (items : List Value)
  | record (fields : List (String × Value))

/-! ### Text -/

/-- A character inside quotes. -/
def quoteChar (c : Char) : List Char :=
  if c = Text.doubleQuote || c = '\\' then ['\\', c]
  else if c.toNat < 32 then '\\' :: 'u' :: '0' :: '0' :: (Text.hexByte (UInt8.ofNat c.toNat)).toList
  else [c]

/-- Quoted text. -/
def quote (s : String) : String :=
  String.ofList (Text.doubleQuote :: s.toList.flatMap quoteChar ++ [Text.doubleQuote])

def Number.text : Number → String
  | int i => toString i
  | float x => String.ofList (Decimal.text x)

namespace Value

mutual

/-- The document on one line. -/
def text : Value → String
  | null => "null"
  | bool b => if b then "true" else "false"
  | number n => n.text
  | string s => quote s
  | list items => "[" ++ itemsText items ++ "]"
  | record fields => "\x7b" ++ fieldsText fields ++ "\x7d"

/-- Values between commas. -/
def itemsText : List Value → String
  | [] => ""
  | [v] => text v
  | v :: vs => text v ++ "," ++ itemsText vs

/-- Fields between commas. -/
def fieldsText : List (String × Value) → String
  | [] => ""
  | [(name, v)] => quote name ++ ":" ++ text v
  | (name, v) :: fields => quote name ++ ":" ++ text v ++ "," ++ fieldsText fields

end

/-! ### Structures and choices -/

/-- The fields of the given names, in their order.  A record may leave fields out, which then are
    `null`, and may hold others; a list holds exactly these fields in order. -/
def fields? (names : List String) : Value → Option (List Value)
  | record fields => some (names.map fun name => (fields.lookup name).getD null)
  | list items => if items.length = names.length then some items else none
  | _ => none

/-- The name of a choice and what comes with it; a bare name comes with `null`. -/
def variant? : Value → Option (String × Value)
  | string name => some (name, null)
  | record [(name, v)] => some (name, v)
  | _ => none

/-- The value is `null`. -/
def isNull : Value → Bool
  | null => true
  | _ => false

end Value

end StackCode.Json
