import StackCode.Text.CharClass

namespace StackCode.Text

/-!
# Lines and words

* `lines` — the lines of a text; each ends with a line feed, which a carriage return may precede.
* `cutAtBlank` — a text before and behind its first blank.
* `words` — the parts of a text between blanks and commas.
-/

/-- Drops a carriage return at the end. -/
def dropReturn (cs : List Char) : List Char :=
  if cs.getLast? = some '\r' then cs.dropLast else cs

/-- The lines of `cs`, where `line` holds what was read of the first, backwards.  A last line
    without a line feed counts if it holds anything. -/
def linesFrom (line : List Char) : List Char → List (List Char)
  | [] => if line.isEmpty then [] else [line.reverse]
  | '\n' :: cs => dropReturn line.reverse :: linesFrom [] cs
  | c :: cs => linesFrom (c :: line) cs

/-- The lines of the text, each without its end. -/
def lines (cs : List Char) : List (List Char) := linesFrom [] cs

/-- The text before the first blank, and the text behind it. -/
def cutAtBlank : List Char → List Char × List Char
  | [] => ([], [])
  | c :: cs =>
    if isBlank c then ([], cs)
    else
      let (before, behind) := cutAtBlank cs
      (c :: before, behind)

/-- The words of `cs` that are not empty, where `word` holds what was read of the first,
    backwards. -/
def wordsFrom (word : List Char) : List Char → List (List Char)
  | [] => if word.isEmpty then [] else [word.reverse]
  | c :: cs =>
    if c = ',' || isBlank c then
      if word.isEmpty then wordsFrom [] cs else word.reverse :: wordsFrom [] cs
    else wordsFrom (c :: word) cs

/-- The words between blanks and commas. -/
def words (cs : List Char) : List (List Char) := wordsFrom [] cs

end StackCode.Text
