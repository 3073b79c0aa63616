import StackCode.Opcode

namespace StackCode

/-!
# Patterns of instructions

A pattern describes runs of opcodes, as a regular expression does.

* `Pattern` — the tree of a pattern.
* `Pattern.or`, `Pattern.optional`, … — ways to build patterns.
* `Pattern.describe` — the tree as text.
-/

/-- A description of runs of opcodes. -/
inductive Pattern where
  /-- One instruction of the opcode. -/
  | op (opcode : Opcode)
  /-- One instruction. -/
  | any
  /-- One instruction that is not among those of the pattern. -/
  | not (p : Pattern)
  /-- The parts in order. -/
  | seq (parts : List Pattern)
  /-- One of the alternatives. -/
  | alt (alternatives : List Pattern)
  /-- The pattern from `least` to `most` times in a row; without `most` there is no bound. -/
  | rep (p : Pattern) (least : Nat) (most : Option Nat)

namespace Pattern

/-! ### Building patterns -/

/-- The alternatives of a pattern; of one that is no alternation, itself. -/
def alternatives : Pattern → List Pattern
  | alt ps => ps
  | p => [p]

/-- Either pattern; alternations among them are opened. -/
def either (p q : Pattern) : Pattern := alt (p.alternatives ++ q.alternatives)

/-- One of the patterns; alternations among them are opened. -/
def or (ps : List Pattern) : Pattern := ps.foldl either (alt [])

/-- The pattern in a row, between `least` and `most` times. -/
def between (p : Pattern) (least most : Nat) : Pattern := rep p least (some most)

/-- The pattern in a row, `least` times or more. -/
def atLeast (p : Pattern) (least : Nat) : Pattern := rep p least none

/-- The pattern once, or nothing. -/
def optional (p : Pattern) : Pattern := p.between 0 1

/-- The pattern in a row, any number of times. -/
def star (p : Pattern) : Pattern := p.atLeast 0

/-- The pattern in a row, once or more. -/
def plus (p : Pattern) : Pattern := p.atLeast 1

/-- The pattern in a row, just `n` times. -/
def exactly (p : Pattern) (n : Nat) : Pattern := p.between n n

/-! ### Text -/

mutual

/-- The tree as text. -/
def describe : Pattern → String
  | op o => "Op(" ++ o.name ++ ")"
  | any => "Any"
  | not p => "Not(" ++ describe p ++ ")"
  | seq ps => "Seq([" ++ describeList ps ++ "])"
  | alt ps => "Or([" ++ describeList ps ++ "])"
  | rep p least most =>
    let bound := match most with
      | some m => s!"Some({m})"
      | none => "None"
    "Repeat \x7b inner: " ++ describe p ++ s!", min: {least}, max: " ++ bound ++ " \x7d"

/-- The trees of several patterns as text, between commas. -/
def describeList : List Pattern → String
  | [] => ""
  | [p] => describe p
  | p :: ps => describe p ++ ", " ++ describeList ps

end

end Pattern

end StackCode
