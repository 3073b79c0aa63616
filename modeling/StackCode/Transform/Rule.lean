import StackCode.Pattern.Matcher
import StackCode.Transform.Script

namespace StackCode

/-!
# Rules

* `Rule` — a named pattern, the modes in which it counts, and the handler of its runs.
* `RuleSet` — rules in the order of their priority, no two of them with the same name.
* `RuleSet.add`, `RuleSet.extend` — a rule of a known name takes its place, and own rules shadow
  inherited ones.
-/

/-- A named pattern with its handler. -/
structure Rule (σ : Type) where
  name : String
  pattern : Pattern
  matcher : Matcher
  compiled : pattern.compile? = .ok matcher
  /-- The modes in which the rule may fire. -/
  modes : List Mode
  handler : Handler σ

namespace Rule

variable {σ : Type}

/-- The rule of a pattern, which has to have a matcher. -/
def new? (name : String) (pattern : Pattern) (modes : List Mode) (handler : Handler σ) :
    Except PatternError (Rule σ) :=
  match h : pattern.compile? with
  | .ok matcher => .ok ⟨name, pattern, matcher, h, modes, handler⟩
  | .error e => .error e

/-- The rule is active in the mode. -/
def appliesIn (r : Rule σ) (m : Mode) : Bool := m ∈ r.modes

/-- The rule as text, without its handler. -/
def describe (r : Rule σ) : String :=
  let modes := String.intercalate ", " (r.modes.map Mode.describe)
  "Rule \x7b name: " ++ String.ofList (Text.quote r.name) ++ ", pattern: " ++ r.pattern.describe ++
    ", modes: [" ++ modes ++ "], .. \x7d"

end Rule

/-- Rules in the order of their priority. -/
structure RuleSet (σ : Type) where
  rules : List (Rule σ) := []

namespace RuleSet

variable {σ : Type}

/-- The rule of a name. -/
def get? (s : RuleSet σ) (name : String) : Option (Rule σ) := s.rules.find? (·.name = name)

/-- The names of the rules, in order. -/
def names (s : RuleSet σ) : List String := s.rules.map (·.name)

/-- The rules with `r` in the place of the first rule of its name, or at the end. -/
def put (r : Rule σ) : List (Rule σ) → List (Rule σ)
  | [] => [r]
  | q :: qs => if q.name = r.name then r :: qs else q :: put r qs

/-- Appends a rule, or replaces the rule of its name. -/
def add (s : RuleSet σ) (r : Rule σ) : RuleSet σ := ⟨put r s.rules⟩

/-- Adds the rule of a pattern, which counts in mode `0` only. -/
def rule? (s : RuleSet σ) (name : String) (pattern : Pattern) (handler : Handler σ) :
    Except PatternError (RuleSet σ) :=
  s.add <$> Rule.new? name pattern [{}] handler

/-- Appends the rules of `base` whose names are new. -/
def extend (s base : RuleSet σ) : RuleSet σ :=
  ⟨s.rules ++ base.rules.filter fun r => (s.get? r.name).isNone⟩

/-- The rules as text. -/
def describe (s : RuleSet σ) : String :=
  "[" ++ String.intercalate ", " (s.rules.map Rule.describe) ++ "]"

/-- The first rule of a mode with a run at the start of `window`, and the length of the run. -/
def firstMatch? (s : RuleSet σ) (m : Mode) (window : List Opcode) : Option (Rule σ × Nat) :=
  s.rules.findSome? fun r =>
    if r.appliesIn m then (r.matcher.longest? window).map (r, ·) else none

end RuleSet

end StackCode
