import StackCode.Pattern

namespace StackCode

/-!
# Matching patterns

* `Pattern.compile?` — the matcher of a pattern.  Patterns of one instruction become sets of
  opcodes, and only those can be negated.
* `Matcher.ends` — the places of a window at which runs from given places can end.
* `Matcher.longest?` — the length of the longest run at the start of a window.
* `PatternError` — why a pattern has no matcher.
-/

/-- Why a pattern has no matcher. -/
inductive PatternError where
  | emptySequence
  | emptyAlternation
  /-- A lower bound above the upper one. -/
  | invertedRange (least most : Nat)
  /-- A repetition of which zero is the upper bound. -/
  | zeroRepeat
  /-- The negation of a pattern that is no set of opcodes. -/
  | negatedRun
  deriving DecidableEq, Repr

def PatternError.message : PatternError → String
  | .emptySequence => "empty sequence pattern"
  | .emptyAlternation => "empty alternation pattern"
  | .invertedRange least most => s!"inverted repetition range {least}..={most}"
  | .zeroRepeat => "repetition bounded by zero never consumes an instruction"
  | .negatedRun => "only single-instruction patterns can be negated"

/-- The compiled form of a pattern. -/
inductive Matcher where
  /-- One instruction whose opcode is in the set. -/
  | cls (has : Opcode → Bool)
  | seq (parts : List Matcher)
  | alt (alternatives : List Matcher)
  | rep (m : Matcher) (least : Nat) (most : Option Nat)

namespace Matcher

/-! ### Compilation -/

/-- The set of a matcher of one instruction. -/
def set? : Matcher → Option (Opcode → Bool)
  | cls has => some has
  | _ => none

/-- The union of sets of opcodes. -/
def union (sets : List (Opcode → Bool)) : Opcode → Bool := fun o => sets.any (· o)

/-- The matcher of parts in order; a single part is its own. -/
def ofParts : List Matcher → Except PatternError Matcher
  | [] => .error .emptySequence
  | [m] => .ok m
  | ms => .ok (seq ms)

/-- The matcher of alternatives: a set if all of them are, and a single one is its own. -/
def ofAlternatives (ms : List Matcher) : Except PatternError Matcher :=
  if ms.isEmpty then .error .emptyAlternation
  else
    match ms.mapM set? with
    | some sets => .ok (cls (union sets))
    | none =>
      match ms with
      | [m] => .ok m
      | ms => .ok (alt ms)

/-- The bounds of a repetition are in order and allow an instruction. -/
def checkBounds (least : Nat) : Option Nat → Except PatternError Unit
  | none => .ok ()
  | some most =>
    if most < least then .error (.invertedRange least most)
    else if most = 0 then .error .zeroRepeat
    else .ok ()

end Matcher

namespace Pattern

mutual

/-- The matcher of a pattern. -/
def compile? : Pattern → Except PatternError Matcher
  | op o => .ok (.cls (· = o))
  | any => .ok (.cls fun _ => true)
  | not p => do
    let m ← compile? p
    match m.set? with
    | some has => return .cls fun o => !has o
    | none => throw .negatedRun
  | seq ps => do
    let ms ← compileList? ps
    Matcher.ofParts ms
  | alt ps => do
    let ms ← compileList? ps
    Matcher.ofAlternatives ms
  | rep p least most => do
    Matcher.checkBounds least most
    let m ← compile? p
    return .rep m least most

/-- The matchers of patterns, the first fault of them first. -/
def compileList? : List Pattern → Except PatternError (List Matcher)
  | [] => .ok []
  | p :: ps => do
    let m ← compile? p
    let ms ← compileList? ps
    return m :: ms

end

end Pattern

namespace Matcher

/-! ### Sets of places -/

/-- A place joins a set that is kept as the bits of a number. -/
theorem testBit_or_one_shiftLeft (seen p q : Nat) :
    (seen ||| 1 <<< p).testBit q = (seen.testBit q || decide (p = q)) := by
  rw [Nat.testBit_or, Nat.one_shiftLeft, Nat.testBit_two_pow]

/-- The set `seen` with the places `ps`. -/
def mark (seen : Nat) (ps : List Nat) : Nat := ps.foldl (fun s p => s ||| 1 <<< p) seen

/-- A place is marked when it was seen, or is one of the new ones. -/
theorem testBit_mark (seen : Nat) (ps : List Nat) (q : Nat) :
    (mark seen ps).testBit q = true ↔ seen.testBit q = true ∨ q ∈ ps := by
  unfold mark
  induction ps generalizing seen with
  | nil => simp
  | cons p ps ih =>
    rw [List.foldl_cons, ih, testBit_or_one_shiftLeft]
    grind

/-- The places that are not in the set `seen`, each of them once. -/
def distinct (seen : Nat) : List Nat → List Nat
  | [] => []
  | p :: ps =>
    if seen.testBit p then distinct seen ps else p :: distinct (seen ||| 1 <<< p) ps

/-- What is left are the places that were not seen before, each of them once. -/
theorem mem_distinct (seen : Nat) (ps : List Nat) (q : Nat) :
    q ∈ distinct seen ps ↔ q ∈ ps ∧ seen.testBit q = false := by
  induction ps generalizing seen with
  | nil => simp [distinct]
  | cons p ps ih =>
    unfold distinct
    split
    · rw [ih]
      grind
    · rw [List.mem_cons, ih, testBit_or_one_shiftLeft]
      grind

/-! ### Repetition -/

/-- The places reached from `places` in exactly `n` rounds. -/
def advance (step : List Nat → List Nat) : (n : Nat) → (places : List Nat) → List Nat
  | 0, places => places
  | n + 1, places =>
    let next := distinct 0 (step places)
    if next.isEmpty then [] else advance step n next

/-- The places reached from `places` in at most `rounds` rounds that are not in `seen`.  Only
    places that are new take part in the next round. -/
def explore (step : List Nat → List Nat) :
    (rounds : Nat) → (seen : Nat) → (places : List Nat) → List Nat
  | 0, _, _ => []
  | rounds + 1, seen, places =>
    let fresh := distinct seen (step places)
    if fresh.isEmpty then [] else fresh ++ explore step rounds (mark seen fresh) fresh

/-- The places reached from `places` in `least` to `most` rounds.  A window of `size` instructions
    has `size + 1` places, so that as many rounds find all that are new. -/
def repeated (step : List Nat → List Nat) (size least : Nat) (most : Option Nat)
    (places : List Nat) : List Nat :=
  let enough := size + 1
  let rounds := match most with
    | some m => min (m - least) enough
    | none => enough
  let base := advance step least places
  base ++ explore step rounds (mark 0 base) base

/-! ### Matching -/

mutual

/-- The places of `window` at which runs from one of `places` can end. -/
def ends (window : Array Opcode) : Matcher → (places : List Nat) → List Nat
  | cls has, places =>
    places.filterMap fun p => if (window[p]?).any has then some (p + 1) else none
  | seq ms, places => endsAll window ms places
  | alt ms, places => distinct 0 (endsAny window ms places)
  | rep m least most, places => repeated (ends window m) window.size least most places

/-- The places at which runs of all matchers in order can end. -/
def endsAll (window : Array Opcode) : List Matcher → (places : List Nat) → List Nat
  | [], places => places
  | m :: ms, places => endsAll window ms (ends window m places)

/-- The places at which runs of one of the matchers can end. -/
def endsAny (window : Array Opcode) : List Matcher → (places : List Nat) → List Nat
  | [], _ => []
  | m :: ms, places => ends window m places ++ endsAny window ms places

end

/-- The length of the longest run at the start of `window`; the empty run does not count. -/
def longest? (m : Matcher) (window : List Opcode) : Option Nat :=
  match (m.ends window.toArray [0]).max? with
  | some n => if n = 0 then none else some n
  | none => none

end Matcher

end StackCode
