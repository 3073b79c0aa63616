import Mathlib.Data.List.Basic
import StackCode.Signature

namespace StackCode.Signature

/-!
# Signatures as lists of words

Stars decide what a word is.  Reading goes from left to right with a state that knows only whether a
star was seen, while the words of a signature come in four groups; a run of plain words is read in
one step, and that connects the two.

* `Starred`, `IsText` — the lists of words that are signatures, described by their stars alone.
* `Spells` — a list of words spells a signature; only a lone star need not be there.
* `parse?_eq_ok` — reading succeeds with the signature that the words spell.
* `spells_argnames` — the words of a signature that was read spell it again.
* `parse?_argnames` — which lists are read, and what they look like when written again.
-/

/-- The word begins with a star. -/
def Starred (s : String) : Prop := ∃ x, s = "*" ++ x

/-- The word begins with two stars. -/
def TwiceStarred (s : String) : Prop := ∃ x, s = "**" ++ x

/-- The lists of words that are signatures: words without a star; then, if at all, a word with one
    star, with words without a star behind it; and last, if at all, a word with two stars. -/
def IsText (words : List String) : Prop :=
  ∃ positional starred last, words = positional ++ starred ++ last ∧
    (∀ s ∈ positional, ¬Starred s) ∧
    (starred = [] ∨ ∃ x kwonly, starred = ("*" ++ x) :: kwonly ∧ ¬Starred x ∧
      ∀ s ∈ kwonly, ¬Starred s) ∧
    (last = [] ∨ ∃ s, last = [s] ∧ TwiceStarred s)

/-- The last word of a signature, if it takes surplus keyword arguments. -/
def lastWord (varkw : Option String) : List String := (varkw.map ("**" ++ ·)).toList

/-- The words spell the signature.  Where nothing takes surplus positional arguments, a lone star
    stands before parameters that are given by keyword only, and may stand without any. -/
inductive Spells : List String → Signature → Prop where
  | unstarred {positional : List String} {varkw : Option String}
      (hpositional : ∀ s ∈ positional, ¬Starred s) :
      Spells (positional ++ lastWord varkw) { positional, varkw }
  | lone {positional kwonly : List String} {varkw : Option String}
      (hpositional : ∀ s ∈ positional, ¬Starred s) (hkwonly : ∀ s ∈ kwonly, ¬Starred s) :
      Spells (positional ++ "*" :: kwonly ++ lastWord varkw) { positional, kwonly, varkw }
  | starred {positional kwonly : List String} {x : String} {varkw : Option String}
      (hpositional : ∀ s ∈ positional, ¬Starred s) (hkwonly : ∀ s ∈ kwonly, ¬Starred s)
      (hx : ¬Starred x) (hne : x ≠ "") :
      Spells (positional ++ ("*" ++ x) :: kwonly ++ lastWord varkw)
        { positional, varargs := some x, kwonly, varkw }

variable {sig sig' : Signature} {starred : Bool} {s x : String} {ps words rest : List String}

/-! ### Words -/

/-- A word is starred when its first character is a star. -/
theorem starred_iff : Starred s ↔ ∃ cs, s.toList = '*' :: cs := by
  constructor
  · rintro ⟨x, rfl⟩
    exact ⟨x.toList, by simp⟩
  · rintro ⟨cs, hcs⟩
    refine ⟨String.ofList cs, String.toList_inj.1 ?_⟩
    rw [hcs, String.toList_append, String.toList_ofList]
    simp

/-- The empty word is not starred. -/
theorem not_starred_empty : ¬Starred "" := by
  rw [starred_iff]
  simp

/-- Words without a star are read as they are. -/
theorem ofText_of_not_starred (h : ¬Starred s) : Word.ofText s = .plain s := by
  rw [starred_iff] at h
  unfold Word.ofText
  split
  · rename_i cs hcs
    exact absurd ⟨_, hcs⟩ h
  · rename_i cs hcs
    exact absurd ⟨_, hcs⟩ h
  · rfl

/-- One star is taken off. -/
theorem ofText_star (h : ¬Starred x) : Word.ofText ("*" ++ x) = .star x := by
  rw [starred_iff] at h
  have htext : ("*" ++ x).toList = '*' :: x.toList := by simp
  unfold Word.ofText
  rw [htext]
  split
  · rename_i cs hcs
    exact absurd ⟨cs, (List.cons.inj hcs).2⟩ h
  · rename_i cs hcs
    rw [← (List.cons.inj hcs).2, String.ofList_toList]
  · rename_i hcs
    exact absurd rfl (hcs _)

/-- Two stars are taken off, and what is behind them may be anything. -/
theorem ofText_starStar (x : String) : Word.ofText ("**" ++ x) = .starStar x := by
  simp [Word.ofText, String.toList_append]

/-- A word has no star, or one, or more. -/
theorem word_cases (s : String) :
    ¬Starred s ∨ (∃ x, s = "*" ++ x ∧ ¬Starred x) ∨ TwiceStarred s := by
  by_cases hs : Starred s
  · obtain ⟨x, rfl⟩ := hs
    by_cases hx : Starred x
    · obtain ⟨y, rfl⟩ := hx
      exact .inr (.inr ⟨y, by rw [← String.append_assoc]; rfl⟩)
    · exact .inr (.inl ⟨x, rfl, hx⟩)
  · exact .inl hs

/-! ### Reading -/

/-- The signature with plain words read on top, by keyword only if a star was read. -/
def plus (sig : Signature) (starred : Bool) (ps : List String) : Signature :=
  if starred then { sig with kwonly := sig.kwonly ++ ps }
  else { sig with positional := sig.positional ++ ps }

/-- Plain words are read one by one. -/
theorem parseOn_plain (hps : ∀ s ∈ ps, ¬Starred s) (hvarkw : sig.varkw = none) :
    parseOn sig starred (ps ++ rest) = parseOn (sig.plus starred ps) starred rest := by
  induction ps generalizing sig with
  | nil => cases starred <;> simp [plus]
  | cons s ps ih =>
    obtain ⟨hs, hps⟩ := List.forall_mem_cons.1 hps
    -- Words are read as long as none with two stars was.
    have hopen : sig.varkw.isSome = false := by rw [hvarkw]; rfl
    rw [List.cons_append, parseOn, ofText_of_not_starred hs]
    cases starred with
    | true =>
      simp only [hopen, Bool.false_eq_true, if_false, if_true]
      have hnext : ({ sig with kwonly := sig.kwonly ++ [s] } : Signature).varkw = none := hvarkw
      rw [ih hps hnext]
      simp [plus]
    | false =>
      simp only [hopen, Bool.false_eq_true, if_false]
      have hnext : ({ sig with positional := sig.positional ++ [s] } : Signature).varkw = none :=
        hvarkw
      rw [ih hps hnext]
      simp [plus]

/-- A word with one star is read once. -/
theorem parseOn_star (hx : ¬Starred x) (hvarkw : sig.varkw = none) :
    parseOn sig starred (("*" ++ x) :: rest) =
      if starred then .error (.duplicateVarargs ("*" ++ x))
      else parseOn (if x.isEmpty then sig else { sig with varargs := some x }) true rest := by
  have hopen : sig.varkw.isSome = false := by rw [hvarkw]; rfl
  rw [parseOn, ofText_star hx]
  simp only [hopen, Bool.false_eq_true, if_false]

/-- A word with two stars is read as the last one. -/
theorem parseOn_starStar (hvarkw : sig.varkw = none) :
    parseOn sig starred (("**" ++ x) :: rest) = .ok sig' ↔
      rest = [] ∧ sig' = { sig with varkw := some x } := by
  have hopen : sig.varkw.isSome = false := by rw [hvarkw]; rfl
  rw [parseOn, ofText_starStar]
  simp only [hopen, Bool.false_eq_true, if_false]
  cases rest with
  | nil => simp [parseOn, eq_comm]
  | cons s rest =>
    rw [parseOn]
    cases Word.ofText s <;> simp

/-- The last word gives the double-starred name, or none. -/
theorem parseOn_lastWord (hvarkw : sig.varkw = none) (varkw : Option String) :
    parseOn sig starred (lastWord varkw) = .ok { sig with varkw } := by
  cases varkw with
  | none =>
    show Except.ok sig = .ok { sig with varkw := none }
    rw [← hvarkw]
  | some x => exact (parseOn_starStar hvarkw).2 ⟨rfl, rfl⟩

/-- Every list of words begins with plain words, up to one that is not. -/
theorem exists_plain_run (words : List String) :
    ∃ ps rest, words = ps ++ rest ∧ (∀ s ∈ ps, ¬Starred s) ∧ ∀ s ∈ rest.head?, Starred s := by
  induction words with
  | nil => exact ⟨[], [], rfl, nofun, nofun⟩
  | cons s words ih =>
    by_cases hs : Starred s
    · exact ⟨[], s :: words, rfl, nofun, by simpa using hs⟩
    · obtain ⟨ps, rest, rfl, hps, hrest⟩ := ih
      exact ⟨s :: ps, rest, rfl, List.forall_mem_cons.2 ⟨hs, hps⟩, hrest⟩

/-- Behind a word with one star, parameters that are given by keyword only are read. -/
theorem parseOn_true_eq_ok (hvarkw : sig.varkw = none) :
    parseOn sig true words = .ok sig' ↔
      ∃ kwonly varkw, (∀ s ∈ kwonly, ¬Starred s) ∧ words = kwonly ++ lastWord varkw ∧
        sig' = { sig with kwonly := sig.kwonly ++ kwonly, varkw } := by
  constructor
  · intro h
    obtain ⟨kwonly, rest, rfl, hkwonly, hrest⟩ := exists_plain_run words
    have hplus : (sig.plus true kwonly).varkw = none := hvarkw
    rw [parseOn_plain hkwonly hvarkw] at h
    cases rest with
    | nil =>
      cases h
      exact ⟨kwonly, none, hkwonly, rfl, by rw [← hvarkw]; rfl⟩
    | cons s rest =>
      -- Behind the plain words a second star is an error, and two stars end the text.
      rcases word_cases s with hs | ⟨x, rfl, hx⟩ | ⟨x, rfl⟩
      · exact absurd (hrest s rfl) hs
      · rw [parseOn_star hx hplus] at h
        cases h
      · obtain ⟨rfl, rfl⟩ := (parseOn_starStar hplus).1 h
        exact ⟨kwonly, some x, hkwonly, rfl, rfl⟩
  · rintro ⟨kwonly, varkw, hkwonly, rfl, rfl⟩
    have hplus : (sig.plus true kwonly).varkw = none := hvarkw
    rw [parseOn_plain hkwonly hvarkw, parseOn_lastWord hplus]
    rfl

/-- **Reading.** Words are read with success as the signature that they spell. -/
theorem parse?_eq_ok : parse? words = .ok sig ↔ Spells words sig := by
  constructor
  · intro h
    obtain ⟨positional, rest, rfl, hpositional, hrest⟩ := exists_plain_run words
    rw [parse?, parseOn_plain hpositional rfl] at h
    cases rest with
    | nil =>
      cases h
      exact @Spells.unstarred _ none hpositional
    | cons s rest =>
      rcases word_cases s with hs | ⟨x, rfl, hx⟩ | ⟨x, rfl⟩
      · exact absurd (hrest s rfl) hs
      · rw [parseOn_star hx rfl] at h
        by_cases hempty : x = ""
        · subst hempty
          obtain ⟨kwonly, varkw, hkwonly, rfl, rfl⟩ := (parseOn_true_eq_ok rfl).1 h
          rw [← List.cons_append, ← List.append_assoc]
          exact .lone hpositional hkwonly
        · have hisEmpty : x.isEmpty = false := by simpa using hempty
          rw [hisEmpty] at h
          obtain ⟨kwonly, varkw, hkwonly, rfl, rfl⟩ := (parseOn_true_eq_ok rfl).1 h
          rw [← List.cons_append, ← List.append_assoc]
          exact .starred hpositional hkwonly hx hempty
      · obtain ⟨rfl, rfl⟩ := (parseOn_starStar rfl).1 h
        exact @Spells.unstarred _ (some x) hpositional
  · intro h
    cases h with
    | unstarred hpositional =>
      rw [parse?, parseOn_plain hpositional rfl, parseOn_lastWord rfl]
      rfl
    | lone hpositional hkwonly =>
      rw [List.append_assoc, parse?, parseOn_plain hpositional rfl]
      -- A lone star is a starred word whose name is empty.
      show parseOn _ false (("*" ++ "") :: (_ ++ lastWord _)) = _
      rw [parseOn_star not_starred_empty rfl]
      exact (parseOn_true_eq_ok rfl).2 ⟨_, _, hkwonly, rfl, rfl⟩
    | @starred _ _ x _ hpositional hkwonly hx hne =>
      have hisEmpty : x.isEmpty = false := by simpa using hne
      rw [List.append_assoc, parse?, parseOn_plain hpositional rfl, List.cons_append,
        parseOn_star hx rfl, hisEmpty]
      exact (parseOn_true_eq_ok rfl).2 ⟨_, _, hkwonly, rfl, rfl⟩

/-! ### Writing -/

/-- The words that spell some signature are those of the text form. -/
theorem spells_isText : (∃ sig, Spells words sig) ↔ IsText words := by
  have hlast : ∀ varkw, lastWord varkw = [] ∨ ∃ s, lastWord varkw = [s] ∧ TwiceStarred s := by
    intro varkw
    cases varkw with
    | none => exact .inl rfl
    | some x => exact .inr ⟨_, rfl, x, rfl⟩
  constructor
  · rintro ⟨sig, h⟩
    cases h with
    | @unstarred positional varkw hpositional =>
      exact ⟨positional, [], lastWord varkw, by simp, hpositional, .inl rfl, hlast varkw⟩
    | @lone positional kwonly varkw hpositional hkwonly =>
      exact ⟨positional, "*" :: kwonly, lastWord varkw, rfl, hpositional,
        .inr ⟨"", kwonly, rfl, not_starred_empty, hkwonly⟩, hlast varkw⟩
    | @starred positional kwonly x varkw hpositional hkwonly hx hne =>
      exact ⟨positional, ("*" ++ x) :: kwonly, lastWord varkw, rfl, hpositional,
        .inr ⟨x, kwonly, rfl, hx, hkwonly⟩, hlast varkw⟩
  · -- The kind of the signature is told by the word with one star: there is none, a lone one, or
    -- one with a name.
    rintro ⟨positional, starred, last, rfl, hpositional, hstarred, hlast⟩
    obtain ⟨varkw, rfl⟩ : ∃ varkw, last = lastWord varkw := by
      rcases hlast with rfl | ⟨_, rfl, x, rfl⟩
      · exact ⟨none, rfl⟩
      · exact ⟨some x, rfl⟩
    rcases hstarred with rfl | ⟨x, kwonly, rfl, hx, hkwonly⟩
    · rw [List.append_nil]
      exact ⟨_, .unstarred hpositional⟩
    · by_cases hempty : x = ""
      · subst hempty
        exact ⟨_, .lone hpositional hkwonly⟩
      · exact ⟨_, .starred hpositional hkwonly hx hempty⟩

section

variable {positional kwonly : List String} {varkw : Option String}

/-- Without names behind the positional ones there is no star. -/
theorem argnames_unstarred :
    argnames { positional, varkw } = positional ++ lastWord varkw := by
  cases varkw <;> simp [argnames, lastWord]

/-- Names behind the positional ones are set off by a star of its own. -/
theorem argnames_lone (hne : kwonly ≠ []) :
    argnames { positional, kwonly, varkw } = positional ++ "*" :: kwonly ++ lastWord varkw := by
  have hkwonly : kwonly.isEmpty = false := by simpa using hne
  cases varkw <;> simp [argnames, lastWord, hkwonly]

/-- The starred name sets off the names behind it. -/
theorem argnames_starred :
    argnames { positional, varargs := some x, kwonly, varkw } =
      positional ++ ("*" ++ x) :: kwonly ++ lastWord varkw := by
  cases varkw <;> simp [argnames, lastWord]

/-- A star of its own is no starred name. -/
theorem lone_ne_append (hne : x ≠ "") : "*" ≠ "*" ++ x := by
  intro h
  have hlist := congrArg String.toList h
  apply hne
  simpa using hlist

/-- A star of its own is none of the positional names. -/
theorem lone_not_mem_plain (hps : ∀ s ∈ ps, ¬Starred s) : "*" ∉ ps :=
  fun h => hps _ h ⟨"", rfl⟩

/-- A star of its own is not the last word either. -/
theorem lone_not_mem_lastWord : "*" ∉ lastWord varkw := by
  cases varkw with
  | none => exact List.not_mem_nil
  | some x =>
    intro h
    have hlist := congrArg String.toList (List.mem_singleton.1 h)
    simp at hlist

end

/-- A signature is written with the words that spell it, but for a lone star that no parameter by
    keyword follows. -/
theorem argnames_of_spells (h : Spells words sig) :
    sig.argnames = if sig.kwonly = [] then words.erase "*" else words := by
  cases h with
  | unstarred hpositional =>
    rw [argnames_unstarred, if_pos rfl, List.erase_of_not_mem]
    simp [lone_not_mem_plain hpositional, lone_not_mem_lastWord]
  | @lone positional kwonly varkw hpositional hkwonly =>
    split
    · rename_i hempty
      obtain rfl : kwonly = [] := hempty
      show argnames { positional, varkw } = _
      rw [argnames_unstarred, List.append_assoc,
        List.erase_append_right _ (lone_not_mem_plain hpositional)]
      simp
    · rename_i hne
      exact argnames_lone hne
  | starred hpositional hkwonly hx hne =>
    rw [argnames_starred]
    split
    · rw [List.erase_of_not_mem]
      simp [lone_not_mem_plain hpositional, lone_not_mem_plain hkwonly, lone_not_mem_lastWord,
        lone_ne_append hne]
    · rfl

/-- The words that a signature is written with spell it. -/
theorem spells_argnames (h : Spells words sig) : Spells sig.argnames sig := by
  cases h with
  | unstarred hpositional =>
    rw [argnames_unstarred]
    exact .unstarred hpositional
  | @lone positional kwonly varkw hpositional hkwonly =>
    by_cases hne : kwonly = []
    · subst hne
      show Spells (argnames { positional, varkw }) _
      rw [argnames_unstarred]
      exact .unstarred hpositional
    · rw [argnames_lone hne]
      exact .lone hpositional hkwonly
  | starred hpositional hkwonly hx hne =>
    rw [argnames_starred]
    exact .starred hpositional hkwonly hx hne

/-- **Signatures as text.** A list of words is read with success exactly when it is some words
    without a star, then, if at all, a word with one star and words without a star behind it, and
    last, if at all, a word with two stars.  The signature is written as the same list, but for a
    lone star that no parameter by keyword follows, which is left out; and what is written is read
    as the same signature. -/
theorem parse?_argnames (words : List String) :
    ((∃ sig, parse? words = .ok sig) ↔ IsText words) ∧
      ∀ sig, parse? words = .ok sig →
        sig.argnames = (if sig.kwonly = [] then words.erase "*" else words) ∧
          parse? sig.argnames = .ok sig := by
  simp only [parse?_eq_ok]
  exact ⟨spells_isText, fun sig h => ⟨argnames_of_spells h, spells_argnames h⟩⟩

/-- Names may be empty, and may go on with stars. -/
theorem parse?_argnames_lone :
    parse? ["a", "", "*", "***k"] = .ok { positional := ["a", ""], varkw := some "*k" } ∧
      argnames { positional := ["a", ""], varkw := some "*k" } = ["a", "", "***k"] := by
  have hread : parse? ["a", "", "*", "***k"] =
      .ok { positional := ["a", ""], varkw := some "*k" } := by decide
  exact ⟨hread, ((parse?_argnames _).2 _ hread).1⟩

end StackCode.Signature
