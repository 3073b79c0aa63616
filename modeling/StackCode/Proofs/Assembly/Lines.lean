import StackCode.Assembly
import StackCode.Proofs.Routine.Builder

namespace StackCode.Assembly

/-!
# Lines of assembly text

The reader and the builder are taken apart here: a line is read first, which depends on its text
alone, and then done, which depends on the state.  Proofs about states start from what a line says.

* `Line` — what a line says: a directive, a label, an instruction, or nothing.
* `State.perform` — does what a line says; `State.line_eq` says that lines are done so.
* `State.directive_eq_ok`, `State.label_eq_ok`, `State.operand_eq_ok` — what a part of a line does
  when it succeeds.
* `State.run_induction` — what every line keeps holds after all of them.
-/

/-- What a line says. -/
inductive Line where
  | blank
  | directive (text : List Char)
  | label (text : List Char)
  | instruction (text : List Char)

namespace Line

/-- What a line says that has neither comments nor blanks around it. -/
def ofText : List Char → Line
  | [] => .blank
  | '.' :: rest => .directive rest
  | text => if text.getLast? = some ':' then .label (Text.trim text.dropLast) else .instruction text

/-- What a line says. -/
def read (raw : List Char) : Line := ofText (Text.trim (stripComment raw))

/-- A line that is no directive is told by its last character. -/
theorem ofText_of_ne {text : List Char} (hempty : text ≠ []) (hdot : ∀ rest, text ≠ '.' :: rest) :
    ofText text =
      if text.getLast? = some ':' then .label (Text.trim text.dropLast) else .instruction text := by
  unfold ofText
  split
  · exact absurd rfl hempty
  · rename_i rest
    exact absurd rfl (hdot rest)
  · rfl

/-- The name that the line defines. -/
def label? : Line → Option String
  | label text => some (String.ofList text)
  | _ => none

/-- Whether a line adds an instruction. -/
def isInstruction : Line → Bool
  | instruction _ => true
  | _ => false

/-- The opcode of an instruction line. -/
def opcode? : Line → Option Opcode
  | instruction text =>
    (Opcode.ofName? (String.ofList ((Text.cutAtBlank text).1.map Char.toUpper))).toOption
  | _ => none

/-- The text of the operand of an instruction line. -/
def operand : Line → List Char
  | instruction text => Text.trim (Text.cutAtBlank text).2
  | _ => []

/-- The name that a jump line jumps to. -/
def jumpsTo? (line : Line) : Option String :=
  match line.opcode? with
  | some op => if op.isJump then some (String.ofList line.operand) else none
  | none => none

end Line

/-- The number of instruction lines before line `k`, which is the position of an instruction that
    stands there. -/
def position (lines : List Line) (k : Nat) : Nat := (lines.take k).countP Line.isInstruction

/-! ### Marks -/

/-- The label with its definition noted, if it has the name. -/
def mark (name : String) (label : LabelEntry) : LabelEntry :=
  if label.name = name then { label with defined := true } else label

/-- Placing a label leaves names alone. -/
@[simp] theorem name_mark (name : String) (label : LabelEntry) :
    (mark name label).name = label.name := by
  unfold mark
  split <;> rfl

/-- Placing a label leaves handles alone. -/
@[simp] theorem handle_mark (name : String) (label : LabelEntry) :
    (mark name label).handle = label.handle := by
  unfold mark
  split <;> rfl

/-- Placing a label marks the label of that name, and no other. -/
@[simp] theorem defined_mark (name : String) (label : LabelEntry) :
    (mark name label).defined = true ↔ label.name = name ∨ label.defined = true := by
  unfold mark
  split
  · rename_i hname
    exact iff_of_true rfl (.inl hname)
  · rename_i hname
    exact (or_iff_right hname).symm

namespace State

variable {s s' : State} {current : Nat}

/-! ### Parts of lines -/

/-- Does what a line says. -/
def perform (s : State) (current : Nat) : Line → Except AssemblyFault State
  | .blank => .ok s
  | .directive text => s.directive text
  | .label text => s.define current text
  | .instruction text => s.instruction current text

/-- **Lines.** A line is first read, and then carried out. -/
theorem line_eq (s : State) (current : Nat) (raw : List Char) :
    s.line current raw = s.perform current (Line.read raw) := by
  unfold line Line.read
  generalize Text.trim (stripComment raw) = text
  split
  · rfl
  · rfl
  · rename_i hempty hdot
    rw [Line.ofText_of_ne hempty hdot]
    split <;> rfl

/-- A call of the builder succeeds when it does for the builder of the state, which is all that
    changes. -/
theorem build_eq_ok {α : Type} {act : BuilderM α} {a : α} :
    s.build act = .ok (a, s') ↔
      ∃ b, act.run s.builder = .ok a b ∧ { s with builder := b } = s' := by
  unfold build
  cases act.run s.builder with
  | ok c b =>
    simp only [Except.ok.injEq, Prod.mk.injEq, EStateM.Result.ok.injEq]
    constructor
    · rintro ⟨rfl, rfl⟩
      exact ⟨b, ⟨rfl, rfl⟩, rfl⟩
    · rintro ⟨_, ⟨rfl, rfl⟩, rfl⟩
      exact ⟨rfl, rfl⟩
  | error e b => simp

/-- A setting succeeds under the same condition. -/
theorem set_eq_ok {act : BuilderM Unit} :
    s.set act = .ok s' ↔ ∃ b, act.run s.builder = .ok () b ∧ { s with builder := b } = s' := by
  rw [set, bind_eq_ok]
  constructor
  · rintro ⟨⟨_, t⟩, hbuild, h⟩
    cases h
    exact build_eq_ok.1 hbuild
  · intro h
    exact ⟨((), s'), build_eq_ok.2 h, rfl⟩

/-- An identifier is taken as it stands. -/
theorem identifier_eq_ok {text : List Char} {name : String} (h : identifier text = .ok name) :
    name = String.ofList text := by
  unfold identifier at h
  split at h
  · cases h
    rfl
  · cases h

/-- The builders have the same code and the same flags. -/
structure SameCode (b b' : Builder) : Prop where
  pool : b'.draft.pool = b.draft.pool
  instrs : b'.draft.instrs = b.draft.instrs
  pendingLabels : b'.pendingLabels = b.pendingLabels
  flags : b'.draft.flags = b.draft.flags

/-- Directives describe the routine, and leave its code as it is. -/
theorem directive_eq_ok {text : List Char} (h : s.directive text = .ok s') :
    s'.labels = s.labels ∧ SameCode s.builder s'.builder := by
  -- All directives but the one for lines change what the draft says beside its code.
  have hdraft : ∀ f : Draft → Draft, s.set (Builder.modifyDraft f) = .ok s' →
      (∀ d, (f d).pool = d.pool ∧ (f d).instrs = d.instrs ∧ (f d).flags = d.flags) →
      s'.labels = s.labels ∧ SameCode s.builder s'.builder := by
    intro f hset hf
    obtain ⟨b, hrun, rfl⟩ := set_eq_ok.1 hset
    cases hrun
    obtain ⟨hpool, hinstrs, hflags⟩ := hf s.builder.draft
    exact ⟨rfl, hpool, hinstrs, rfl, hflags⟩
  unfold directive at h
  dsimp only at h
  split at h
  · exact hdraft _ h fun d => ⟨rfl, rfl, rfl⟩
  · exact hdraft _ h fun d => ⟨rfl, rfl, rfl⟩
  · split at h
    · exact hdraft _ h fun d => ⟨rfl, rfl, rfl⟩
    · cases h
  · split at h
    · obtain ⟨b, hrun, rfl⟩ := set_eq_ok.1 h
      cases hrun
      exact ⟨rfl, rfl, rfl, rfl, rfl⟩
    · cases h
  · split at h
    · exact hdraft _ h fun d => ⟨rfl, rfl, rfl⟩
    · cases h
  · -- The parameters are read before the draft changes.
    obtain ⟨b, hrun, rfl⟩ := set_eq_ok.1 h
    obtain ⟨sig, b', hcheck, hrun⟩ := run_bind_eq_ok.1 hrun
    obtain ⟨-, rfl⟩ := run_guarded_eq_ok.1 hcheck
    exact hdraft _ (set_eq_ok.2 ⟨b, hrun, rfl⟩) fun d => ⟨rfl, rfl, rfl⟩
  · exact hdraft _ h fun d => ⟨rfl, rfl, rfl⟩
  · exact hdraft _ h fun d => ⟨rfl, rfl, rfl⟩
  · cases h

/-- A name stands for a label that was mentioned before, or for a new one. -/
theorem label_eq_ok {name : String} {handle : Handle} (h : s.label current name = .ok (handle, s')) :
    (∃ entry ∈ s.labels, entry.name = name ∧ entry.handle = handle ∧ s' = s) ∨
      (∀ entry ∈ s.labels, entry.name ≠ name) ∧ ∃ b, Builder.label.run s.builder = .ok handle b ∧
        s' = ⟨b, s.labels ++ [⟨name, handle, current, false⟩]⟩ := by
  unfold label at h
  split at h
  · rename_i entry hfind
    cases h
    exact .inl ⟨entry, List.mem_of_find?_eq_some hfind, by simpa using List.find?_some hfind, rfl, rfl⟩
  · rename_i hnone
    obtain ⟨⟨handle', t⟩, hbuild, h⟩ := bind_eq_ok.1 h
    obtain ⟨b, hrun, rfl⟩ := build_eq_ok.1 hbuild
    cases h
    refine .inr ⟨fun entry hentry => ?_, b, hrun, rfl⟩
    simpa using List.find?_eq_none.1 hnone entry hentry

/-- The operand of a line fits its opcode; that of a jump is the placeholder of its label. -/
theorem operand_eq_ok {opcode : Opcode} {text : List Char} {o : Operand}
    (h : s.operand current opcode text = .ok (o, s')) :
    o.fits opcode.operandClass = true ∧
      ((opcode.isJump = false ∧ o.target? = none ∧ s' = s) ∨
        opcode.isJump = true ∧ ∃ handle,
          s.label current (String.ofList text) = .ok (handle, s') ∧ o = .jump handle) := by
  unfold operand at h
  rw [Opcode.isJump]
  cases hclass : opcode.operandClass with
  | none =>
    simp only [hclass] at h
    split at h
    · cases h
      exact ⟨rfl, .inl ⟨rfl, rfl, rfl⟩⟩
    · cases h
  | int =>
    simp only [hclass] at h
    split at h
    · cases h
    · split at h
      · cases h
        exact ⟨rfl, .inl ⟨rfl, rfl, rfl⟩⟩
      · cases h
  | const =>
    simp only [hclass] at h
    split at h
    · cases h
    · split at h
      · cases h
        exact ⟨rfl, .inl ⟨rfl, rfl, rfl⟩⟩
      · cases h
  | name | «local» | free =>
    simp only [hclass] at h
    split at h
    · cases h
    · obtain ⟨name, -, h⟩ := map_eq_ok.1 h
      cases h
      exact ⟨rfl, .inl ⟨rfl, rfl, rfl⟩⟩
  -- A jump is the only operand that changes the state: it may mention a new label.
  | jumpAbs | jumpRel =>
    simp only [hclass] at h
    split at h
    · cases h
    · obtain ⟨name, hname, h⟩ := bind_eq_ok.1 h
      obtain ⟨⟨handle, t⟩, hlabel, h⟩ := bind_eq_ok.1 h
      cases h
      cases identifier_eq_ok hname
      exact ⟨rfl, .inr ⟨rfl, handle, hlabel, rfl⟩⟩

/-- A label line marks its label and places it, if it was not marked before. -/
theorem define_eq_ok {text : List Char} (h : s.define current text = .ok s') :
    ∃ handle t, s.label current (String.ofList text) = .ok (handle, t) ∧
      (t.find? (String.ofList text)).any (·.defined) = false ∧
      s' = ⟨{ t.builder with pendingLabels := t.builder.pendingLabels ++ [handle] },
        t.labels.map (mark (String.ofList text))⟩ := by
  obtain ⟨name, hname, h⟩ := bind_eq_ok.1 h
  cases identifier_eq_ok hname
  obtain ⟨⟨handle, t⟩, hlabel, h⟩ := bind_eq_ok.1 h
  refine ⟨handle, t, hlabel, ?_⟩
  dsimp only at h
  split at h
  · cases h
  · rename_i hundefined
    obtain ⟨b, hplace, rfl⟩ := set_eq_ok.1 h
    cases hplace
    exact ⟨Bool.eq_false_iff.2 hundefined, rfl⟩

/-- An instruction line reads its operand and pushes the instruction. -/
theorem instruction_eq_ok {text : List Char} (h : s.instruction current text = .ok s') :
    ∃ opcode o t id b, (Line.instruction text).opcode? = some opcode ∧
      s.operand current opcode (Line.instruction text).operand = .ok (o, t) ∧
      (Builder.push opcode o).run t.builder = .ok id b ∧ s' = { t with builder := b } := by
  unfold instruction at h
  dsimp only at h
  split at h
  · cases h
  · rename_i opcode hopcode
    obtain ⟨⟨o, t⟩, hoperand, h⟩ := bind_eq_ok.1 h
    obtain ⟨⟨id, t'⟩, hbuild, h⟩ := bind_eq_ok.1 h
    obtain ⟨b, hrun, rfl⟩ := build_eq_ok.1 hbuild
    cases h
    exact ⟨opcode, o, t, id, b, by rw [Line.opcode?, hopcode]; rfl, hoperand, hrun, rfl⟩

/-- At the end all labels are defined and stand somewhere, and the routine is that of the draft. -/
theorem finish_eq_ok {last : Nat} {c : Routine} (h : s.finish last = .ok c) :
    (∀ label ∈ s.labels, label.defined = true) ∧ s.builder.pendingLabels = [] ∧
      Routine.ofDraft? s.builder.draft = .ok c := by
  unfold finish at h
  split at h
  · cases h
  · rename_i hnone
    split at h
    · rename_i c' b hbuild
      cases h
      refine ⟨fun label hlabel => ?_, ?_⟩
      · simpa using List.find?_eq_none.1 hnone label hlabel
      · obtain ⟨b', b'', hget, hbuild⟩ := run_bind_eq_ok.1 hbuild
        cases hget
        dsimp only at hbuild
        split at hbuild
        · rename_i hempty
          obtain ⟨_, _, -, hcheck⟩ := run_bind_eq_ok.1 hbuild
          exact ⟨List.isEmpty_iff.1 hempty, (run_guarded_eq_ok.1 hcheck).1⟩
        · cases hbuild
    · cases h

/-! ### Runs -/

/-- **Induction on lines.** What every line keeps holds after all of them, whatever was done
    before. -/
theorem run_induction {I : List Line → State → Prop}
    (hline : ∀ lines s s' current raw, I lines s → s.line current raw = .ok s' →
      I (lines ++ [Line.read raw]) s')
    {lines : List Line} {raws : List (List Char)} (hstart : I lines s)
    (hrun : s.run current raws = .ok s') : I (lines ++ raws.map Line.read) s' := by
  induction raws generalizing s current lines with
  | nil =>
    cases hrun
    rwa [List.map_nil, List.append_nil]
  | cons raw rest ih =>
    rw [run] at hrun
    split at hrun
    · rename_i t hfirst
      have hrest := ih (hline lines s t current raw hstart hfirst) hrun
      rwa [List.append_assoc] at hrest
    · cases hrun

end State

end StackCode.Assembly
