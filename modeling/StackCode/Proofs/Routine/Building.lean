import Mathlib.Data.List.Induction
import StackCode.Proofs.LineMap
import StackCode.Proofs.Routine.Builder
import StackCode.Proofs.Routine.Storable

namespace StackCode

/-!
# Calls of a builder

Calls may name a line or a label some time before the instruction that these come to is pushed.  The
account of a builder is therefore given for the calls made so far: what waits, and what was reached
by an instruction.  One call keeps the account, and in the end nothing waits.

* `Builder.Call` — a call of a builder; `Builder.Lawful` says which sequences of calls succeed.
* `Builder.Waits`, `Builder.Reaches` — the line or the label that waits for the next instruction,
  and the instruction that comes to it.
* `Builder.Follows` — a builder stands for the calls made so far; `Builder.Follows.run` says that
  one call keeps it, `Builder.Follows.run_all` says so of all calls.
* `Builder.Builds` — the routine that calls describe; `Builder.build_of_calls` says when they build
  it.
-/

/-- What is known of a body beside its code. -/
def Body.description (b : Body) : Body := { b with pool := {}, instrs := [], lines := .empty }

/-! ### Checks and stores that fail -/

/-- The check of known instructions that stand once fails at a variable only. -/
theorem Body.check_eq_error {b : Body} {seen ids : List Handle} {err : BuildError}
    (h : b.check seen ids = .error err) (hdistinct : ids.Nodup)
    (hids : ∀ id ∈ ids, id ∉ seen ∧ ∃ i, b.pool.get? id = some i) :
    ∃ id ∈ ids, ∃ i name, b.pool.get? id = some i ∧ i.operand = .freeVar name ∧
      name ∉ b.cellvars ++ b.freevars ∧ err = .unknownFreeVar i.opcode name := by
  induction ids generalizing seen with
  | nil => cases h
  | cons id rest ih =>
    obtain ⟨⟨hseen, i, hi⟩, hrest⟩ := List.forall_mem_cons.1 hids
    obtain ⟨hid, hdistinct⟩ := List.nodup_cons.1 hdistinct
    -- Where the check goes on, it fails at one of the other instructions.
    have hlater : b.check (id :: seen) rest = .error err → ∃ id' ∈ id :: rest, ∃ i name,
        b.pool.get? id' = some i ∧ i.operand = .freeVar name ∧
          name ∉ b.cellvars ++ b.freevars ∧ err = .unknownFreeVar i.opcode name := by
      intro h
      obtain ⟨id', hid', hfails⟩ := ih h hdistinct fun j hj => by
        refine ⟨fun hmem => ?_, (hrest j hj).2⟩
        rcases List.mem_cons.1 hmem with rfl | hmem
        · exact hid hj
        · exact (hrest j hj).1 hmem
      exact ⟨id', List.mem_cons_of_mem _ hid', hfails⟩
    rw [check, hi] at h
    simp only [if_neg hseen] at h
    split at h
    · rename_i name hname
      split at h
      · exact hlater h
      · rename_i hunknown
        cases h
        exact ⟨id, List.mem_cons_self, i, name, hi, hname, mt List.mem_append.1 hunknown, rfl⟩
    · exact hlater h

/-- Moving targets makes no free variable and unmakes none. -/
theorem Operand.mapTarget_eq_freeVar {f : Handle → Handle} {o : Operand} {name : String} :
    o.mapTarget f = .freeVar name ↔ o = .freeVar name := by
  cases o <;> simp [Operand.mapTarget]

/-- A routine that is stored has no jump out of its sequence. -/
theorem Routine.jumpsLive_of_store {c : Routine} {options : StoreOptions} {unit : StoredUnit}
    (hc : c.Sound) (h : c.store? options = .ok unit) : c.JumpsLive := by
  obtain ⟨_, hunit, -⟩ := bind_eq_ok.1 h
  obtain ⟨placed, hlayout, hunit⟩ := bind_eq_ok.1 hunit
  obtain ⟨-, rfl⟩ := Body.layout?_eq_ok.1 hlayout
  obtain ⟨bytes, hbytes, -⟩ := bind_eq_ok.1 hunit
  refine jumpsLive_iff_code.2 fun k hk t ht => ?_
  obtain ⟨v, hv, -⟩ := (Body.exists_codeBytes_iff hc).1 ⟨bytes, hbytes⟩ k hk
  have hmem : c.code[k].2.operand ∈ c.operands := List.mem_map_of_mem (List.getElem_mem hk)
  exact ((Body.exists_operandValue_iff hc hmem).1 ⟨v, hv⟩ t ht).1

namespace Builder

/-! ### Calls -/

/-- What a routine is described by beside its code. -/
inductive Setting where
  | name (s : String)
  | filename (s : String)
  | firstlineno (line : UInt32)
  | encoding (e : Encoding)
  | flags (f : Flags)
  | cellvars (names : List String)
  | freevars (names : List String)
  deriving DecidableEq

/-- What the setting says of the routine, written into the draft. -/
def Setting.apply (d : Draft) : Setting → Draft
  | .name s => { d with name := s }
  | .filename s => { d with filename := s }
  | .firstlineno line => { d with firstlineno := line }
  | .encoding e => { d with encoding := e }
  | .flags f => { d with flags := some f }
  | .cellvars names => { d with cellvars := names }
  | .freevars names => { d with freevars := names }

/-- A call of a builder. -/
inductive Call where
  | set (s : Setting)
  | args (words : List String)
  | line (line : UInt32)
  | label
  | place (label : Handle)
  | push (opcode : Opcode) (operand : Operand)
  | pushInstr (i : Instr)
  deriving DecidableEq

namespace Call

/-- The call, with the handle that it gives out. -/
def run : Call → BuilderM (Option Handle)
  | set s => do modifyDraft s.apply; return none
  | args words => do Builder.args words; return none
  | line n => do Builder.line n; return none
  | label => do return some (← Builder.label)
  | place l => do Builder.place l; return none
  | push opcode operand => do return some (← Builder.push opcode operand)
  | pushInstr i => do return some (← Builder.pushInstr i)

/-- The instruction that a call pushes. -/
def instr? : Call → Option Instr
  | push opcode operand => some ⟨opcode, operand⟩
  | pushInstr i => some i
  | _ => none

/-- The call pushes an instruction. -/
def pushes (call : Call) : Bool := call.instr?.isSome

/-- The call gives out a handle. -/
def stores (call : Call) : Bool := call = label || call.pushes

/-- The call decides about the line of the next instruction: it names one, or pushes. -/
def endsLine : Call → Bool
  | line _ => true
  | call => call.pushes

/-- What the call says of the routine beside its code. -/
def describe (d : Draft) : Call → Draft
  | set s => s.apply d
  | args words =>
    match Signature.parse? words with
    | .ok sig => { d with signature := sig }
    | .error _ => d
  | _ => d

end Call

/-- The handle that is given out next after the calls. -/
def next (calls : List Call) : Handle := calls.countP Call.stores

/-- The calls, each with the handle that is given out next, from `id` on. -/
def number (id : Handle) : List Call → List (Handle × Call)
  | [] => []
  | call :: rest => (id, call) :: number (if call.stores then id + 1 else id) rest

/-- The labels of the calls. -/
def labels (calls : List Call) : List Handle :=
  (number 0 calls).filterMap fun entry => if entry.2 = .label then some entry.1 else none

/-- The instructions that the calls push, under their handles. -/
def pushed (calls : List Call) : List (Handle × Instr) :=
  (number 0 calls).filterMap fun entry => entry.2.instr?.map (entry.1, ·)

/-- The draft as the calls describe it, without its code. -/
def described (calls : List Call) : Draft := calls.foldl Call.describe ({} : Builder).draft

/-- Behind `start`, the calls have not met `stop`. -/
def Waits (stop : Call → Bool) (calls : List Call) (start : Call) : Prop :=
  ∃ before behind, calls = before ++ start :: behind ∧ ∀ call ∈ behind, stop call = false

/-- The first call behind `start` that meets `stop` pushes the instruction `id`. -/
def Reaches (stop : Call → Bool) (calls : List Call) (start : Call) (id : Handle) : Prop :=
  ∃ before between call behind, calls = before ++ start :: between ++ call :: behind ∧
    (∀ call ∈ between, stop call = false) ∧ call.pushes = true ∧
    id = next (before ++ start :: between)

section

variable {calls : List Call} {call start : Call} {stop : Call → Bool} {id : Handle}

/-- One more call takes a handle when it stores an instruction. -/
@[simp] theorem next_concat : next (calls ++ [call]) =
    if call.stores then next calls + 1 else next calls := by
  rw [next, List.countP_append, next]
  cases h : call.stores <;> simp [h]

/-- The last call is numbered by the handles that the calls before it take. -/
theorem number_concat (n : Handle) :
    number n (calls ++ [call]) = number n calls ++ [(n + next calls, call)] := by
  induction calls generalizing n with
  | nil => simp [number, next]
  | cons head rest ih =>
    rw [List.cons_append, number, ih, number, next, next, List.countP_cons]
    cases h : head.stores <;> simp [Nat.add_assoc, Nat.add_comm 1]

/-- A call of `label` gives out the next handle as a label. -/
@[simp] theorem labels_concat : labels (calls ++ [call]) =
    labels calls ++ if call = .label then [next calls] else [] := by
  rw [labels, number_concat, List.filterMap_append, labels]
  by_cases h : call = .label <;> simp [h]

/-- A call that pushes does so under the next handle. -/
@[simp] theorem pushed_concat : pushed (calls ++ [call]) =
    pushed calls ++ (call.instr?.map (next calls, ·)).toList := by
  rw [pushed, number_concat, List.filterMap_append, pushed]
  cases h : call.instr? <;> simp [h]

/-- The routine is described by the calls in the order they are made. -/
@[simp] theorem described_concat :
    described (calls ++ [call]) = call.describe (described calls) := by
  rw [described, List.foldl_concat, described]

/-- Nothing waits before the first call. -/
@[simp] theorem not_waits_nil : ¬Waits stop [] start := by
  rintro ⟨before, behind, h, -⟩
  cases before <;> cases h

/-- Nothing is reached before the first call. -/
@[simp] theorem not_reaches_nil : ¬Reaches stop [] start id := by
  rintro ⟨before, between, call, behind, h, -⟩
  cases before <;> cases h

/-- What waits is the last call, or waited before it and is not stopped by it. -/
@[simp] theorem waits_concat : Waits stop (calls ++ [call]) start ↔
    call = start ∨ (Waits stop calls start ∧ stop call = false) := by
  constructor
  · rintro ⟨before, behind, heq, hbehind⟩
    rcases List.eq_nil_or_concat' behind with rfl | ⟨behind, last, rfl⟩
    · obtain ⟨-, heq⟩ := List.append_inj' heq rfl
      exact .inl (List.singleton_inj.1 heq)
    · rw [← List.cons_append, ← List.append_assoc] at heq
      obtain ⟨rfl, heq'⟩ := List.append_inj' heq rfl
      cases List.singleton_inj.1 heq'
      rw [List.forall_mem_append, List.forall_mem_singleton] at hbehind
      exact .inr ⟨⟨before, behind, rfl, hbehind.1⟩, hbehind.2⟩
  · rintro (rfl | ⟨⟨before, behind, rfl, hbehind⟩, hcall⟩)
    · exact ⟨calls, [], rfl, by simp⟩
    · refine ⟨before, behind ++ [call], by simp, ?_⟩
      rw [List.forall_mem_append, List.forall_mem_singleton]
      exact ⟨hbehind, hcall⟩

/-- The last call is reached by what waits for it. -/
@[simp] theorem reaches_concat : Reaches stop (calls ++ [call]) start id ↔
    Reaches stop calls start id ∨
      (Waits stop calls start ∧ call.pushes = true ∧ id = next calls) := by
  constructor
  · rintro ⟨before, between, call', behind, heq, hbetween, hpushes, rfl⟩
    rcases List.eq_nil_or_concat' behind with rfl | ⟨behind, last, rfl⟩
    · obtain ⟨rfl, heq'⟩ := List.append_inj' heq rfl
      cases List.singleton_inj.1 heq'
      exact .inr ⟨⟨before, between, rfl, hbetween⟩, hpushes, rfl⟩
    · rw [← List.cons_append, ← List.append_assoc] at heq
      obtain ⟨rfl, heq⟩ := List.append_inj' heq rfl
      exact .inl ⟨before, between, call', behind, rfl, hbetween, hpushes, rfl⟩
  · rintro (⟨before, between, call', behind, rfl, hbetween, hpushes, rfl⟩ |
      ⟨⟨before, between, rfl, hbetween⟩, hpushes, rfl⟩)
    · exact ⟨before, between, call', behind ++ [call], by simp, hbetween, hpushes, rfl⟩
    · exact ⟨before, between, call, [], rfl, hbetween, hpushes, rfl⟩

/-- What reaches an instruction is one of the calls. -/
theorem mem_of_reaches (h : Reaches stop calls start id) : start ∈ calls := by
  obtain ⟨before, between, call, behind, rfl, -⟩ := h
  simp

/-- The instruction reached is one of those the calls have stored. -/
theorem lt_next_of_reaches (h : Reaches stop calls start id) : id < next calls := by
  obtain ⟨before, between, call, behind, rfl, -, hpushes, rfl⟩ := h
  have hstores : call.stores = true := by rw [Call.stores, hpushes, Bool.or_true]
  have hcalls : next (before ++ start :: between ++ call :: behind) =
      next (before ++ start :: between) + List.countP Call.stores (call :: behind) :=
    List.countP_append
  rw [hcalls, List.countP_cons_of_pos hstores]
  exact Nat.lt_add_of_pos_right (Nat.succ_pos _)

end

/-! ### Lawful calls -/

/-- Every call is as `P` says behind the calls before it, the first one behind `before`. -/
def EachBehind (P : List Call → Call → Prop) (before : List Call) : List Call → Prop
  | [] => True
  | call :: rest => P before call ∧ EachBehind P (before ++ [call]) rest

/-- A call places labels given out before it only, and no label again. -/
def OwnLabel (before : List Call) : Call → Prop
  | .place label => label ∈ labels before ∧ .place label ∉ before
  | _ => True

/-- Words form a signature, operands fit their opcodes, and jumps lead to handles given out
    before. -/
def Fits (before : List Call) : Call → Prop
  | .args words => ∃ sig, Signature.parse? words = .ok sig
  | .push opcode operand => Pool.Admits (next before) ⟨opcode, operand⟩
  | .pushInstr i => Pool.Admits (next before) i
  | _ => True

/-- Calls that give labels to their own builder, and pieces that fit. -/
def Lawful (calls : List Call) : Prop :=
  EachBehind (fun before call => OwnLabel before call ∧ Fits before call) [] calls

/-! ### Builders in step with calls -/

/-- The builder after `calls`. -/
structure Follows (calls : List Call) (b : Builder) : Prop where
  tidy : b.Tidy (labels calls) ((pushed calls).map fun entry => (entry.2.opcode, entry.2.operand))
  size : b.draft.pool.size = next calls
  instrs : b.draft.instrs = (pushed calls).map (·.1)
  header : { b.draft with toBody := b.draft.description } = described calls
  pendingLine : ∀ line, b.pendingLine = some line ↔ Waits Call.endsLine calls (.line line)
  lines : ∀ id line, b.draft.lines.get? id = some line ↔ Reaches Call.endsLine calls (.line line) id
  pendingLabels : ∀ label, label ∈ b.pendingLabels ↔ Waits Call.pushes calls (.place label)
  stolenBy : ∀ label id, b.draft.pool.stolenBy label = some id ↔
    Reaches Call.pushes calls (.place label) id

/-- A new builder follows no calls at all. -/
theorem follows_nil : Follows [] {} where
  tidy := tidy_empty
  size := rfl
  instrs := rfl
  header := rfl
  pendingLine line := by simp
  lines id line := by simp [LineMap.get?, LineMap.empty]
  pendingLabels label := by simp
  stolenBy label id := by simp [Pool.stolenBy]

section

variable {calls : List Call} {call : Call} {b b' : Builder}

/-- A call that pushes nothing.  Lines and labels wait as before, beside the one that the call
    names. -/
theorem Follows.quiet (h : Follows calls b) (hpushes : call.pushes = false)
    (htidy : b'.Tidy (labels (calls ++ [call]))
      ((pushed calls).map fun entry => (entry.2.opcode, entry.2.operand)))
    (hsize : b'.draft.pool.size = next (calls ++ [call]))
    (hheader : { b'.draft with toBody := b'.draft.description } = call.describe (described calls))
    (hinstrs : b'.draft.instrs = b.draft.instrs) (hlines : b'.draft.lines = b.draft.lines)
    (hstolenBy : b'.draft.pool.stolenBy = b.draft.pool.stolenBy)
    (hpendingLine : ∀ line, b'.pendingLine = some line ↔
      call = .line line ∨ b.pendingLine = some line ∧ call.endsLine = false)
    (hpendingLabels : ∀ label, label ∈ b'.pendingLabels ↔
      call = .place label ∨ label ∈ b.pendingLabels) :
    Follows (calls ++ [call]) b' := by
  have hinstr : call.instr? = none := Option.not_isSome_iff_eq_none.1 (Bool.eq_false_iff.1 hpushes)
  have hpushed : pushed (calls ++ [call]) = pushed calls := by simp [hinstr]
  refine ⟨hpushed ▸ htidy, hsize, ?_, ?_, fun line => ?_, fun id line => ?_, fun label => ?_,
    fun label id => ?_⟩
  · rw [hpushed, hinstrs, h.instrs]
  · rw [described_concat, hheader]
  · rw [hpendingLine, waits_concat, h.pendingLine]
  · simp [hlines, h.lines, hpushes]
  · rw [hpendingLabels, waits_concat, h.pendingLabels]
    simp [hpushes]
  · simp [hstolenBy, h.stolenBy, hpushes]

/-- A call that neither stores an instruction nor names a line nor places a label describes the
    routine. -/
theorem Follows.describe (h : Follows calls b) {d : Draft} (hstores : call.stores = false)
    (hends : call.endsLine = false) (hplace : ∀ label, call ≠ .place label)
    (hpool : d.pool = b.draft.pool) (hinstrs : d.instrs = b.draft.instrs)
    (hlines : d.lines = b.draft.lines)
    (hdescribed : { d with toBody := d.description } = call.describe (described calls)) :
    Follows (calls ++ [call]) { b with draft := d } := by
  obtain ⟨hlabel, hpushes⟩ := Bool.or_eq_false_iff.1 hstores
  have hlabels : labels (calls ++ [call]) = labels calls := by
    rw [labels_concat, if_neg (of_decide_eq_false hlabel), List.append_nil]
  have hline : ∀ line, call ≠ .line line := by
    rintro line rfl
    cases hends
  refine h.quiet hpushes ?_ ?_ hdescribed hinstrs hlines ?_ (fun line => ?_) fun label => ?_
  · rw [hlabels]
    exact h.tidy.congr hpool hinstrs rfl
  · simp [hpool, h.size, hstores]
  · rw [hpool]
  · simp [hline, hends]
  · simp [hplace]

/-- The line waits for the next instruction, and one that has waited gives way. -/
theorem Follows.run_line (h : Follows calls b) (n : UInt32) :
    Follows (calls ++ [.line n]) { b with pendingLine := some n } := by
  have hlabels : labels (calls ++ [.line n]) = labels calls := by simp
  refine h.quiet rfl ?_ ?_ h.header rfl rfl rfl (fun line => ?_) fun label => ?_
  · rw [hlabels]
    exact h.tidy.congr rfl rfl rfl
  · rw [next_concat]
    exact h.size
  · simp [Call.endsLine]
  · simp

/-- A label takes the next handle, and nothing waits for it yet. -/
theorem Follows.run_label (h : Follows calls b) :
    ∃ b', Builder.label.run b = .ok (next calls) b' ∧ Follows (calls ++ [.label]) b' := by
  obtain ⟨q, hrun, htidy, hstolenBy⟩ := h.tidy.run_label
  rw [← h.size]
  refine ⟨_, hrun, h.quiet rfl ?_ ?_ h.header rfl rfl (funext hstolenBy) (fun line => ?_)
    fun label => ?_⟩
  · simpa [h.size] using htidy
  · cases (run_label_eq b).symm.trans hrun
    simp [h.size, Call.stores, Pool.size_link, Pool.size_push]
  · simp [Call.endsLine, Call.pushes, Call.instr?]
  · simp

/-- A label that is placed for the first time waits for the next instruction. -/
theorem Follows.run_place (h : Follows calls b) {label : Handle} (hlabel : label ∈ labels calls)
    (hnew : .place label ∉ calls) :
    Follows (calls ++ [.place label]) { b with pendingLabels := b.pendingLabels ++ [label] } := by
  have hfree : b.draft.pool.stolenBy label = none := by
    rw [Option.eq_none_iff_forall_ne_some]
    exact fun id hid => hnew (mem_of_reaches ((h.stolenBy label id).1 hid))
  refine h.quiet rfl ?_ ?_ h.header rfl rfl rfl (fun line => ?_) fun l => ?_
  · simpa using h.tidy.place hlabel hfree
  · rw [next_concat]
    exact h.size
  · simp [Call.endsLine, Call.pushes, Call.instr?]
  · simp [or_comm, eq_comm]

/-- The instruction takes the line and the labels that wait. -/
theorem Follows.run_push (h : Follows calls b) {i : Instr} (hi : Pool.Admits (next calls) i)
    (hcall : call.instr? = some i) :
    ∃ b', (push i.opcode i.operand).run b = .ok (next calls) b' ∧ Follows (calls ++ [call]) b' := by
  rw [← h.size] at hi ⊢
  obtain ⟨q, hrun, hsize, hpushed, htidy⟩ := h.tidy.run_push_appended hi.1 hi.2
  -- No line can be noted for a handle that was not given out yet.
  have hfresh : b.draft.lines.get? b.draft.pool.size = none := by
    refine Option.eq_none_iff_forall_ne_some.2 fun line hline => ?_
    have hlt := lt_next_of_reaches ((h.lines _ line).1 hline)
    rw [h.size] at hlt
    exact Nat.lt_irrefl _ hlt
  have hpushes : call.pushes = true := by rw [Call.pushes, hcall]; rfl
  have hstores : call.stores = true := by rw [Call.stores, hpushes, Bool.or_true]
  have hlabel : call ≠ .label := by rintro rfl; cases hcall
  have hplace : ∀ label, call ≠ .place label := by rintro label rfl; cases hcall
  have hline : ∀ line, call ≠ .line line := by rintro line rfl; cases hcall
  have hends : call.endsLine = true := by
    cases call with
    | push | pushInstr => rfl
    | _ => cases hcall
  have hdescribe : ∀ d, call.describe d = d := by
    cases call with
    | push | pushInstr => exact fun d => rfl
    | _ => cases hcall
  refine ⟨_, hrun, ?_, ?_, ?_, ?_, fun line => ?_, fun id line => ?_, fun label => ?_,
    fun label id => ?_⟩
  · simpa [hlabel, hcall] using htidy
  · rw [next_concat, if_pos hstores, ← h.size]
    exact hsize
  · rw [hpushed.instrs, h.instrs, h.size]
    simp [hcall]
  · rw [described_concat, hdescribe]
    exact h.header
  · simp [appended, hline, hends]
  · rw [reaches_concat, ← h.lines, ← h.pendingLine, ← h.size]
    cases hwaits : b.pendingLine with
    | none => simp [appended, hwaits]
    | some n =>
      simp only [appended, hwaits, LineMap.get?_insert]
      by_cases hid : id = b.draft.pool.size
      · subst hid
        simp [hpushes, hfresh]
      · simp [hid]
  · simp [hpushed.pendingLabels, hplace, hpushes]
  · -- Labels that wait have not been reached before.
    rw [hpushed.stolenBy, reaches_concat, ← h.stolenBy, ← h.pendingLabels, ← h.size]
    by_cases hwaits : label ∈ b.pendingLabels
    · simp [hwaits, hpushes, (h.tidy.pending label hwaits).2, eq_comm]
    · simp [hwaits]

/-- A push makes an instruction and goes on with it. -/
theorem run_push_eq {i : Instr} (hfits : i.operand.fits i.opcode.operandClass = true) :
    (push i.opcode i.operand).run b = (pushInstr i).run b := by
  have hnew : Instr.new? i.opcode i.operand = .ok i := Pool.new?_eq_ok.2 ⟨hfits, rfl⟩
  show (guarded (Instr.new? i.opcode i.operand) >>= pushInstr).run b = _
  rw [hnew]
  rfl

/-- **One call.** It succeeds, gives out the next handle if it is to give out one, and keeps the
    builder in step. -/
theorem Follows.run (h : Follows calls b) (hown : OwnLabel calls call) (hfits : Fits calls call) :
    ∃ b', call.run.run b = .ok (if call.stores then some (next calls) else none) b' ∧
      Follows (calls ++ [call]) b' := by
  cases call with
  | set s =>
    refine ⟨_, rfl, h.describe rfl rfl nofun ?_ ?_ ?_ ?_⟩
    any_goals cases s <;> rfl
    rw [Call.describe, ← h.header]
    cases s <;> rfl
  | args words =>
    obtain ⟨sig, hsig⟩ := hfits
    refine ⟨{ b with draft := { b.draft with signature := sig } }, ?_,
      h.describe rfl rfl nofun rfl rfl rfl ?_⟩
    · refine run_bind_eq_ok.2 ⟨(), _, run_bind_eq_ok.2 ⟨sig, b, ?_, rfl⟩, rfl⟩
      exact run_guarded_eq_ok.2 ⟨hsig, rfl⟩
    · rw [Call.describe, hsig, ← h.header]
      rfl
  | line n => exact ⟨_, rfl, h.run_line n⟩
  | label =>
    obtain ⟨b', hrun, h⟩ := h.run_label
    exact ⟨b', run_bind_eq_ok.2 ⟨_, _, hrun, rfl⟩, h⟩
  | place label => exact ⟨_, rfl, h.run_place hown.1 hown.2⟩
  | push opcode operand =>
    have hpushes : (Call.push opcode operand).instr? = some ⟨opcode, operand⟩ := rfl
    obtain ⟨b', hrun, h⟩ := h.run_push hfits hpushes
    exact ⟨b', run_bind_eq_ok.2 ⟨_, _, hrun, rfl⟩, h⟩
  | pushInstr i =>
    have hpushes : (Call.pushInstr i).instr? = some i := rfl
    obtain ⟨b', hrun, h⟩ := h.run_push hfits hpushes
    -- Pushing an instruction is what is left of a push when the instruction is made.
    rw [run_push_eq hfits.1] at hrun
    exact ⟨b', run_bind_eq_ok.2 ⟨_, _, hrun, rfl⟩, h⟩

/-- **All calls.** They succeed, and give out the handles in order. -/
theorem Follows.run_all {more : List Call} (h : Follows calls b)
    (hmore : EachBehind (fun before call => OwnLabel before call ∧ Fits before call) calls more) :
    ∃ b', (more.mapM Call.run).run b = .ok ((number (next calls) more).map fun entry =>
        if entry.2.stores then some entry.1 else none) b' ∧ Follows (calls ++ more) b' := by
  induction more generalizing calls b with
  | nil => exact ⟨b, rfl, by rwa [List.append_nil]⟩
  | cons call rest ih =>
    obtain ⟨⟨hown, hfits⟩, hrest⟩ := hmore
    obtain ⟨b₁, hrun, h₁⟩ := h.run hown hfits
    obtain ⟨b₂, hruns, h₂⟩ := ih h₁ hrest
    rw [next_concat] at hruns
    exact ⟨b₂, run_mapM_cons_eq_ok.2 ⟨_, b₁, _, hrun, hruns, rfl⟩, by simpa using h₂⟩

end

/-! ### Routines -/

/-- Where jumps to a handle lead: from a label that was placed to the instruction pushed next, and
    to the handle itself where it is that of an instruction or of a label that was not placed. -/
structure Leads (calls : List Call) (dest : Handle → Handle) : Prop where
  placed : ∀ label, .place label ∈ calls → Reaches Call.pushes calls (.place label) (dest label)
  instr : ∀ entry ∈ pushed calls, dest entry.1 = entry.1
  unplaced : ∀ label ∈ labels calls, .place label ∉ calls →
    dest label = label ∧ ∀ entry ∈ pushed calls, entry.1 ≠ label

/-- The routine is what the calls describe. -/
structure Builds (calls : List Call) (c : Routine) : Prop where
  header : c.description = (described calls).toBody
  flags : c.flags = (described calls).flags.getD c.derivedFlags
  instrs : c.instrs = (pushed calls).map (·.1)
  code : ∃ dest, Leads calls dest ∧
    c.code = (pushed calls).map fun entry => (entry.1, entry.2.mapTarget dest)
  lines : ∀ id line, c.lines.get? id = some line ↔ Reaches Call.endsLine calls (.line line) id
  /-- A jump to a label that was not placed keeps the routine from being stored. -/
  unresolved : ∀ entry ∈ pushed calls, ∀ label ∈ labels calls, entry.2.target? = some label →
    .place label ∉ calls → ∀ options, ∃ err, c.store? options = .error err

/-- The variables of the instruction are declared in the end. -/
def Declared (calls : List Call) (i : Instr) : Prop :=
  ∀ name, i.operand = .freeVar name →
    name ∈ (described calls).cellvars ++ (described calls).freevars

section

variable {calls : List Call} {b : Builder}

/-- Without labels that wait, the draft is checked and given away. -/
theorem run_build (b : Builder) : build.run b =
    if b.pendingLabels = [] then
      match Routine.ofDraft? b.draft with
      | .ok c => .ok c { b with draft := {} }
      | .error err => .error err { b with draft := {} }
    else .error .trailingLabel b := by
  cases hpending : b.pendingLabels with
  | nil =>
    rw [if_pos rfl]
    show EStateM.run (do
      unless b.pendingLabels.isEmpty do throw BuildError.trailingLabel
      set { b with draft := {} }
      guarded (Routine.ofDraft? b.draft)) b = _
    rw [hpending]
    cases hmade : Routine.ofDraft? b.draft <;> rfl
  | cons label rest =>
    rw [if_neg (List.cons_ne_nil _ _)]
    show EStateM.run (do
      unless b.pendingLabels.isEmpty do throw BuildError.trailingLabel
      set { b with draft := {} }
      guarded (Routine.ofDraft? b.draft)) b = _
    rw [hpending]
    rfl

/-- What has been named waits for a push, or was reached by one. -/
theorem waits_or_reaches {start : Call} (h : start ∈ calls) :
    Waits Call.pushes calls start ∨ ∃ id, Reaches Call.pushes calls start id := by
  induction calls using List.reverseRecOn with
  | nil => cases h
  | append_singleton calls call ih =>
    simp only [waits_concat, reaches_concat]
    rcases List.mem_append.1 h with h | h
    · rcases ih h with hwaits | ⟨id, hreaches⟩
      · cases hpushes : call.pushes with
        | false => exact .inl (.inr ⟨hwaits, rfl⟩)
        | true => exact .inr ⟨_, .inr ⟨hwaits, rfl, rfl⟩⟩
      · exact .inr ⟨id, .inl hreaches⟩
    · exact .inl (.inl (List.mem_singleton.1 h).symm)

/-- The target of a jump to `t`: the instruction that stole from it, if there is one. -/
def target (b : Builder) (t : Handle) : Handle := (b.draft.pool.stolenBy t).getD t

/-- The instructions of the pool are those of the calls, with their targets settled. -/
theorem Follows.get? (h : Follows calls b) {entry : Handle × Instr}
    (hentry : entry ∈ pushed calls) :
    b.draft.pool.get? entry.1 = some (entry.2.mapTarget b.target) := by
  have hcode := h.tidy.code
  rw [h.instrs, List.forall₂_map_left_iff, List.forall₂_map_right_iff, List.forall₂_same] at hcode
  exact hcode entry hentry

/-- The instructions that the calls push stand in the sequence. -/
theorem Follows.mem_instrs (h : Follows calls b) {entry : Handle × Instr}
    (hentry : entry ∈ pushed calls) : entry.1 ∈ b.draft.instrs := by
  rw [h.instrs]
  exact List.mem_map_of_mem hentry

/-- Once no label waits, the labels that were placed lead to instructions. -/
theorem Follows.leads (h : Follows calls b) (hpending : b.pendingLabels = []) :
    Leads calls b.target where
  placed label hlabel := by
    rcases waits_or_reaches hlabel with hwaits | ⟨id, hreaches⟩
    · have hmem := (h.pendingLabels label).2 hwaits
      rw [hpending] at hmem
      cases hmem
    · rwa [target, (h.stolenBy label id).2 hreaches]
  instr entry hentry := by
    rw [target, (h.tidy.live _ (h.mem_instrs hentry)).2]
    rfl
  unplaced label hlabel hplaced := by
    constructor
    · -- Only a label that was placed can have been stolen from.
      have hfree : b.draft.pool.stolenBy label = none :=
        Option.eq_none_iff_forall_ne_some.2 fun id hid =>
          hplaced (mem_of_reaches ((h.stolenBy label id).1 hid))
      rw [target, hfree]
      rfl
    · rintro entry hentry rfl
      exact (h.tidy.live _ (h.mem_instrs hentry)).1 hlabel

/-- The code of the builder is what the calls push, with jumps to labels settled. -/
theorem Follows.code (h : Follows calls b) :
    b.draft.code = (pushed calls).map fun entry => (entry.1, entry.2.mapTarget b.target) := by
  rw [Body.code, h.instrs, List.filterMap_map, ← List.filterMap_eq_map]
  refine List.filterMap_congr fun entry hentry => ?_
  rw [Function.comp_apply, h.get? hentry]
  rfl

/-- The routine that the builder makes is sound: what stands in its sequence is known and
    distinct. -/
theorem Follows.sound (h : Follows calls b) {c : Routine}
    (hmade : Routine.ofDraft? b.draft = .ok c) : c.Sound :=
  Routine.sound_of_ofDraft? hmade fun _ hentry =>
    h.tidy.consistent.fits _ _ (Body.mem_code.1 hentry).2

/-- **The routine.** Once no label waits, a draft that passes its check is what the calls
    describe. -/
theorem Follows.builds (h : Follows calls b) (hpending : b.pendingLabels = []) {c : Routine}
    (hmade : Routine.ofDraft? b.draft = .ok c) : Builds calls c := by
  have hsound := h.sound hmade
  have hleads := h.leads hpending
  have hcode := h.code
  obtain ⟨_, -, hc⟩ := bind_eq_ok.1 hmade
  cases hc
  refine ⟨?_, ?_, h.instrs, ⟨_, hleads, hcode⟩, h.lines,
    fun entry hentry label hlabel ht hplaced options => ?_⟩
  · exact congrArg Draft.toBody h.header
  · rw [← h.header]
  · -- Were the routine stored, the label would be one of its instructions.
    cases hstore : Routine.store? _ options with
    | error err => exact ⟨err, rfl⟩
    | ok unit =>
      obtain ⟨hdest, hdead⟩ := hleads.unplaced label hlabel hplaced
      have htarget : b.draft.pool.target? entry.1 = some label := by
        rw [Pool.target?, h.get? hentry]
        show (entry.2.operand.mapTarget b.target).target? = some label
        rw [Operand.target?_mapTarget, show entry.2.operand.target? = some label from ht,
          Option.map_some, hdest]
      have hlive := Routine.jumpsLive_of_store hsound hstore entry.1 (h.mem_instrs hentry) label
        htarget
      obtain ⟨entry', hentry', heq⟩ := List.mem_map.1 (h.instrs ▸ hlive)
      exact absurd heq (hdead entry' hentry')

/-- A draft that passes its check declares the variables in use. -/
theorem Follows.declared (h : Follows calls b) {c : Routine}
    (hmade : Routine.ofDraft? b.draft = .ok c) :
    ∀ entry ∈ pushed calls, Declared calls entry.2 := by
  intro entry hentry name hname
  have hsound := h.sound hmade
  obtain ⟨_, -, hc⟩ := bind_eq_ok.1 hmade
  cases hc
  rw [← h.header]
  refine hsound.declared entry.1 (h.mem_instrs hentry) _ (h.get? hentry) name ?_
  exact Operand.mapTarget_eq_freeVar.2 hname

/-- One that does not uses a variable that is not declared. -/
theorem Follows.undeclared (h : Follows calls b) {err : BuildError}
    (hfails : Routine.ofDraft? b.draft = .error err) : ∃ entry ∈ pushed calls, ∃ name,
      entry.2.operand = .freeVar name ∧ ¬Declared calls entry.2 ∧
        err = .unknownFreeVar entry.2.opcode name := by
  rcases bind_eq_error.1 hfails with hcheck | ⟨_, -, hfails⟩
  · -- All instructions are known and distinct, so the check can only have come upon a variable.
    have hknown : ∀ id ∈ b.draft.instrs, ∃ entry ∈ pushed calls, entry.1 = id := by
      intro id hid
      rw [h.instrs] at hid
      exact List.mem_map.1 hid
    obtain ⟨id, hid, i, name, hi, hname, hunknown, rfl⟩ := Body.check_eq_error hcheck
      h.tidy.distinct fun id hid => ⟨List.not_mem_nil, by
        obtain ⟨entry, hentry, rfl⟩ := hknown id hid
        exact ⟨_, h.get? hentry⟩⟩
    obtain ⟨entry, hentry, rfl⟩ := hknown id hid
    cases (h.get? hentry).symm.trans hi
    have hname := Operand.mapTarget_eq_freeVar.1 hname
    refine ⟨entry, hentry, name, hname, fun hdeclared => hunknown ?_, rfl⟩
    have hmem := hdeclared name hname
    rwa [← h.header] at hmem
  · cases hfails

end

/-- **Building.** Calls that place labels of their own builder, each once, and whose pieces fit
    succeed, and give out handles in order.  A label behind the last instruction or a variable that
    is not declared keeps the routine from being built; otherwise it is built, and is what the calls
    describe. -/
theorem build_of_calls {calls : List Call} (h : Lawful calls) :
    ∃ b, (calls.mapM Call.run).run {} = .ok ((number 0 calls).map fun entry =>
        if entry.2.stores then some entry.1 else none) b ∧
      ((∃ label, Waits Call.pushes calls (.place label)) →
        build.run b = .error .trailingLabel b) ∧
      ((∀ label, ¬Waits Call.pushes calls (.place label)) →
        ((∀ entry ∈ pushed calls, Declared calls entry.2) →
          ∃ c, build.run b = .ok c { b with draft := {} } ∧ Builds calls c) ∧
        ((∃ entry ∈ pushed calls, ¬Declared calls entry.2) →
          ∃ entry ∈ pushed calls, ∃ name, entry.2.operand = .freeVar name ∧
            ¬Declared calls entry.2 ∧
            build.run b = .error (.unknownFreeVar entry.2.opcode name) { b with draft := {} })) := by
  obtain ⟨b, hrun, hfollows⟩ := follows_nil.run_all h
  rw [List.nil_append] at hfollows
  refine ⟨b, hrun, ?_, fun hplaced => ?_⟩
  · rintro ⟨label, hwaits⟩
    rw [run_build, if_neg]
    exact List.ne_nil_of_mem ((hfollows.pendingLabels label).2 hwaits)
  · have hpending : b.pendingLabels = [] := List.eq_nil_iff_forall_not_mem.2 fun label hlabel =>
      hplaced label ((hfollows.pendingLabels label).1 hlabel)
    rw [run_build, if_pos hpending]
    -- With no label left to wait, only the check of the draft can fail, and it fails at a variable.
    cases hmade : Routine.ofDraft? b.draft with
    | ok c =>
      refine ⟨fun _ => ⟨c, rfl, hfollows.builds hpending hmade⟩, ?_⟩
      rintro ⟨entry, hentry, hundeclared⟩
      exact absurd (hfollows.declared hmade entry hentry) hundeclared
    | error err =>
      obtain ⟨entry, hentry, name, hname, hundeclared, rfl⟩ := hfollows.undeclared hmade
      refine ⟨fun hdeclared => absurd (hdeclared entry hentry) hundeclared, fun _ => ?_⟩
      exact ⟨entry, hentry, name, hname, hundeclared, rfl⟩

/-- A loop with a way out, jumps to labels before and behind, and a jump to a label that is not
    placed. -/
def looping : List Call :=
  [.label, .label, .label, .line 2, .line 3, .place 0, .push .loadFast (.localVar "x"),
    .push .popJumpIfFalse (.jump 1), .push .jumpAbsolute (.jump 0), .place 1,
    .pushInstr ⟨.jumpAbsolute, .jump 3⟩, .line 4, .push .jumpAbsolute (.jump 2)]

/-- Jumps back and ahead, to labels that were placed, to an instruction, and to a label that was
    not. -/
theorem build_of_calls_looping : ∃ b c, build.run b = .ok c { b with draft := {} } ∧
    Builds looping c ∧ c.instrs.map (fun id => (id, c.pool.target? id, c.lines.get? id)) =
      [(3, none, some 3), (4, some 6, none), (5, some 3, none), (6, some 3, none),
        (7, some 2, some 4)] ∧
    ∀ options, ∃ err, c.store? options = .error err := by
  have hcode : pushed looping = [(3, ⟨.loadFast, .localVar "x"⟩), (4, ⟨.popJumpIfFalse, .jump 1⟩),
      (5, ⟨.jumpAbsolute, .jump 0⟩), (6, ⟨.jumpAbsolute, .jump 3⟩),
      (7, ⟨.jumpAbsolute, .jump 2⟩)] := rfl
  have hlawful : Lawful looping := by
    have hfits : ∀ entry ∈ pushed looping,
        entry.2.operand.fits entry.2.opcode.operandClass = true := by decide
    rw [hcode] at hfits
    simpa [Lawful, EachBehind, OwnLabel, Fits, looping, labels, number, next, Pool.Admits,
      Instr.target?, Operand.target?, Call.stores, Call.pushes, Call.instr?] using hfits
  obtain ⟨b, hrun, -, hbuild⟩ := build_of_calls hlawful
  -- The last call pushes, so that nothing waits behind it.
  have hplaced : ∀ label, ¬Waits Call.pushes looping (.place label) := by
    intro label
    rw [show looping = looping.dropLast ++ [.push .jumpAbsolute (.jump 2)] from rfl, waits_concat]
    simp [Call.pushes, Call.instr?]
  have hdeclared : ∀ entry ∈ pushed looping, Declared looping entry.2 := by
    simp [hcode, Declared]
  obtain ⟨c, hmade, hbuilds⟩ := (hbuild hplaced).1 hdeclared
  refine ⟨b, c, hmade, hbuilds, ?_, ?_⟩
  · -- The same calls, evaluated.
    have hall : (looping.mapM Call.run >>= fun _ => build).run' {} = some c := by
      have hrun : (looping.mapM Call.run >>= fun _ => build).run {} = .ok c { b with draft := {} } :=
        run_bind_eq_ok.2 ⟨_, b, hrun, hmade⟩
      delta EStateM.run'
      rw [hrun]
    have hshape : ((looping.mapM Call.run >>= fun _ => build).run' {}).map (fun c =>
        c.instrs.map fun id => (id, c.pool.target? id, c.lines.get? id)) =
        some [(3, none, some 3), (4, some 6, none), (5, some 3, none), (6, some 3, none),
          (7, some 2, some 4)] := by decide +kernel
    rw [hall] at hshape
    exact Option.some.inj hshape
  · have hentry : (7, ⟨.jumpAbsolute, .jump 2⟩) ∈ pushed looping := by simp [hcode]
    exact hbuilds.unresolved _ hentry 2 (show 2 ∈ [0, 1, 2] by simp) rfl (by simp [looping])

/-- A label behind the last instruction. -/
def trailing : List Call := [.label, .push .nop .none, .place 0]

/-- Own labels alone do not let calls succeed: words may form no signature, operands may not fit,
    and jumps may lead nowhere.  Nor do they let the routine be built: a label may stand behind the
    last instruction, and a variable may be unknown. -/
theorem build_of_own_labels :
    (EachBehind OwnLabel [] trailing ∧ ∃ ids b, (trailing.mapM Call.run).run {} = .ok ids b ∧
      build.run b = .error .trailingLabel b) ∧
    (EachBehind OwnLabel [] [.push .loadDeref (.freeVar "x")] ∧ ∃ ids b b',
      ([Call.push .loadDeref (.freeVar "x")].mapM Call.run).run {} = .ok ids b ∧
      build.run b = .error (.unknownFreeVar .loadDeref "x") b') ∧
    (EachBehind OwnLabel [] [.args ["*a", "*b"]] ∧
      ([Call.args ["*a", "*b"]].mapM Call.run).run {} = .error (.duplicateVarargs "*b") {}) ∧
    (EachBehind OwnLabel [] [.push .loadFast (.name "x")] ∧
      ([Call.push .loadFast (.name "x")].mapM Call.run).run {} =
        .error (.operandMismatch .loadFast "name") {}) ∧
    EachBehind OwnLabel [] [.push .jumpAbsolute (.jump 0)] ∧
      ([Call.push .jumpAbsolute (.jump 0)].mapM Call.run).run {} = .error (.unknownInstr 0) {} := by
  refine ⟨⟨?_, ⟨_, _, rfl, rfl⟩⟩, ⟨?_, ⟨_, _, _, rfl, rfl⟩⟩, ⟨?_, rfl⟩, ⟨?_, rfl⟩, ?_, rfl⟩
  all_goals simp [EachBehind, OwnLabel, trailing, labels, number]

end Builder

end StackCode
