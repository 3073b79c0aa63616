import StackCode.Proofs.Assembly.Lines
import StackCode.Proofs.Routine.Storable

namespace StackCode.Assembly

/-!
# Labels of assembly text

A label may be used before its line is read, so where a jump leads is known only in the end.  The
invariant speaks of the lines read so far: jumps name the placeholders of labels, and a label that
is defined stands before the instruction at the position of its line, which may be still to come.

* `State.Follows` — a state stands for the lines read so far: the instructions pushed are those of
  the instruction lines, and every label stands where a label line defined it.
* `State.Follows.line` — one line keeps it; `State.follows_of_run` says so of all lines.
* `Renders` — a routine has the instructions of the lines, and its jumps lead to where the labels
  stand; `labels_of_assemble` says so of assembled routines.
* `sound_of_assemble` — they are sound.
-/

/-! ### Positions of lines -/

section

variable {lines : List Line} {line : Line} {k : Nat}

/-- The position of a line depends on the lines before it alone. -/
theorem position_append (hk : k ≤ lines.length) (behind : List Line) :
    position (lines ++ behind) k = position lines k := by
  rw [position, List.take_append_of_le_length hk, position]

/-- The position behind the last line is the number of instructions. -/
theorem position_length (lines : List Line) :
    position lines lines.length = (lines.filter Line.isInstruction).length := by
  rw [position, List.take_length, List.countP_eq_length_filter]

/-- The position of a line behind the first one counts the first one when it is an instruction. -/
theorem position_cons_succ (line : Line) (lines : List Line) (k : Nat) :
    position (line :: lines) (k + 1) =
      position lines k + if line.isInstruction then 1 else 0 := by
  rw [position, List.take_succ_cons, List.countP_cons]
  rfl

/-- A line that is no instruction does not count at the end. -/
theorem filter_concat (hline : line.isInstruction = false) :
    (lines ++ [line]).filter Line.isInstruction = lines.filter Line.isInstruction := by
  simp [hline]

/-- An instruction line is found at its position among the instruction lines. -/
theorem getElem?_filter_position (h : lines[k]? = some line) (hline : line.isInstruction = true) :
    (lines.filter Line.isInstruction)[position lines k]? = some line := by
  induction lines generalizing k with
  | nil => cases h
  | cons head rest ih =>
    cases k with
    | zero =>
      cases h
      rw [List.filter_cons_of_pos hline]
      rfl
    | succ k =>
      rw [position_cons_succ]
      by_cases hhead : head.isInstruction = true
      · rw [List.filter_cons_of_pos hhead, if_pos hhead]
        exact ih h
      · rw [List.filter_cons_of_neg hhead, if_neg hhead]
        exact ih h

/-- Later lines have later positions, or the same. -/
theorem position_mono (lines : List Line) {j k : Nat} (h : j ≤ k) :
    position lines j ≤ position lines k := (List.take_sublist_take_left h).countP_le

/-- A line moves the position behind it on when it is an instruction. -/
theorem position_succ (h : lines[k]? = some line) :
    position lines (k + 1) = position lines k + if line.isInstruction then 1 else 0 := by
  rw [position, List.take_add_one, h, List.countP_append, position]
  simp [List.countP_cons]

/-- The line of an instruction moves the position on by one. -/
theorem position_succ_of_isInstruction (h : lines[k]? = some line)
    (hline : line.isInstruction = true) : position lines (k + 1) = position lines k + 1 := by
  rw [position_succ h, if_pos hline]

/-- A line that places a label is no instruction. -/
theorem Line.isInstruction_of_label? {name : String} (h : line.label? = some name) :
    line.isInstruction = false := by
  cases line with
  | label text => rfl
  | _ => cases h

/-- A line that jumps to a label is an instruction. -/
theorem Line.isInstruction_of_jumpsTo? {name : String} (h : line.jumpsTo? = some name) :
    line.isInstruction = true := by
  cases line with
  | instruction text => rfl
  | _ => cases h

/-- Line `d` defines the label `name`. -/
def Defines (lines : List Line) (name : String) (d : Nat) : Prop :=
  ∃ line, lines[d]? = some line ∧ line.label? = some name

/-- Line `f` is the first instruction line behind line `d`. -/
structure FirstBehind (lines : List Line) (d f : Nat) : Prop where
  behind : d < f
  found : ∃ line, lines[f]? = some line ∧ line.isInstruction = true
  first : ∀ k, d < k → k < f → ∀ line, lines[k]? = some line → line.isInstruction = false

/-- Every position is that of an instruction line. -/
theorem exists_position (h : k < (lines.filter Line.isInstruction).length) :
    ∃ m line, lines[m]? = some line ∧ line.isInstruction = true ∧ position lines m = k := by
  induction lines generalizing k with
  | nil => exact absurd h (Nat.not_lt_zero _)
  | cons head rest ih =>
    by_cases hhead : head.isInstruction = true
    · rw [List.filter_cons_of_pos hhead] at h
      cases k with
      | zero => exact ⟨0, head, rfl, hhead, rfl⟩
      | succ k =>
        obtain ⟨m, line, hline, hinstr, hposition⟩ := ih (Nat.lt_of_succ_lt_succ h)
        refine ⟨m + 1, line, hline, hinstr, ?_⟩
        rw [position_cons_succ, hposition, if_pos hhead]
    · rw [List.filter_cons_of_neg hhead] at h
      obtain ⟨m, line, hline, hinstr, hposition⟩ := ih h
      refine ⟨m + 1, line, hline, hinstr, ?_⟩
      rw [position_cons_succ, hposition, if_neg hhead]
      rfl

/-- Where an instruction line is to come, there is a first one. -/
theorem exists_firstBehind {d : Nat}
    (h : position lines (d + 1) < (lines.filter Line.isInstruction).length) :
    ∃ f, FirstBehind lines d f ∧ position lines f = position lines (d + 1) := by
  obtain ⟨f, line, hline, hinstr, hposition⟩ := exists_position h
  refine ⟨f, ⟨?_, ⟨line, hline, hinstr⟩, fun k hdk hkf line' hline' => ?_⟩, hposition⟩
  -- An instruction line raises the position of all lines behind it.
  · by_contra hfd
    have hraised : position lines (f + 1) ≤ position lines (d + 1) :=
      position_mono lines (by omega)
    rw [position_succ_of_isInstruction hline hinstr] at hraised
    omega
  · by_contra hinstr'
    have hreached : position lines (d + 1) ≤ position lines k := position_mono lines hdk
    have hraised : position lines (k + 1) ≤ position lines f := position_mono lines hkf
    rw [position_succ_of_isInstruction hline' (Bool.eq_true_of_not_eq_false hinstr')] at hraised
    omega

end

/-! ### States -/

/-- The labels `labels'` are `labels` with others behind them, or with more of them defined. -/
def Grow (labels labels' : List LabelEntry) : Prop :=
  ∀ label ∈ labels, ∃ label' ∈ labels', label'.name = label.name ∧ label'.handle = label.handle ∧
    (label.defined = true → label'.defined = true)

/-- The instruction that an instruction line stands for, where its jump names the placeholder of a
    label. -/
def Means (labels : List LabelEntry) (line : Line) (entry : Opcode × Operand) : Prop :=
  line.opcode? = some entry.1 ∧ ∀ name, line.jumpsTo? = some name →
    ∃ label ∈ labels, label.name = name ∧ entry.2 = .jump label.handle

/-- What a line means does not change when labels are added or placed. -/
theorem Means.grow {labels labels' : List LabelEntry} {line : Line} {entry : Opcode × Operand}
    (h : Means labels line entry) (hgrow : Grow labels labels') : Means labels' line entry := by
  refine ⟨h.1, fun name hname => ?_⟩
  obtain ⟨label, hlabel, rfl, hjump⟩ := h.2 name hname
  obtain ⟨label', hlabel', hname', hhandle, -⟩ := hgrow label hlabel
  exact ⟨label', hlabel', hname', hhandle ▸ hjump⟩

/-- Marking a label as placed keeps all labels. -/
theorem grow_map_mark (name : String) (labels : List LabelEntry) :
    Grow labels (labels.map (mark name)) := fun label hlabel =>
  ⟨_, List.mem_map_of_mem hlabel, name_mark name label, handle_mark name label,
    fun hdefined => (defined_mark name label).2 (.inr hdefined)⟩

/-- The state after `lines`, which pushed the instructions `pushed`. -/
structure State.Follows (lines : List Line) (s : State) (pushed : List (Opcode × Operand)) :
    Prop where
  flags : s.builder.draft.flags = none
  tidy : s.builder.Tidy (s.labels.map (·.handle)) pushed
  names : (s.labels.map (·.name)).Nodup
  handles : (s.labels.map (·.handle)).Nodup
  means : List.Forall₂ (Means s.labels) (lines.filter Line.isInstruction) pushed
  /-- No name is defined twice. -/
  once : lines.Pairwise fun line line' => ∀ name, line.label? = some name →
    line'.label? ≠ some name
  /-- A label stands where it was defined. -/
  stands : ∀ k line name, lines[k]? = some line → line.label? = some name →
    ∃ label ∈ s.labels, label.name = name ∧ label.defined = true ∧
      s.builder.Stands label.handle (position lines k)
  defined : ∀ label ∈ s.labels, label.defined = true → ∃ line ∈ lines,
    line.label? = some label.name
  unplaced : ∀ label ∈ s.labels, label.defined = false → s.builder.Unplaced label.handle

namespace State

variable {s s' : State} {lines : List Line} {pushed : List (Opcode × Operand)} {current : Nat}

/-- Without lines there are neither labels nor instructions. -/
theorem follows_empty : Follows [] {} [] where
  flags := rfl
  tidy := Builder.tidy_empty
  names := .nil
  handles := .nil
  means := .nil
  once := .nil
  stands := nofun
  defined := nofun
  unplaced := nofun

/-- The sequence has as many instructions as there were instruction lines. -/
theorem Follows.length_instrs (h : s.Follows lines pushed) :
    s.builder.draft.instrs.length = position lines lines.length := by
  rw [h.tidy.code.length_eq, position_length, h.means.length_eq]

/-- A label is the one that its name finds. -/
theorem Follows.find?_name (h : s.Follows lines pushed) {label : LabelEntry}
    (hlabel : label ∈ s.labels) : s.find? label.name = some label := by
  obtain ⟨found, hfound⟩ : ∃ found, s.find? label.name = some found := by
    refine Option.isSome_iff_exists.1 (List.find?_isSome.2 ⟨label, hlabel, ?_⟩)
    exact decide_eq_true rfl
  have hname : found.name = label.name := by simpa using List.find?_some hfound
  rw [hfound, List.inj_on_of_nodup_map h.names (List.mem_of_find?_eq_some hfound) hlabel hname]

/-! ### Mentions -/

/-- Mentioning a label makes its placeholder, if there is none. -/
theorem Follows.label (h : s.Follows lines pushed) {name : String} {handle : Handle}
    (hlabel : s.label current name = .ok (handle, s')) :
    s'.Follows lines pushed ∧ ∃ label ∈ s'.labels, label.name = name ∧ label.handle = handle := by
  rcases label_eq_ok hlabel with ⟨label, hmem, hname, hhandle, rfl⟩ | ⟨hnew, b, hrun, rfl⟩
  · exact ⟨h, label, hmem, hname, hhandle⟩
  · obtain ⟨q, hrun', htidy, hstolenBy⟩ := h.tidy.run_label
    cases hrun.symm.trans hrun'
    have hgrow : Grow s.labels (s.labels ++ [⟨name, s.builder.draft.pool.size, current, false⟩]) :=
      fun label hmem => ⟨label, List.mem_append_left _ hmem, rfl, rfl, id⟩
    refine ⟨⟨h.flags, ?_, ?_, ?_, h.means.imp fun _ _ hmeans => hmeans.grow hgrow, h.once, ?_, ?_, ?_⟩,
      _, List.mem_append_right _ (List.mem_singleton_self _), rfl, rfl⟩
    · rw [List.map_append]
      exact htidy
    · rw [List.map_append]
      refine List.nodup_append_comm.2 (List.nodup_cons.2 ⟨fun hmem => ?_, h.names⟩)
      obtain ⟨label, hlabel, hname⟩ := List.mem_map.1 hmem
      exact hnew label hlabel hname
    · rw [List.map_append]
      exact List.nodup_append_comm.2 (List.nodup_cons.2 ⟨h.tidy.fresh.1, h.handles⟩)
    · intro k line name hline hname
      obtain ⟨label, hmem, hlabel, hdefined, hplace⟩ := h.stands k line name hline hname
      exact ⟨label, List.mem_append_left _ hmem, hlabel, hdefined,
        hplace.congr rfl rfl hstolenBy⟩
    · intro label hmem hdefined
      rcases List.mem_append.1 hmem with hmem | hmem
      · exact h.defined label hmem hdefined
      · rw [List.mem_singleton.1 hmem] at hdefined
        cases hdefined
    · -- The new label is as free as its handle, which the pool did not know.
      intro label hmem hdefined
      rcases List.mem_append.1 hmem with hmem | hmem
      · exact (h.unplaced label hmem hdefined).congr rfl hstolenBy
      · rw [List.mem_singleton.1 hmem]
        exact h.tidy.fresh.2.2.congr rfl hstolenBy

/-- The operand of an instruction fits its opcode, and the target of a jump is the placeholder of
    its label. -/
theorem Follows.operand (h : s.Follows lines pushed) {opcode : Opcode} {text : List Char}
    {o : Operand} (hoperand : s.operand current opcode text = .ok (o, s')) :
    s'.Follows lines pushed ∧ o.fits opcode.operandClass = true ∧
      (∀ t, o.target? = some t → ∃ label ∈ s'.labels, label.handle = t) ∧
      (opcode.isJump = true →
        ∃ label ∈ s'.labels, label.name = String.ofList text ∧ o = .jump label.handle) := by
  obtain ⟨hfits, ⟨hjump, htarget, rfl⟩ | ⟨hjump, handle, hlabel, rfl⟩⟩ := operand_eq_ok hoperand
  · refine ⟨h, hfits, fun t ht => ?_, fun hjump' => ?_⟩
    · rw [htarget] at ht
      cases ht
    · rw [hjump] at hjump'
      cases hjump'
  · obtain ⟨hfollows, label, hmem, hname, rfl⟩ := h.label hlabel
    refine ⟨hfollows, hfits, fun t ht => ?_, fun _ => ⟨label, hmem, hname, rfl⟩⟩
    cases ht
    exact ⟨label, hmem, rfl⟩

/-! ### Lines -/

/-- A line behind others is one of them or the last. -/
theorem getElem?_concat {line line' : Line} {k : Nat} (h : (lines ++ [line])[k]? = some line') :
    (k < lines.length ∧ lines[k]? = some line') ∨ (k = lines.length ∧ line = line') := by
  rcases Nat.lt_trichotomy k lines.length with hk | rfl | hk
  · exact .inl ⟨hk, List.getElem?_append_left hk ▸ h⟩
  · rw [List.getElem?_concat_length] at h
    exact .inr ⟨rfl, Option.some.inj h⟩
  · rw [List.getElem?_eq_none (by simp; omega)] at h
    cases h

/-- A line that defines no label keeps the labels where they are, if the builder does. -/
theorem Follows.keep (h : s.Follows lines pushed) {b : Builder} {line : Line}
    {pushed' : List (Opcode × Operand)} (hlabel : line.label? = none)
    (hflags : b.draft.flags = s.builder.draft.flags)
    (htidy : b.Tidy (s.labels.map (·.handle)) pushed')
    (hmeans : List.Forall₂ (Means s.labels) ((lines ++ [line]).filter Line.isInstruction) pushed')
    (hstands : ∀ label k, s.builder.Stands label k → b.Stands label k)
    (hunplaced : ∀ label, s.builder.Unplaced label → b.Unplaced label) :
    Follows (lines ++ [line]) { s with builder := b } pushed' where
  flags := hflags.trans h.flags
  tidy := htidy
  names := h.names
  handles := h.handles
  means := hmeans
  once := by
    refine List.pairwise_append.2 ⟨h.once, List.pairwise_singleton _ _, fun _ _ line' hline' => ?_⟩
    rw [List.mem_singleton.1 hline', hlabel]
    exact fun _ _ => nofun
  stands k line' name hline' hname := by
    rcases getElem?_concat hline' with ⟨hk, hline'⟩ | ⟨-, rfl⟩
    · obtain ⟨label, hmem, hlabel, hdefined, hplace⟩ := h.stands k line' name hline' hname
      rw [position_append (Nat.le_of_lt hk)]
      exact ⟨label, hmem, hlabel, hdefined, hstands _ _ hplace⟩
    · rw [hlabel] at hname
      cases hname
  defined label hmem hdefined := by
    obtain ⟨line', hline', hname⟩ := h.defined label hmem hdefined
    exact ⟨line', List.mem_append_left _ hline', hname⟩
  unplaced label hmem hdefined := hunplaced _ (h.unplaced label hmem hdefined)

/-- A line that neither defines a label nor pushes an instruction may say anything else of the
    routine. -/
theorem Follows.skip (h : s.Follows lines pushed) {b : Builder} (hcode : SameCode s.builder b)
    {line : Line} (hlabel : line.label? = none) (hinstr : line.isInstruction = false) :
    Follows (lines ++ [line]) { s with builder := b } pushed := by
  have hstolenBy : ∀ id, b.draft.pool.stolenBy id = s.builder.draft.pool.stolenBy id := by
    simp [hcode.pool]
  refine h.keep hlabel hcode.flags (h.tidy.congr hcode.pool hcode.instrs hcode.pendingLabels) ?_
    (fun label k hstands => hstands.congr hcode.instrs hcode.pendingLabels hstolenBy)
    fun label hunplaced => hunplaced.congr hcode.pendingLabels hstolenBy
  rw [filter_concat hinstr]
  exact h.means

/-- An instruction line pushes its instruction. -/
theorem Follows.push (h : s.Follows lines pushed) {b : Builder} {id : Handle} {line : Line}
    {entry : Opcode × Operand} (hpushed : s.builder.Pushed id b)
    (htidy : b.Tidy (s.labels.map (·.handle)) (pushed ++ [entry]))
    (hlabel : line.label? = none) (hinstr : line.isInstruction = true)
    (hmeans : Means s.labels line entry) :
    Follows (lines ++ [line]) { s with builder := b } (pushed ++ [entry]) := by
  refine h.keep hlabel hpushed.flags htidy ?_ (fun label k => hpushed.stands h.tidy)
    fun label => hpushed.unplaced
  rw [List.filter_append, List.filter_cons_of_pos hinstr]
  exact List.rel_append h.means (.cons hmeans .nil)

/-- A label line places a label that was not placed before. -/
theorem Follows.place (h : s.Follows lines pushed) {label : LabelEntry} (hlabel : label ∈ s.labels)
    (hundefined : label.defined = false) {line : Line} (hline : line.label? = some label.name)
    (hinstr : line.isInstruction = false) :
    Follows (lines ++ [line]) {
      builder := { s.builder with pendingLabels := s.builder.pendingLabels ++ [label.handle] }
      labels := s.labels.map (mark label.name) } pushed := by
  -- Marks change neither names nor placeholders, so that most of the state is as it was.
  have hgrow := grow_map_mark label.name s.labels
  have hhandles : (s.labels.map (mark label.name)).map (·.handle) = s.labels.map (·.handle) := by
    simp [Function.comp_def]
  have hnames : (s.labels.map (mark label.name)).map (·.name) = s.labels.map (·.name) := by
    simp [Function.comp_def]
  refine ⟨h.flags, ?_, ?_, ?_, ?_, ?_, ?_, ?_, ?_⟩
  · rw [hhandles]
    exact h.tidy.place (List.mem_map_of_mem hlabel) (h.unplaced label hlabel hundefined).2
  · rw [hnames]
    exact h.names
  · rw [hhandles]
    exact h.handles
  · rw [filter_concat hinstr]
    exact h.means.imp fun _ _ hmeans => hmeans.grow hgrow
  · refine List.pairwise_append.2 ⟨h.once, List.pairwise_singleton _ _, fun line' hline' _ hmem => ?_⟩
    rw [List.mem_singleton.1 hmem, hline]
    intro name hname hname'
    cases hname'
    -- Were the name defined before, the label would be.
    obtain ⟨k, hk, rfl⟩ := List.getElem_of_mem hline'
    obtain ⟨entry, hentry, hsame, hdefined, -⟩ :=
      h.stands k _ _ (List.getElem?_eq_getElem hk) hname
    rw [List.inj_on_of_nodup_map h.names hentry hlabel hsame, hundefined] at hdefined
    cases hdefined
  · intro k line' name hline' hname
    rcases getElem?_concat hline' with ⟨hk, hline'⟩ | ⟨rfl, rfl⟩
    · obtain ⟨entry, hentry, rfl, hdefined, hstands⟩ := h.stands k line' name hline' hname
      obtain ⟨entry', hentry', hname', hhandle', hdefined'⟩ := hgrow entry hentry
      refine ⟨entry', hentry', hname', hdefined' hdefined, ?_⟩
      rw [position_append (Nat.le_of_lt hk), hhandle']
      exact hstands.imp_left fun ⟨hk, hwait⟩ => ⟨hk, List.mem_append_left _ hwait⟩
    · cases hline.symm.trans hname
      refine ⟨_, List.mem_map_of_mem hlabel, name_mark _ _, (defined_mark _ _).2 (.inl rfl), ?_⟩
      rw [handle_mark, position_append (Nat.le_refl _)]
      exact .inl ⟨h.length_instrs.symm, List.mem_append_right _ (List.mem_singleton_self _)⟩
  · intro entry hentry hdefined
    obtain ⟨old, hold, rfl⟩ := List.mem_map.1 hentry
    rw [name_mark]
    rcases (defined_mark _ _).1 hdefined with hname | hdefined
    · exact ⟨line, List.mem_append_right _ (List.mem_singleton_self _), hname ▸ hline⟩
    · obtain ⟨line', hline', hname'⟩ := h.defined old hold hdefined
      exact ⟨line', List.mem_append_left _ hline', hname'⟩
  · -- A label that is still undefined is not the one that was placed, by its placeholder.
    intro entry hentry hdefined
    obtain ⟨old, hold, rfl⟩ := List.mem_map.1 hentry
    obtain ⟨hname, hdefined⟩ := not_or.1 (mt (defined_mark _ _).2 (Bool.eq_false_iff.1 hdefined))
    obtain ⟨hwait, hstolen⟩ := h.unplaced old hold (Bool.eq_false_iff.2 hdefined)
    rw [handle_mark]
    refine ⟨fun hmem => ?_, hstolen⟩
    rcases List.mem_append.1 hmem with hmem | hmem
    · exact hwait hmem
    · have hsame := List.inj_on_of_nodup_map h.handles hold hlabel (List.mem_singleton.1 hmem)
      exact hname (congrArg _ hsame)

/-- A label line defines its label. -/
theorem Follows.define (h : s.Follows lines pushed) {text : List Char}
    (hdefine : s.define current text = .ok s') :
    s'.Follows (lines ++ [.label text]) pushed := by
  obtain ⟨handle, t, hlabel, hguard, rfl⟩ := define_eq_ok hdefine
  obtain ⟨hfollows, label, hmem, hname, rfl⟩ := h.label hlabel
  rw [← hname, hfollows.find?_name hmem] at hguard
  rw [← hname]
  exact hfollows.place hmem hguard (congrArg some hname.symm) rfl

/-- An instruction line pushes its instruction. -/
theorem Follows.instruction (h : s.Follows lines pushed) {text : List Char}
    (hinstr : s.instruction current text = .ok s') :
    ∃ entry, s'.Follows (lines ++ [.instruction text]) (pushed ++ [entry]) := by
  obtain ⟨opcode, o, t, id, b, hopcode, hoperand, hrun, rfl⟩ := instruction_eq_ok hinstr
  obtain ⟨hfollows, hfits, htarget, hjump⟩ := h.operand hoperand
  obtain ⟨b', hrun', hpushed, htidy⟩ := hfollows.tidy.run_push hfits fun t ht => by
    obtain ⟨label, hmem, rfl⟩ := htarget t ht
    exact hfollows.tidy.known _ (List.mem_map_of_mem hmem)
  cases hrun.symm.trans hrun'
  refine ⟨(opcode, o), hfollows.push hpushed htidy rfl rfl ⟨hopcode, fun name hname => ?_⟩⟩
  rw [Line.jumpsTo?, hopcode] at hname
  obtain ⟨hisJump, hname⟩ := Option.ite_none_right_eq_some.1 hname
  cases hname
  exact hjump hisJump

/-- **One line.** A state in step with the lines before it is in step with the line too. -/
theorem Follows.line (h : s.Follows lines pushed) {raw : List Char}
    (hline : s.line current raw = .ok s') :
    ∃ pushed', s'.Follows (lines ++ [Line.read raw]) pushed' := by
  rw [line_eq] at hline
  cases hread : Line.read raw with
  | blank =>
    rw [hread] at hline
    cases hline
    exact ⟨pushed, h.skip ⟨rfl, rfl, rfl, rfl⟩ rfl rfl⟩
  | directive text =>
    rw [hread] at hline
    obtain ⟨hlabels, hcode⟩ := directive_eq_ok hline
    obtain ⟨builder, labels⟩ := s'
    cases hlabels
    exact ⟨pushed, h.skip hcode rfl rfl⟩
  | label text =>
    rw [hread] at hline
    exact ⟨pushed, h.define hline⟩
  | instruction text =>
    rw [hread] at hline
    obtain ⟨entry, h⟩ := h.instruction hline
    exact ⟨pushed ++ [entry], h⟩

/-- **All lines.** The state after a run is in step with the lines. -/
theorem follows_of_run {raws : List (List Char)} (hrun : State.run {} 1 raws = .ok s) :
    ∃ pushed, s.Follows (raws.map Line.read) pushed :=
  run_induction (I := fun lines s => ∃ pushed, s.Follows lines pushed)
    (fun _ _ _ _ _ ⟨_, h⟩ hline => h.line hline) ⟨[], follows_empty⟩ hrun

/-- Once no label waits, a label stands before the instruction of the first instruction line behind
    the one line that defines it. -/
theorem Follows.exists_target (h : s.Follows lines pushed)
    (hpending : s.builder.pendingLabels = []) {label : LabelEntry} (hlabel : label ∈ s.labels)
    (hdefined : label.defined = true) :
    ∃ d f id, (∀ d', Defines lines label.name d' ↔ d' = d) ∧ FirstBehind lines d f ∧
      s.builder.draft.instrs[position lines f]? = some id ∧
      s.builder.draft.pool.stolenBy label.handle = some id := by
  obtain ⟨line, hmem, hname⟩ := h.defined label hlabel hdefined
  obtain ⟨d, hd, rfl⟩ := List.getElem_of_mem hmem
  have hunique : ∀ d', Defines lines label.name d' ↔ d' = d := by
    intro d'
    constructor
    · rintro ⟨line', hline', hname'⟩
      obtain ⟨hd', rfl⟩ := List.getElem?_eq_some_iff.1 hline'
      rcases Nat.lt_trichotomy d' d with hlt | heq | hlt
      · exact absurd hname (List.pairwise_iff_getElem.1 h.once d' d hd' hd hlt _ hname')
      · exact heq
      · exact absurd hname' (List.pairwise_iff_getElem.1 h.once d d' hd hd' hlt _ hname)
    · rintro rfl
      exact ⟨_, List.getElem?_eq_getElem hd, hname⟩
  obtain ⟨entry, hentry, hsame, -, hstands⟩ :=
    h.stands d _ _ (List.getElem?_eq_getElem hd) hname
  cases List.inj_on_of_nodup_map h.names hentry hlabel hsame
  -- The label does not wait any more, so that an instruction stole from it.
  rcases hstands with ⟨-, hwait⟩ | ⟨id, hget, hstolen⟩
  · rw [hpending] at hwait
    cases hwait
  · have hnext : position lines (d + 1) = position lines d := by
      rw [position_succ (List.getElem?_eq_getElem hd), Line.isInstruction_of_label? hname]
      rfl
    have hlt : position lines (d + 1) < (lines.filter Line.isInstruction).length := by
      rw [hnext, ← position_length, ← h.length_instrs]
      exact (List.getElem?_eq_some_iff.1 hget).1
    obtain ⟨f, hfirst, hposition⟩ := exists_firstBehind hlt
    refine ⟨d, f, id, hunique, hfirst, ?_, hstolen⟩
    rw [hposition, hnext]
    exact hget

/-- An instruction line has its instruction in the sequence, with the target settled. -/
theorem Follows.exists_instr (h : s.Follows lines pushed) {k : Nat} {line : Line}
    (hline : (lines.filter Line.isInstruction)[k]? = some line) :
    ∃ id entry, s.builder.draft.instrs[k]? = some id ∧ Means s.labels line entry ∧
      s.builder.draft.pool.get? id = some ⟨entry.1, s.builder.draft.pool.settle entry.2⟩ := by
  obtain ⟨hk, rfl⟩ := List.getElem?_eq_some_iff.1 hline
  obtain ⟨hlength, hmeans⟩ := List.forall₂_iff_get.1 h.means
  obtain ⟨hlength', hcode⟩ := List.forall₂_iff_get.1 h.tidy.code
  have hk' : k < pushed.length := hlength ▸ hk
  exact ⟨_, pushed[k], List.getElem?_eq_getElem (hlength' ▸ hk'), hmeans k hk hk',
    hcode k (hlength' ▸ hk') hk'⟩

end State

/-! ### Routines -/

/-- The lines of a text. -/
def readLines (source : String) : List Line := (Text.lines source.toList).map Line.read

/-- A text that is assembled leads to a state that follows all of its lines, with every label placed
    and no label waiting for an instruction, and whose draft is the routine. -/
theorem exists_follows {source : String} {c : Routine} (h : assemble? source = .ok c) :
    ∃ (s : State) (pushed : List (Opcode × Operand)), s.Follows (readLines source) pushed ∧
      (∀ label ∈ s.labels, label.defined = true) ∧ s.builder.pendingLabels = [] ∧
      Routine.ofDraft? s.builder.draft = .ok c := by
  obtain ⟨s, hrun, hfinish⟩ := bind_eq_ok.1 h
  obtain ⟨pushed, hfollows⟩ := State.follows_of_run hrun
  exact ⟨s, pushed, hfollows, State.finish_eq_ok hfinish⟩

/-- A draft has the body of the routine that is made of it. -/
theorem toBody_of_ofDraft? {d : Draft} {c : Routine} (h : Routine.ofDraft? d = .ok c) :
    c.toBody = d.toBody := by
  obtain ⟨_, -, hc⟩ := bind_eq_ok.1 h
  cases hc
  rfl

/-- Assembled routines are sound. -/
theorem sound_of_assemble {source : String} {c : Routine} (h : assemble? source = .ok c) :
    c.Sound := by
  obtain ⟨s, pushed, hfollows, -, -, hmade⟩ := exists_follows h
  refine Routine.sound_of_ofDraft? hmade fun entry hentry => ?_
  exact hfollows.tidy.consistent.fits _ _ (Body.mem_code.1 hentry).2

/-- The routine has the instructions of the instruction lines, in order, and a jump to a label leads
    to the first instruction behind the one line that defines it. -/
structure Renders (lines : List Line) (c : Routine) : Prop where
  distinct : (c.code.map (·.1)).Nodup
  length : c.code.length = (lines.filter Line.isInstruction).length
  opcode : ∀ m line, lines[m]? = some line → line.isInstruction = true →
    ∃ entry, c.code[position lines m]? = some entry ∧ line.opcode? = some entry.2.opcode
  jump : ∀ m line name, lines[m]? = some line → line.jumpsTo? = some name →
    ∃ d f entry target, (∀ d', Defines lines name d' ↔ d' = d) ∧ FirstBehind lines d f ∧
      c.code[position lines m]? = some entry ∧ c.code[position lines f]? = some target ∧
      entry.2.operand = .jump target.1

section

variable {s : State} {lines : List Line} {pushed : List (Opcode × Operand)} {c : Routine}

/-- A complete state stands for what its lines say. -/
theorem State.Follows.renders (h : s.Follows lines pushed)
    (hdefined : ∀ label ∈ s.labels, label.defined = true)
    (hpending : s.builder.pendingLabels = []) (hc : c.Sound)
    (hbody : c.toBody = s.builder.draft.toBody) : Renders lines c := by
  have hcode : ∀ {k : Nat} {entry : Handle × Instr}, c.code[k]? = some entry ↔
      s.builder.draft.instrs[k]? = some entry.1 ∧
        s.builder.draft.pool.get? entry.1 = some entry.2 := by
    intro k entry
    rw [Body.getElem?_code hc, hbody]
  -- Where no label waits, the instruction of each instruction line is in the sequence.
  have hinstr : ∀ m line, lines[m]? = some line → line.isInstruction = true →
      ∃ id entry, Means s.labels line entry ∧ c.code[position lines m]? =
        some (id, ⟨entry.1, s.builder.draft.pool.settle entry.2⟩) := by
    intro m line hline hisInstr
    obtain ⟨id, entry, hid, hmeans, hget⟩ := h.exists_instr (getElem?_filter_position hline hisInstr)
    exact ⟨id, entry, hmeans, hcode.2 ⟨hid, hget⟩⟩
  refine ⟨?_, ?_, fun m line hline hisInstr => ?_, fun m line name hline hname => ?_⟩
  · rw [Body.map_fst_code hc]
    exact hc.distinct
  · rw [Body.length_code hc, hbody, h.length_instrs, position_length]
  · obtain ⟨id, entry, hmeans, hentry⟩ := hinstr m line hline hisInstr
    exact ⟨_, hentry, hmeans.1⟩
  · obtain ⟨id, entry, hmeans, hentry⟩ := hinstr m line hline (Line.isInstruction_of_jumpsTo? hname)
    obtain ⟨label, hlabel, rfl, hjump⟩ := hmeans.2 name hname
    -- The label of a jump was stolen from by the instruction of the first instruction line behind
    -- it.
    obtain ⟨d, f, target, hunique, hfirst, htarget, hstolen⟩ :=
      h.exists_target hpending hlabel (hdefined label hlabel)
    obtain ⟨i, hi⟩ := hc.known target (hbody ▸ List.mem_of_getElem? htarget)
    refine ⟨d, f, _, (target, i), hunique, hfirst, hentry, hcode.2 ⟨htarget, hbody ▸ hi⟩, ?_⟩
    rw [hjump]
    exact congrArg Operand.jump (congrArg (·.getD label.handle) hstolen)

/-- So the jumps lead to live instructions. -/
theorem Renders.jumpsLive (h : Renders lines c) (hc : c.Sound) : c.JumpsLive := by
  refine Routine.jumpsLive_iff_code.2 fun k hk t hoperand => ?_
  obtain ⟨m, line, hline, hinstr, rfl⟩ := exists_position (h.length ▸ hk)
  obtain ⟨entry, hentry, hopcode⟩ := h.opcode m line hline hinstr
  obtain ⟨_, rfl⟩ := List.getElem?_eq_some_iff.1 hentry
  obtain ⟨hid, hget⟩ := Body.mem_code.1 (List.mem_of_getElem? hentry)
  -- A jump operand fits jump opcodes only, so that the line is a jump line.
  have hname : line.jumpsTo? = some (String.ofList line.operand) := by
    rw [Line.jumpsTo?, hopcode]
    exact if_pos (Operand.isJump_of_fits (hoperand ▸ hc.fits _ hid _ hget))
  obtain ⟨_, _, entry, target, -, -, hentry', htarget, hoperand'⟩ := h.jump m line _ hline hname
  cases hentry.symm.trans hentry'
  cases hoperand.symm.trans hoperand'
  exact (Body.mem_code.1 (List.mem_of_getElem? htarget)).1

end

/-- **Labels.** The instructions of an assembled routine are those of the instruction lines, and a
    jump line leads to the first of them behind the line that defines its label, of which there is
    just one.  So no jump keeps the routine from being stored. -/
theorem labels_of_assemble {source : String} {c : Routine} (h : assemble? source = .ok c) :
    Renders (readLines source) c ∧ ∀ options handle opcode target,
      c.store? options ≠ .error (.unresolvedJump handle opcode target) := by
  obtain ⟨s, pushed, hfollows, hdefined, hpending, hmade⟩ := exists_follows h
  have hc := sound_of_assemble h
  have hrenders := hfollows.renders hdefined hpending hc (toBody_of_ofDraft? hmade)
  exact ⟨hrenders, Routine.store?_ne_unresolvedJump (hrenders.jumpsLive hc) hc.known⟩

/-- Jumps forwards, backwards and to itself, and two labels in one place. -/
def loops : String :=
  "a:\nb:\n JUMP_ABSOLUTE c\nc:\n JUMP_ABSOLUTE c\n JUMP_ABSOLUTE a\n"

/-- The middle jump leads to itself, the first one ahead to it and the last one back to the
    start. -/
theorem labels_of_assemble_loops : ∃ c, assemble? loops = .ok c ∧
    c.shape.map (·.target?) = [some 1, some 1, some 0] ∧ Renders (readLines loops) c ∧
    ∀ options handle opcode target,
      c.store? options ≠ .error (.unresolvedJump handle opcode target) := by
  have hshape : (assemble? loops).toOption.map (fun c => c.shape.map (·.target?)) =
      some [some 1, some 1, some 0] := by decide +kernel
  obtain ⟨c, hc, htargets⟩ := Option.map_eq_some_iff.1 hshape
  have hc := eq_ok_of_toOption hc
  exact ⟨c, hc, htargets, labels_of_assemble hc⟩

end StackCode.Assembly
