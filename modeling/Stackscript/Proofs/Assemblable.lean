import Stackscript.Proofs.Layout

/-!
# Which programs can be assembled

Assembly looks at instructions one at a time: a jump has to name a label of its block, and a
variable has to be known and to be kept where the instruction stands.

* `Instr.KnowsVariable`, `Instr.Assembles`, `LabelCode.Assembles`;
* `Block.assemble_ok_iff`, **`LabelCode.assemble_ok_iff`**.
-/

namespace Stackscript

/-- The variable of an instruction, if it has one, can be read or written where the instruction
stands; `inCall` says that it stands in a function. -/
def Instr.KnowsVariable (vars : Array Variable) (inCall : Bool) : Instr → Prop
  | .load id => ∃ v, vars[id]? = some v ∧
      if v.storage = .native then (NativeEntry.slot? v.name).isSome
      else v.storage.isGlobal || inCall
  | .store id => ∃ v, vars[id]? = some v ∧ v.storage ≠ .native ∧ (v.storage.isGlobal || inCall)
  | _ => True

/-- An instruction of a block with the given labels can be assembled. -/
structure Instr.Assembles (vars : Array Variable) (labels : List LabelId) (inCall : Bool)
    (i : Instr) : Prop where
  knowsVariable : i.KnowsVariable vars inCall
  target : ∀ l, i.jumpTarget? = some l → l ∈ labels

/-- Every instruction of a program can be assembled. -/
structure LabelCode.Assembles (code : LabelCode) : Prop where
  main : ∀ i ∈ code.main.instrs, i.Assembles code.vars code.main.labelIds false
  functions : ∀ f ∈ code.functions.toList, ∀ i ∈ f.block.instrs,
    i.Assembles code.vars f.block.labelIds true

/-! ## Drafts -/

theorem draftVariable_ok_iff {v : Variable} {id : VarId} {global frame : UInt32 → Op} {s : Slots} :
    (∃ r, draftVariable v id global frame s = .ok r) ↔ v.storage.isGlobal || s.locals.isSome := by
  unfold draftVariable
  cases v.storage.isGlobal with
  | true => simp
  | false => cases s.locals <;> simp

theorem draft_ok_iff {vars : Array Variable} {i : Instr} {s : Slots} :
    (∃ r, draft vars i s = .ok r) ↔ i.KnowsVariable vars s.locals.isSome := by
  cases i with
  | load id =>
    simp only [draft, draftLoad, Instr.KnowsVariable]
    cases hv : vars[id]? with
    | none => simp
    | some v =>
      by_cases hn : v.storage = .native
      · cases hs : NativeEntry.slot? v.name <;> simp [hn, hs]
      · simp only [hn, if_false, draftVariable_ok_iff, Option.some.injEq, exists_eq_left']
  | store id =>
    simp only [draft, draftStore, Instr.KnowsVariable]
    cases hv : vars[id]? with
    | none => simp
    | some v =>
      by_cases hn : v.storage = .native
      · simp [hn]
      · simp only [hn, if_false, draftVariable_ok_iff, Option.some.injEq, exists_eq_left', ne_eq,
          not_false_eq_true, true_and]
  | _ => simp [draft, Instr.KnowsVariable]

theorem Slots.After.isSome_locals {vars : Array Variable} {code : List Instr} {s t : Slots}
    (h : Slots.After vars code s t) : t.locals.isSome = s.locals.isSome := by
  rw [h.locals, Option.isSome_map]

theorem draftAll_ok_iff {vars : Array Variable} {code : List Instr} {s : Slots} :
    (∃ r, draftAll vars code s = .ok r) ↔ ∀ i ∈ code, i.KnowsVariable vars s.locals.isSome := by
  induction code generalizing s with
  | nil => simp [draftAll]
  | cons i code ih =>
    rw [List.forall_mem_cons, ← draft_ok_iff]
    simp only [draftAll, except_bind_eq_ok]
    constructor
    · rintro ⟨r, ⟨d, s₁⟩, h₁, ⟨ds, s₂⟩, h₂, -⟩
      exact ⟨⟨_, h₁⟩, (draft_spec h₁).2.isSome_locals ▸ ih.1 ⟨_, h₂⟩⟩
    · rintro ⟨⟨⟨d, s₁⟩, h₁⟩, hcode⟩
      obtain ⟨⟨ds, s₂⟩, h₂⟩ := ih.2 ((draft_spec h₁).2.isSome_locals ▸ hcode)
      exact ⟨_, _, h₁, _, h₂, rfl⟩

theorem draftLabels_ok_iff {vars : Array Variable} {labels : List (LabelId × List Instr)}
    {s : Slots} :
    (∃ r, draftLabels vars labels s = .ok r) ↔
      ∀ i ∈ labels.flatMap (·.2), i.KnowsVariable vars s.locals.isSome := by
  induction labels generalizing s with
  | nil => simp [draftLabels]
  | cons l labels ih =>
    obtain ⟨id, code⟩ := l
    rw [List.flatMap_cons, List.forall_mem_append, ← draftAll_ok_iff]
    simp only [draftLabels, except_bind_eq_ok]
    constructor
    · rintro ⟨r, ⟨ds, s₁⟩, h₁, ⟨rest, s₂⟩, h₂, -⟩
      exact ⟨⟨_, h₁⟩, (draftAll_spec h₁).2.isSome_locals ▸ ih.1 ⟨_, h₂⟩⟩
    · rintro ⟨⟨⟨ds, s₁⟩, h₁⟩, hrest⟩
      obtain ⟨⟨rest, s₂⟩, h₂⟩ := ih.2 ((draftAll_spec h₁).2.isSome_locals ▸ hrest)
      exact ⟨_, _, h₁, _, h₂, rfl⟩

/-! ## Jump targets -/

theorem lookup_labelOffsets_isSome (drafts : List (LabelId × List Draft)) (start : Nat)
    (seen : List (LabelId × Nat)) (l : LabelId) :
    ((labelOffsets start seen drafts).lookup l).isSome ↔
      (seen.lookup l).isSome ∨ l ∈ drafts.map (·.1) := by
  induction drafts generalizing start seen with
  | nil => simp [labelOffsets]
  | cons d drafts ih =>
    obtain ⟨id, ds⟩ := d
    rw [labelOffsets, ih, List.lookup_cons]
    by_cases hid : l = id
    · simp [hid]
    · have : (l == id) = false := by simpa using hid
      simp [this, hid]

/-- The label that a draft still names. -/
def Draft.target? : Draft → Option LabelId
  | .plain _ => none
  | .goto l | .popJumpIfZero l | .popJumpIfNonzero l => some l

theorem Draft.address_ok_iff {offsets : List (LabelId × Nat)} {l : LabelId} {make : UInt32 → Op} :
    (∃ op, Draft.address offsets l make = .ok op) ↔ (offsets.lookup l).isSome := by
  unfold Draft.address
  cases offsets.lookup l <;> simp

theorem Draft.resolve_ok_iff {offsets : List (LabelId × Nat)} {d : Draft} :
    (∃ op, d.resolve offsets = .ok op) ↔ ∀ l, d.target? = some l → (offsets.lookup l).isSome := by
  cases d <;> simp [Draft.resolve, Draft.target?, Draft.address_ok_iff]

theorem Instr.DraftedAs.target {vars : Array Variable} {t : Slots} {i : Instr} {d : Draft}
    (h : i.DraftedAs vars t d) : d.target? = i.jumpTarget? := by
  cases h with
  | plain h => cases i <;> cases h <;> rfl
  | _ => rfl

/-! ## Blocks and programs -/

/-- What is left out of a block is a jump to one of its labels. -/
theorem Block.mem_laidOut_or {b : Block} {i : Instr} (h : i ∈ b.instrs) :
    i ∈ b.laidOut ∨ ∃ l ∈ b.labelIds, i = .goto l := by
  obtain ⟨l, hl, hi⟩ := List.mem_flatMap.1 h
  obtain ⟨k, hk⟩ := List.getElem?_of_mem hl
  have hseg := b.getElem?_segments k
  rw [← Array.getElem?_toList, hk, Option.map_some] at hseg
  have hmem : ∀ j ∈ l.laidOut b.labelIds[k + 1]?, j ∈ b.laidOut := fun j hj =>
    List.mem_flatten.2 ⟨_, List.mem_of_getElem? hseg, hj⟩
  obtain hcode | ⟨target, hn, hcode⟩ := l.laidOut_cases b.labelIds[k + 1]?
  · exact .inl (hmem i (hcode ▸ hi))
  · rw [hcode, List.mem_append, List.mem_singleton] at hi
    obtain hi | rfl := hi
    · exact .inl (hmem i hi)
    · exact .inr ⟨target, List.mem_of_getElem? hn, rfl⟩

theorem Block.mem_instrs_of_laidOut {b : Block} {i : Instr} (h : i ∈ b.laidOut) : i ∈ b.instrs := by
  obtain ⟨code, hcode, hi⟩ := List.mem_flatten.1 h
  obtain ⟨k, hk⟩ := List.getElem?_of_mem hcode
  rw [Block.getElem?_segments, Option.map_eq_some_iff] at hk
  obtain ⟨l, hl, rfl⟩ := hk
  rw [← Array.getElem?_toList] at hl
  refine List.mem_flatMap.2 ⟨l, List.mem_of_getElem? hl, ?_⟩
  obtain hcode | ⟨target, -, hcode⟩ := l.laidOut_cases b.labelIds[k + 1]?
  · exact hcode ▸ hi
  · rw [hcode]
    exact List.mem_append_left _ hi

/-- **A block can be assembled exactly if each of its instructions can.** -/
theorem Block.assemble_ok_iff {vars : Array Variable} {order : ByteOrder} {b : Block} {s : Slots} :
    (∃ r, b.assemble vars order s = .ok r) ↔
      ∀ i ∈ b.instrs, i.Assembles vars b.labelIds s.locals.isSome := by
  have hlaid := b.flatMap_layout
  -- a draft resolves exactly if its instruction names a label of the block
  have hresolve : ∀ {drafts t}, draftLabels vars (layout b.labels.toList) s = .ok (drafts, t) →
      ((∃ ops, (drafts.flatMap (·.2)).mapM (Draft.resolve (labelOffsets 0 [] drafts)) = .ok ops) ↔
        ∀ i ∈ b.laidOut, ∀ l, i.jumpTarget? = some l → l ∈ b.labelIds) := by
    intro drafts t h
    obtain ⟨hids, hflat, -⟩ := Block.draftLabels_layout h
    rw [mapM_ok_iff]
    simp only [Draft.resolve_ok_iff, lookup_labelOffsets_isSome, hids, List.lookup_nil,
      Option.isSome_none, Bool.false_eq_true, false_or]
    exact forall_mem_iff_of_forall₂ (hflat.imp fun i d h => by rw [h.target])
  constructor
  · rintro ⟨r, h⟩ i hi
    simp only [Block.assemble, except_bind_eq_ok] at h
    obtain ⟨⟨drafts, t⟩, hdrafts, ops, hops, -⟩ := h
    obtain hi | ⟨l, hl, rfl⟩ := Block.mem_laidOut_or hi
    · exact ⟨draftLabels_ok_iff.1 ⟨_, hdrafts⟩ i (hlaid ▸ hi),
        (hresolve hdrafts).1 ⟨ops, hops⟩ i hi⟩
    · exact ⟨trivial, fun l' e => by cases e; exact hl⟩
  · intro h
    have h' : ∀ i ∈ b.laidOut, i.Assembles vars b.labelIds s.locals.isSome := fun i hi =>
      h i (Block.mem_instrs_of_laidOut hi)
    obtain ⟨⟨drafts, t⟩, hdrafts⟩ :=
      draftLabels_ok_iff.2 (hlaid ▸ fun i hi => (h' i hi).knowsVariable)
    obtain ⟨ops, hops⟩ := (hresolve hdrafts).2 fun i hi => (h' i hi).target
    refine ⟨(Chunk.ofOps order ops, t), ?_⟩
    simp only [Block.assemble, except_bind_eq_ok]
    exact ⟨_, hdrafts, ops, hops, rfl⟩

theorem LabelFunction.assembleAll_ok_iff {vars : Array Variable} {order : ByteOrder}
    {fs : List LabelFunction} {s : Slots} :
    (∃ r, assembleAll vars order fs s = .ok r) ↔
      ∀ f ∈ fs, ∀ i ∈ f.block.instrs, i.Assembles vars f.block.labelIds true := by
  have hone : ∀ (f : LabelFunction) (s : Slots), (∃ r, f.assemble vars order s = .ok r) ↔
      ∀ i ∈ f.block.instrs, i.Assembles vars f.block.labelIds true := by
    intro f s
    have hblock := @Block.assemble_ok_iff vars order f.block
      { s with locals := some (parameterSlots f.parameters) }
    rw [Option.isSome_some] at hblock
    rw [← hblock]
    simp only [LabelFunction.assemble, except_bind_eq_ok]
    constructor
    · rintro ⟨_, r, h, -⟩
      exact ⟨r, h⟩
    · rintro ⟨r, h⟩
      exact ⟨_, r, h, rfl⟩
  induction fs generalizing s with
  | nil => simp [assembleAll]
  | cons f fs ih =>
    simp only [assembleAll, except_bind_eq_ok, List.forall_mem_cons, ← hone f s]
    constructor
    · rintro ⟨r, ⟨r₁, s₁⟩, h₁, ⟨rs, s₂⟩, h₂, -⟩
      exact ⟨⟨_, h₁⟩, ih.1 ⟨_, h₂⟩⟩
    · rintro ⟨⟨⟨r₁, s₁⟩, h₁⟩, hfs⟩
      obtain ⟨⟨rs, s₂⟩, h₂⟩ := (ih (s := s₁)).2 hfs
      exact ⟨_, _, h₁, _, h₂, rfl⟩

/-- **A program can be assembled exactly if each of its instructions can.** -/
theorem LabelCode.assemble_ok_iff {code : LabelCode} {order : ByteOrder} :
    (∃ exe, code.assemble order = .ok exe) ↔ code.Assembles := by
  simp only [LabelCode.assemble, except_bind_eq_ok]
  constructor
  · rintro ⟨exe, ⟨main, s⟩, h₁, ⟨routines, t⟩, h₂, -⟩
    exact ⟨Block.assemble_ok_iff.1 ⟨_, h₁⟩, LabelFunction.assembleAll_ok_iff.1 ⟨_, h₂⟩⟩
  · rintro ⟨hmain, hfunctions⟩
    have hok : ∃ r, code.main.assemble code.vars order ⟨#[], #[], none⟩ = .ok r :=
      Block.assemble_ok_iff.2 hmain
    obtain ⟨⟨main, s⟩, h₁⟩ := hok
    have hok : ∃ r, LabelFunction.assembleAll code.vars order code.functions.toList s = .ok r :=
      LabelFunction.assembleAll_ok_iff.2 hfunctions
    obtain ⟨⟨routines, t⟩, h₂⟩ := hok
    exact ⟨_, _, h₁, _, h₂, rfl⟩

end Stackscript
