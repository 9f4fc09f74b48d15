import Stackscript.Proofs.Assemblable

/-!
# When assembly fails

Faults come up in different passes: those of variables while instructions are drafted, those of
jumps only when a whole block has been drafted, and a jump that is left out never comes so far. All
the same they are faults of single instructions: assembly fails exactly if some instruction of the
program is faulty, and the fault that it reports is that of such an instruction.

* `Instr.Faulty`, `LabelCode.Defect`: what can be wrong with an instruction and with a program;
* `draft_eq_error`, `Draft.resolve_eq_error`, `Block.assemble_eq_error`: where the faults come from;
* **`LabelCode.assemble_fails_iff_defect`**.
-/

namespace Stackscript

/-- What is wrong with an instruction of a block with the given labels; `inCall` says that the block
is that of a function. -/
inductive Instr.Faulty (vars : Array Variable) (labels : List LabelId) (inCall : Bool) :
    Instr → AssemblyFault → Prop where
  | unboundLabel {i : Instr} {l : LabelId} : i.jumpTarget? = some l → l ∉ labels →
      Faulty vars labels inCall i (.unboundLabel l)
  | localAtTop {i : Instr} {id : VarId} {v : Variable} : i.mention? = some id → vars[id]? = some v →
      v.storage.isGlobal = false → v.storage ≠ .native → inCall = false →
      Faulty vars labels inCall i (.localAtTop v.name)
  | storeToNative {id : VarId} {v : Variable} : vars[id]? = some v → v.storage = .native →
      Faulty vars labels inCall (.store id) (.storeToNative v.name)
  | unknownNative {id : VarId} {v : Variable} : vars[id]? = some v → v.storage = .native →
      NativeEntry.slot? v.name = none → Faulty vars labels inCall (.load id) (.unknownNative v.name)
  | unknownVariable {i : Instr} {id : VarId} : i.mention? = some id → vars[id]? = none →
      Faulty vars labels inCall i (.unknownVariable id)

/-- **What is wrong with a program** all of whose variables are known. -/
inductive LabelCode.Defect (code : LabelCode) : AssemblyFault → Prop where
  /-- A jump names a label that its block does not have. -/
  | unboundLabel {b : Block} {i : Instr} {l : LabelId} : b ∈ code.blocks → i ∈ b.instrs →
      i.jumpTarget? = some l → l ∉ b.labelIds → Defect code (.unboundLabel l)
  /-- The top level reads or writes a variable of a function. -/
  | localAtTop {i : Instr} {id : VarId} {v : Variable} : i ∈ code.main.instrs →
      i.mention? = some id → code.vars[id]? = some v → v.storage.isGlobal = false →
      v.storage ≠ .native → Defect code (.localAtTop v.name)
  /-- A native is written. -/
  | storeToNative {b : Block} {id : VarId} {v : Variable} : b ∈ code.blocks → .store id ∈ b.instrs →
      code.vars[id]? = some v → v.storage = .native → Defect code (.storeToNative v.name)
  /-- A native is read that is not in the native table. -/
  | unknownNative {b : Block} {id : VarId} {v : Variable} : b ∈ code.blocks → .load id ∈ b.instrs →
      code.vars[id]? = some v → v.storage = .native → NativeEntry.slot? v.name = none →
      Defect code (.unknownNative v.name)

/-! ## Faulty instructions cannot be assembled -/

theorem Instr.Faulty.not_assembles {vars : Array Variable} {labels : List LabelId} {inCall : Bool}
    {i : Instr}
    {fault : AssemblyFault} (h : i.Faulty vars labels inCall fault) :
    ¬ i.Assembles vars labels inCall := by
  rintro ⟨hknows, htarget⟩
  cases h with
  | unboundLabel hl hlabels => exact hlabels (htarget _ hl)
  | localAtTop hi hv hg hn hcall =>
    subst hcall
    cases i with
    | load | store =>
      cases hi
      simp [KnowsVariable, hv, hn, hg] at hknows
    | _ => cases hi
  | storeToNative hv hn => simp [KnowsVariable, hv, hn] at hknows
  | unknownNative hv hn hs => simp [KnowsVariable, hv, hn, hs] at hknows
  | unknownVariable hi hv =>
    cases i with
    | load | store =>
      cases hi
      simp [KnowsVariable, hv] at hknows
    | _ => cases hi

/-! ## Where faults come from -/

variable {vars : Array Variable} {order : ByteOrder} {s : Slots} {fault : AssemblyFault}

theorem draftVariable_eq_error {v : Variable} {id : VarId} {global frame : UInt32 → Op}
    (h : draftVariable v id global frame s = .error fault) :
    v.storage.isGlobal = false ∧ s.locals.isSome = false ∧ fault = .localAtTop v.name := by
  unfold draftVariable at h
  cases hg : v.storage.isGlobal with
  | true =>
    rw [hg] at h
    cases h
  | false =>
    rw [hg] at h
    cases hl : s.locals with
    | none =>
      rw [hl] at h
      cases h
      exact ⟨rfl, rfl, rfl⟩
    | some table =>
      rw [hl] at h
      cases h

/-- Only loads and stores fail to be drafted. -/
theorem draft_eq_error {i : Instr} (h : draft vars i s = .error fault) (labels : List LabelId) :
    i.Faulty vars labels s.locals.isSome fault := by
  cases i with
  | load id =>
    simp only [draft, draftLoad] at h
    cases hv : vars[id]? with
    | none =>
      rw [hv] at h
      cases h
      exact .unknownVariable rfl hv
    | some v =>
      rw [hv] at h
      by_cases hn : v.storage = .native
      · simp only [hn, if_true] at h
        cases hs : NativeEntry.slot? v.name with
        | none =>
          rw [hs] at h
          cases h
          exact .unknownNative hv hn hs
        | some slot =>
          rw [hs] at h
          cases h
      · simp only [hn, if_false] at h
        obtain ⟨hg, hl, rfl⟩ := draftVariable_eq_error h
        exact .localAtTop rfl hv hg hn hl
  | store id =>
    simp only [draft, draftStore] at h
    cases hv : vars[id]? with
    | none =>
      rw [hv] at h
      cases h
      exact .unknownVariable rfl hv
    | some v =>
      rw [hv] at h
      by_cases hn : v.storage = .native
      · simp only [hn, if_true] at h
        cases h
        exact .storeToNative hv hn
      · simp only [hn, if_false] at h
        obtain ⟨hg, hl, rfl⟩ := draftVariable_eq_error h
        exact .localAtTop rfl hv hg hn hl
  | _ => cases h

theorem draftAll_eq_error {code : List Instr} (h : draftAll vars code s = .error fault)
    (labels : List LabelId) : ∃ i ∈ code, i.Faulty vars labels s.locals.isSome fault := by
  induction code generalizing s with
  | nil => cases h
  | cons i code ih =>
    simp only [draftAll, except_bind_eq_error] at h
    obtain h | ⟨⟨d, s₁⟩, hd, h | ⟨ds, -, h⟩⟩ := h
    · exact ⟨i, List.mem_cons_self, draft_eq_error h labels⟩
    · obtain ⟨j, hj, hfaulty⟩ := ih h
      exact ⟨j, List.mem_cons_of_mem _ hj, (draft_spec hd).2.isSome_locals ▸ hfaulty⟩
    · cases h

theorem draftLabels_eq_error {code : List (LabelId × List Instr)}
    (h : draftLabels vars code s = .error fault)
    (labels : List LabelId) :
    ∃ i ∈ code.flatMap (·.2), i.Faulty vars labels s.locals.isSome fault := by
  induction code generalizing s with
  | nil => cases h
  | cons l code ih =>
    simp only [draftLabels, except_bind_eq_error] at h
    obtain h | ⟨⟨ds, s₁⟩, hds, h | ⟨rest, -, h⟩⟩ := h
    · obtain ⟨i, hi, hfaulty⟩ := draftAll_eq_error h labels
      exact ⟨i, List.mem_append_left _ hi, hfaulty⟩
    · obtain ⟨j, hj, hfaulty⟩ := ih h
      exact ⟨j, List.mem_append_right _ hj, (draftAll_spec hds).2.isSome_locals ▸ hfaulty⟩
    · cases h

/-- Only jumps fail to be resolved. -/
theorem Draft.resolve_eq_error {offsets : List (LabelId × Nat)} {d : Draft}
    (h : d.resolve offsets = .error fault) :
    ∃ l, d.target? = some l ∧ (offsets.lookup l).isSome = false ∧ fault = .unboundLabel l := by
  have haddress : ∀ {l : LabelId} {make : UInt32 → Op}, Draft.address offsets l make =
      .error fault → (offsets.lookup l).isSome = false ∧ fault = .unboundLabel l := by
    intro l make h
    unfold Draft.address at h
    split at h
    case h_1 => cases h
    case h_2 hl =>
      cases h
      exact ⟨by rw [hl]; rfl, rfl⟩
  cases d with
  | plain op => cases h
  | goto l | popJumpIfZero l | popJumpIfNonzero l => exact ⟨l, rfl, haddress h⟩

/-- **The fault of a block is that of one of its instructions.** -/
theorem Block.assemble_eq_error {b : Block} (h : b.assemble vars order s = .error fault) :
    ∃ i ∈ b.instrs, i.Faulty vars b.labelIds s.locals.isSome fault := by
  simp only [Block.assemble, except_bind_eq_error] at h
  obtain h | ⟨⟨drafts, t⟩, hdrafts, h | ⟨ops, -, h⟩⟩ := h
  · obtain ⟨i, hi, hfaulty⟩ := draftLabels_eq_error h b.labelIds
    rw [b.flatMap_layout] at hi
    exact ⟨i, Block.mem_instrs_of_laidOut hi, hfaulty⟩
  · obtain ⟨hids, hdrafted, -⟩ := Block.draftLabels_layout hdrafts
    obtain ⟨d, hd, h⟩ := mapM_eq_error h
    obtain ⟨l, htarget, hlookup, rfl⟩ := Draft.resolve_eq_error h
    obtain ⟨i, hi, hid⟩ := exists_mem_of_forall₂ hdrafted.flip hd
    refine ⟨i, Block.mem_instrs_of_laidOut hi, .unboundLabel (hid.target ▸ htarget) fun hl => ?_⟩
    rw [← hids] at hl
    rw [(lookup_labelOffsets_isSome drafts 0 [] l).2 (.inr hl)] at hlookup
    cases hlookup
  · cases h

theorem LabelFunction.assembleAll_eq_error {fs : List LabelFunction}
    (h : assembleAll vars order fs s = .error fault) :
    ∃ f ∈ fs, ∃ i ∈ f.block.instrs, i.Faulty vars f.block.labelIds true fault := by
  induction fs generalizing s with
  | nil => cases h
  | cons f fs ih =>
    simp only [assembleAll, LabelFunction.assemble, except_bind_eq_error] at h
    obtain (h | ⟨_, -, h⟩) | ⟨⟨r, s₁⟩, -, h | ⟨rs, -, h⟩⟩ := h
    · exact ⟨f, List.mem_cons_self, Block.assemble_eq_error h⟩
    · cases h
    · obtain ⟨g, hg, hfaulty⟩ := ih h
      exact ⟨g, List.mem_cons_of_mem _ hg, hfaulty⟩
    · cases h

/-! ## Programs -/

namespace LabelCode

variable {code : LabelCode}

/-- What is wrong with an instruction is wrong with the program, if all variables are known. -/
theorem Defect.of_faulty (hvars : ∀ b ∈ code.blocks, ∀ id ∈ b.mentions, id < code.vars.size)
    {b : Block} {inCall : Bool}
    (hb : b ∈ code.blocks) (hmain : inCall = false → b = code.main) {i : Instr} (hi : i ∈ b.instrs)
    (h : i.Faulty code.vars b.labelIds inCall fault) : code.Defect fault := by
  cases h with
  | unboundLabel hl hlabels => exact .unboundLabel hb hi hl hlabels
  | localAtTop hid hv hg hn hcall => exact .localAtTop (hmain hcall ▸ hi) hid hv hg hn
  | storeToNative hv hn => exact .storeToNative hb hi hv hn
  | unknownNative hv hn hs => exact .unknownNative hb hi hv hn hs
  | unknownVariable hid hv =>
    have hlt := hvars b hb _ (List.mem_filterMap.2 ⟨i, hi, hid⟩)
    rw [Array.getElem?_eq_getElem hlt] at hv
    cases hv

theorem Assembles.block (h : code.Assembles) {b : Block} (hb : b ∈ code.blocks) :
    ∃ inCall, ∀ i ∈ b.instrs, i.Assembles code.vars b.labelIds inCall := by
  obtain rfl | hb := List.mem_cons.1 hb
  · exact ⟨false, h.main⟩
  · obtain ⟨f, hf, rfl⟩ := List.mem_map.1 hb
    exact ⟨true, h.functions f hf⟩

theorem Defect.not_assembles (h : code.Defect fault) : ¬ code.Assembles := by
  intro ha
  cases h with
  | unboundLabel hb hi hl hlabels =>
    obtain ⟨inCall, hb⟩ := ha.block hb
    exact (Instr.Faulty.unboundLabel hl hlabels).not_assembles (hb _ hi)
  | localAtTop hi hid hv hg hn =>
    exact (Instr.Faulty.localAtTop hid hv hg hn rfl).not_assembles (ha.main _ hi)
  | storeToNative hb hi hv hn =>
    obtain ⟨inCall, hb⟩ := ha.block hb
    exact (Instr.Faulty.storeToNative hv hn).not_assembles (hb _ hi)
  | unknownNative hb hi hv hn hs =>
    obtain ⟨inCall, hb⟩ := ha.block hb
    exact (Instr.Faulty.unknownNative hv hn hs).not_assembles (hb _ hi)

/-- The fault of a program is a defect of it. -/
theorem defect_of_assemble (hvars : ∀ b ∈ code.blocks, ∀ id ∈ b.mentions, id < code.vars.size)
    (h : code.assemble order = .error fault) : code.Defect fault := by
  simp only [assemble, except_bind_eq_error] at h
  obtain h | ⟨⟨main, s⟩, -, h | ⟨_, -, h⟩⟩ := h
  · obtain ⟨i, hi, hfaulty⟩ := Block.assemble_eq_error h
    exact .of_faulty hvars List.mem_cons_self (fun _ => rfl) hi hfaulty
  · obtain ⟨f, hf, i, hi, hfaulty⟩ := LabelFunction.assembleAll_eq_error h
    have hb : f.block ∈ code.blocks := List.mem_cons_of_mem _ (List.mem_map_of_mem hf)
    exact .of_faulty hvars hb (fun h => by cases h) hi hfaulty
  · cases h

/-- **Assembly fails exactly on programs with a defect**, with the fault of such a defect; of all
other programs it makes an executable with a routine for every function, in the order of the
functions. -/
theorem assemble_fails_iff_defect (hvars : ∀ b ∈ code.blocks, ∀ id ∈ b.mentions,
      id < code.vars.size)
    (order : ByteOrder) :
    ((∃ fault, code.assemble order = .error fault) ↔ ∃ fault, code.Defect fault) ∧
      (∀ fault, code.assemble order = .error fault → code.Defect fault) ∧
      ((∀ fault, ¬ code.Defect fault) → ∃ exe, code.assemble order = .ok exe ∧
        List.Forall₂ (fun f r => r.name = f.name ∧ r.arity = f.arity ∧
          ∃ s t, f.assemble code.vars order s = .ok (r, t))
          code.functions.toList exe.routines.toList) := by
  have hdefect : ∀ fault, code.assemble order = .error fault → code.Defect fault :=
    fun fault h => defect_of_assemble hvars h
  refine ⟨⟨fun ⟨fault, h⟩ => ⟨fault, hdefect fault h⟩, fun ⟨fault, h⟩ => ?_⟩, hdefect, fun h => ?_⟩
  · cases hassemble : code.assemble order with
    | error fault => exact ⟨fault, rfl⟩
    | ok exe => exact absurd (assemble_ok_iff.1 ⟨exe, hassemble⟩) h.not_assembles
  · cases hassemble : code.assemble order with
    | error fault => exact absurd (hdefect fault hassemble) (h fault)
    | ok exe =>
      obtain ⟨s, t, -, -, -, hroutines, -⟩ := assemble_eq_ok hassemble
      refine ⟨exe, rfl, (LabelFunction.assembleAll_eq_ok hroutines).1.imp fun f r ⟨s₁, t₁, hr, _⟩ =>
        ?_⟩
      obtain ⟨-, -, hname, harity, -⟩ := LabelFunction.assemble_eq_ok hr
      exact ⟨hname, harity, s₁, t₁, hr⟩

/-- A program whose function jumps to a label that only the top level has. -/
def misdirected : LabelCode where
  main := ⟨#[⟨0, #[.functionRef 0, .store 1, .goto 7]⟩, ⟨7, #[.load 0, .pop, .exit]⟩], 8⟩
  functions := #[⟨"f", [2],
    ⟨#[⟨0, #[.load 2, .popJumpIfZero 7, .goto 1]⟩, ⟨1, #[.pushNull, .ret]⟩], 2⟩⟩]
  vars := #[⟨"println", .native, -1, none⟩, ⟨"f", .globalConstant, 0, none⟩,
    ⟨"x", .functionMutable, 1, some 0⟩]

theorem assemble_fails_iff_defect_misdirected :
    (∀ b ∈ misdirected.blocks, ∀ id ∈ b.mentions, id < misdirected.vars.size) ∧
      misdirected.Defect (.unboundLabel 7) ∧
        ∃ fault, misdirected.assemble .little = .error fault := by
  have hvars : ∀ b ∈ misdirected.blocks, ∀ id ∈ b.mentions, id < misdirected.vars.size := by decide
  have hdefect : misdirected.Defect (.unboundLabel 7) := by
    refine .unboundLabel (b := misdirected.functions[0].block)
      (i := .popJumpIfZero 7) ?_ ?_ rfl ?_ <;> decide
  exact ⟨hvars, hdefect, (assemble_fails_iff_defect hvars .little).1.2 ⟨_, hdefect⟩⟩

end LabelCode

end Stackscript
