import Mathlib.Algebra.Order.BigOperators.Group.List
import Mathlib.Algebra.Order.Group.Nat
import Mathlib.Data.Finset.Card
import Mathlib.Data.List.Perm.Subperm
import Stackscript.Proofs.Assemblable
import Stackscript.Proofs.CodeBounds
import Stackscript.Proofs.CodecInverse

/-!
# Which slots variables get

The tables of slots are filled while instructions are drafted: one table for the globals of the
whole program, one for every function, and the pool of constants. In the end a slot is the place of
its variable in a list that can be read off the program: the variables in the order in which they
are first named, in functions after the parameters. Folding does not change these lists, so it
changes no slot.

* `Chunk.listed`, `Op.isAccess`, `Op.frameSlot?`, `Op.constant?`: what is looked at in a chunk;
* `Instr.AccessedBy`, `Block.SlottedAs`, `LabelFunction.SlottedAs`, `LabelCode.SlottedAs`: what
  slots are;
* `draftLabels_constants`, `LabelCode.assemble_constants`: the entries of the pool are numbered in
  order;
* `Block.slottedAs`, `LabelFunction.slottedAs`, `LabelCode.slottedAs`;
* `foldLabel_pooled_le`, `LabelCode.Numbered.fold`: folding makes no more entries of the pool;
* `Instr.AccessedBy.unique`, `Executable.SameSlots`, **`LabelCode.assemble_slots`**.
-/

namespace Stackscript

/-! ## Operands -/

/-- The instructions that a chunk lists. -/
def Chunk.listed (c : Chunk) : List Op :=
  match c.instructions with
  | .ok listed => listed.map (·.2)
  | .error _ => []

namespace Op

/-- The byte instruction reads or writes a variable. -/
def isAccess : Op → Bool
  | .loadGlobal _ | .storeGlobal _ | .loadFrameVar _ | .storeFrameVar _ | .loadNative _ => true
  | _ => false

/-- The slot of the current call that a byte instruction reads or writes. -/
def frameSlot? : Op → Option UInt32
  | .loadFrameVar slot | .storeFrameVar slot => some slot
  | _ => none

/-- The entry of the pool that a byte instruction pushes. -/
def constant? : Op → Option UInt32
  | .loadConst index => some index
  | _ => none

end Op

/-- A byte instruction does what an instruction does to its variable, given the globals and the
variables of the current call by slot. -/
inductive Instr.AccessedBy (vars : Array Variable) (globals frame : List VarId) :
    Instr → Op → Prop where
  | loadGlobal {id : VarId} {slot : UInt32} : keptGlobally vars id = true →
      globals[slot.toNat]? = some id → AccessedBy vars globals frame (.load id) (.loadGlobal slot)
  | storeGlobal {id : VarId} {slot : UInt32} : keptGlobally vars id = true →
      globals[slot.toNat]? = some id → AccessedBy vars globals frame (.store id) (.storeGlobal slot)
  | loadFrameVar {id : VarId} {slot : UInt32} : keptInFrames vars id = true →
      frame[slot.toNat]? = some id → AccessedBy vars globals frame (.load id) (.loadFrameVar slot)
  | storeFrameVar {id : VarId} {slot : UInt32} : keptInFrames vars id = true →
      frame[slot.toNat]? = some id → AccessedBy vars globals frame (.store id) (.storeFrameVar slot)
  | loadNative {id : VarId} {v : Variable} {index : UInt32} : vars[id]? = some v →
      v.storage = .native → NativeEntry.slot? v.name = some index.toNat →
      AccessedBy vars globals frame (.load id) (.loadNative index)

/-- **The operands of a chunk**, given the pool, the globals and the variables of a call by slot: in
the order of the instructions of the block, a slot of the variable for every load and store, and an
entry of the pool for every constant that needs one. -/
structure Block.SlottedAs (vars : Array Variable) (constants : List Value)
    (globals frame : List VarId) (b : Block) (c : Chunk) : Prop where
  listed : c.instructions = .ok (Chunk.located 0 c.listed)
  accesses : List.Forall₂ (Instr.AccessedBy vars globals frame) (b.instrs.filter Instr.isAccess)
    (c.listed.filter Op.isAccess)
  constants : List.Forall₂ (fun v index => constants[UInt32.toNat index]? = some v) b.pooled
    (c.listed.filterMap Op.constant?)

/-- **The slots of a function.** -/
structure LabelFunction.SlottedAs (vars : Array Variable) (constants : List Value)
    (globals : List VarId) (f : LabelFunction) (r : Routine) : Prop where
  block : f.block.SlottedAs vars constants globals (f.frameVars vars) r.chunk
  /-- If the parameters are distinct, they have the first slots, and other variables the next ones
  in the order in which they are first named. -/
  frameVars : f.parameters.Nodup → f.frameVars vars =
    f.parameters ++
    ((f.block.mentions.filter (keptInFrames vars)).filter (· ∉ f.parameters)).eraseDups
  /-- There are as many slots as there are different variables. -/
  locals : r.locals = (f.parameters ++ f.block.mentions.filter (keptInFrames vars)).toFinset.card
  below : ∀ slot ∈ r.chunk.listed.filterMap Op.frameSlot?, slot.toNat < r.locals
  /-- Slots are the same exactly if the variables are. -/
  same : ∀ {i i' : Instr} {op op' : Op} {slot slot' : UInt32},
    (i, op) ∈ (f.block.instrs.filter Instr.isAccess).zip (r.chunk.listed.filter Op.isAccess) →
    (i', op') ∈ (f.block.instrs.filter Instr.isAccess).zip (r.chunk.listed.filter Op.isAccess) →
    op.frameSlot? = some slot → op'.frameSlot? = some slot' →
    (slot = slot' ↔ i.mention? = i'.mention?)

/-- The chunks of an executable, that of the top level first. -/
def Executable.chunks (exe : Executable) : List Chunk :=
  exe.main :: exe.routines.toList.map (·.chunk)

/-- **The slots of a program.** -/
structure LabelCode.SlottedAs (code : LabelCode) (exe : Executable) : Prop where
  globals : List.Forall₂ (fun id name => ∃ v, code.vars[id]? = some v ∧
    v.name = name) code.globalVars exe.globals.toList
  main : code.main.SlottedAs code.vars exe.constants.toList code.globalVars [] exe.main
  routines : List.Forall₂ (LabelFunction.SlottedAs code.vars exe.constants.toList code.globalVars)
    code.functions.toList exe.routines.toList
  constants : exe.constants.toList = code.blocks.flatMap Block.pooled
  /-- Every entry of the pool is pushed in one place. -/
  own : (exe.chunks.flatMap fun c => c.listed.filterMap Op.constant?).map UInt32.toNat =
    List.range exe.constants.size

/-- The variables of a program, its parameters among them, and its constants can be numbered by
words. -/
structure LabelCode.Numbered (code : LabelCode) : Prop where
  vars : code.vars.size ≤ UInt32.size
  parameters : ∀ f ∈ code.functions.toList, ∀ id ∈ f.parameters, id < UInt32.size
  constants : (code.blocks.flatMap Block.pooled).length ≤ UInt32.size

/-- Two executables have the same globals, calls with as many variables, and byte instructions that
use the same slots in the same order. -/
structure Executable.SameSlots (exe exe' : Executable) : Prop where
  globals : exe'.globals = exe.globals
  main : exe'.main.listed.filter Op.isAccess = exe.main.listed.filter Op.isAccess
  routines : List.Forall₂ (fun r r' => r'.locals = r.locals ∧
    r'.chunk.listed.filter Op.isAccess = r.chunk.listed.filter Op.isAccess)
    exe.routines.toList exe'.routines.toList

/-! ## Chunks -/

theorem Chunk.map_snd_located (offset : Nat) (ops : List Op) :
    (located offset ops).map (·.2) = ops := by
  induction ops generalizing offset with
  | nil => rfl
  | cons op ops ih => rw [located, List.map_cons, ih]

theorem Chunk.listed_ofOps (order : ByteOrder) (ops : List Op) :
    (ofOps order ops).listed = ops := by
  rw [listed, instructions_eq_located]
  exact map_snd_located 0 ops

/-- The entry of the pool that a draft pushes. -/
def Draft.constant? : Draft → Option UInt32
  | .plain op => op.constant?
  | .goto _ | .popJumpIfZero _ | .popJumpIfNonzero _ => none

/-- Resolving changes jumps only. -/
theorem Draft.resolve_eq_ok {offsets : List (LabelId × Nat)} {d : Draft} {op : Op}
    (h : d.resolve offsets = .ok op) :
    d = .plain op ∨ d.target?.isSome = true ∧ op.isAccess = false ∧ op.constant? = none := by
  cases d with
  | plain op' =>
    cases h
    exact .inl rfl
  | goto l | popJumpIfZero l | popJumpIfNonzero l =>
    obtain ⟨offset, -, rfl⟩ := address_eq_ok h
    exact .inr ⟨rfl, rfl, rfl⟩

/-- The byte instruction of an instruction, given the tables of the finished program, whatever
addresses are. -/
def Instr.EmittedAs (vars : Array Variable) (t : Slots) (i : Instr) (op : Op) : Prop :=
  ∃ d, i.DraftedAs vars t d ∧ ∃ offsets, d.resolve offsets = .ok op

theorem Instr.EmittedAs.isAccess {vars : Array Variable} {t : Slots} {i : Instr} {op : Op}
    (h : i.EmittedAs vars t op) : i.isAccess = op.isAccess := by
  obtain ⟨d, hd, offsets, hr⟩ := h
  obtain rfl | ⟨htarget, hop, -⟩ := Draft.resolve_eq_ok hr
  · cases hd with
    | plain hp => cases i <;> cases hp <;> rfl
    | _ => rfl
  · rw [hop]
    rw [hd.target] at htarget
    cases i with
    | goto | popJumpIfZero | popJumpIfNonzero => rfl
    | _ => cases htarget

/-- **Loads and stores name the slots that the tables have for their variables.** -/
theorem Instr.EmittedAs.accessedBy {vars : Array Variable} {t : Slots} {globals frame : List VarId}
    {i : Instr} {op : Op} (h : i.EmittedAs vars t op) (hi : i.isAccess = true)
    (hglobals : ∀ {k : Nat} {id : VarId}, t.globals[k]? = some id → globals[k]? = some id)
    (hframe : ∀ {k : Nat} {id : VarId}, t.locals.bind (·[k]?) = some id → frame[k]? = some id)
    (hg : globals.length ≤ UInt32.size) (hf : frame.length ≤ UInt32.size) :
    i.AccessedBy vars globals frame op := by
  have hslot : ∀ {ids : List VarId} {k : Nat} {id : VarId}, ids.length ≤ UInt32.size →
      ids[k]? = some id → ids[(UInt32.ofNat k).toNat]? = some id := by
    intro ids k id hids hk
    have hlt := (List.getElem?_eq_some_iff.1 hk).1
    rwa [UInt32.toNat_ofNat_of_lt' (by omega)]
  obtain ⟨d, hd, offsets, hr⟩ := h
  obtain rfl | ⟨htarget, -⟩ := Draft.resolve_eq_ok hr
  · cases hd with
    | plain hp => cases i <;> cases hp <;> cases hi
    | string | functionRef => cases hi
    | @loadNative id v slot hv hn hs =>
      have hlt : slot < UInt32.size := by
        obtain ⟨entry, hentry, -⟩ := NativeEntry.slot?_spec hs
        have hlt := (Array.getElem?_eq_some_iff.1 hentry).1
        have hsize : NativeEntry.table.size ≤ UInt32.size := by decide
        omega
      exact .loadNative hv hn (by rw [hs, UInt32.toNat_ofNat_of_lt' hlt])
    | loadGlobal hv hs hk =>
      exact .loadGlobal (by simp [keptGlobally, hv, hs]) (hslot hg (hglobals hk))
    | storeGlobal hv hs hk =>
      exact .storeGlobal (by simp [keptGlobally, hv, hs]) (hslot hg (hglobals hk))
    | loadFrameVar hv hn hs hk =>
      exact .loadFrameVar (by simp [keptInFrames, hv, hn, hs]) (hslot hf (hframe hk))
    | storeFrameVar hv hn hs hk =>
      exact .storeFrameVar (by simp [keptInFrames, hv, hn, hs]) (hslot hf (hframe hk))
  · rw [hd.target] at htarget
    cases i with
    | load | store => cases htarget
    | _ => cases hi

/-! ## The pool -/

theorem draft_constant? {vars : Array Variable} {i : Instr} {s t : Slots} {d : Draft}
    (h : draft vars i s = .ok (d, t)) :
    d.constant? = i.pooled?.map fun _ => UInt32.ofNat s.constants.size := by
  have hother : i.pooled? = none → d.constant? = none := by
    intro hi
    cases (draft_spec h).1 with
    | plain hp => cases i <;> cases hp <;> rfl
    | string | functionRef => cases hi
    | _ => rfl
  cases i with
  | string | functionRef =>
    cases h
    rfl
  | _ => exact hother rfl

theorem draftAll_constants {vars : Array Variable} {code : List Instr} {s t : Slots}
    {ds : List Draft} (h : draftAll vars code s = .ok (ds, t)) :
    ds.filterMap Draft.constant? =
      (List.range' s.constants.size (code.filterMap Instr.pooled?).length).map UInt32.ofNat := by
  induction code generalizing s ds with
  | nil =>
    cases h
    rfl
  | cons i code ih =>
    simp only [draftAll, except_bind_eq_ok] at h
    obtain ⟨⟨d, s₁⟩, h₁, ⟨ds', s₂⟩, h₂, h₃⟩ := h
    cases h₃
    have hsize := congrArg Array.size (draft_spec h₁).2.constants
    have hd := draft_constant? h₁
    cases hi : i.pooled? with
    | none =>
      rw [hi, Option.map_none] at hd
      rw [List.filterMap_cons_none hd, List.filterMap_cons_none hi, ih h₂]
      simp only [List.filterMap_cons_none hi, List.filterMap_nil, Array.append_empty] at hsize
      rw [hsize]
    | some v =>
      rw [hi, Option.map_some] at hd
      rw [List.filterMap_cons_some hd, List.filterMap_cons_some hi, ih h₂, List.length_cons,
        List.range'_succ, List.map_cons]
      simp only [List.filterMap_cons_some hi, List.filterMap_nil, Array.size_append,
        List.size_toArray, List.length_singleton] at hsize
      rw [hsize]

/-- **The constants of a block get the next entries of the pool in order.** -/
theorem draftLabels_constants {vars : Array Variable} {labels : List (LabelId × List Instr)}
    {s t : Slots}
    {drafts : List (LabelId × List Draft)} (h : draftLabels vars labels s = .ok (drafts, t)) :
    (drafts.flatMap (·.2)).filterMap Draft.constant? = (List.range' s.constants.size
      ((labels.flatMap (·.2)).filterMap Instr.pooled?).length).map UInt32.ofNat := by
  induction labels generalizing s drafts with
  | nil =>
    cases h
    rfl
  | cons l labels ih =>
    obtain ⟨id, code⟩ := l
    simp only [draftLabels, except_bind_eq_ok] at h
    obtain ⟨⟨ds, s₁⟩, h₁, ⟨rest, s₂⟩, h₂, h₃⟩ := h
    cases h₃
    have hsize : s₁.constants.size = s.constants.size + (code.filterMap Instr.pooled?).length := by
      simp [(draftAll_spec h₁).2.constants]
    rw [List.flatMap_cons, List.flatMap_cons, List.filterMap_append, List.filterMap_append,
      draftAll_constants h₁, ih h₂, hsize, ← List.map_append,
      List.range'_append_1, List.length_append]

/-! ## Blocks -/

theorem Block.filter_laidOut {p : Instr → Bool} (hp : ∀ l, p (.goto l) = false) (b : Block) :
    b.laidOut.filter p = b.instrs.filter p := by
  rw [← List.filterMap_eq_filter]
  exact b.filterMap_laidOut fun l => by simp [Option.guard, hp]

theorem forall₂_range' {α : Type} {R : α → Nat → Prop} {l : List α} {start : Nat}
    (h : ∀ j a, l[j]? = some a → R a (start + j)) :
    List.Forall₂ R l (List.range' start l.length) := by
  induction l generalizing start with
  | nil => exact .nil
  | cons a l ih =>
    rw [List.length_cons, List.range'_succ]
    refine .cons (h 0 a rfl) (ih fun j b hj => ?_)
    rw [Nat.add_assoc, Nat.add_comm 1]
    exact h (j + 1) b hj

namespace Block

variable {vars : Array Variable} {order : ByteOrder} {b : Block} {s t : Slots} {chunk : Chunk}

/-- What a chunk lists of the instructions of a block that use tables. -/
theorem assemble_emitted (h : b.assemble vars order s = .ok (chunk, t)) :
    chunk.instructions = .ok (Chunk.located 0 chunk.listed) ∧
      List.Forall₂ (Instr.EmittedAs vars t) (b.instrs.filter Instr.isAccess)
      (chunk.listed.filter Op.isAccess) ∧ chunk.listed.filterMap Op.constant? =
        (List.range' s.constants.size b.pooled.length).map UInt32.ofNat := by
  obtain ⟨drafts, ops, hdrafts, hresolved, rfl⟩ := assemble_eq_ok h
  obtain ⟨-, hdrafted, -⟩ := draftLabels_layout hdrafts
  rw [Chunk.listed_ofOps]
  refine ⟨Chunk.instructions_eq_located order ops, ?_, ?_⟩
  · have hemitted : List.Forall₂ (Instr.EmittedAs vars t) b.laidOut ops :=
      (forall₂_comp hdrafted hresolved).imp fun i op ⟨d, hd, hr⟩ => ⟨d, hd, _, hr⟩
    rw [← b.filter_laidOut fun _ => rfl]
    exact List.rel_filter (fun i op hi => iff_of_eq (congrArg (· = true) hi.isAccess)) hemitted
  · have hconstant : List.Forall₂ (fun d op => Draft.constant? d = Op.constant? op)
        (drafts.flatMap (·.2)) ops := by
      refine hresolved.imp fun d op hr => ?_
      obtain rfl | ⟨htarget, -, hop⟩ := Draft.resolve_eq_ok hr
      · rfl
      · rw [hop]
        cases d with
        | plain => cases htarget
        | _ => rfl
    rw [← filterMap_eq_of_forall₂ hconstant, draftLabels_constants hdrafts,
      b.flatMap_layout, b.pooled_laidOut]

/-- **The slots of a block**, in tables that have at least the entries of those that it was
assembled with. -/
theorem slottedAs (h : b.assemble vars order s = .ok (chunk, t)) {constants : List Value}
    {globals frame : List VarId}
    (hconstants : ∀ {k : Nat} {v : Value}, t.constants[k]? = some v → constants[k]? = some v)
    (hglobals : ∀ {k : Nat} {id : VarId}, t.globals[k]? = some id → globals[k]? = some id)
    (hframe : ∀ {k : Nat} {id : VarId}, t.locals.bind (·[k]?) = some id → frame[k]? = some id)
    (hc : constants.length ≤ UInt32.size) (hg : globals.length ≤ UInt32.size)
    (hf : frame.length ≤ UInt32.size) : b.SlottedAs vars constants globals frame chunk := by
  obtain ⟨hlisted, hemitted, hindexes⟩ := assemble_emitted h
  refine ⟨hlisted, ?_, ?_⟩
  · have haccess : ∀ i ∈ b.instrs.filter Instr.isAccess, i.isAccess = true :=
      fun i hi => (List.mem_filter.1 hi).2
    exact ((List.forall₂_and_left _ _).2 ⟨haccess, hemitted⟩).imp fun i op ⟨hi, hop⟩ =>
      hop.accessedBy hi hglobals hframe hg hf
  · rw [hindexes, List.forall₂_map_right_iff]
    refine forall₂_range' fun j v hj => ?_
    have hentry : constants[s.constants.size + j]? = some v := by
      refine hconstants ?_
      rw [(assemble_after h).constants, pooled_laidOut,
        Array.getElem?_append_right (Nat.le_add_right _ _), Nat.add_sub_cancel_left,
        List.getElem?_toArray, hj]
    have hlt := (List.getElem?_eq_some_iff.1 hentry).1
    rwa [UInt32.toNat_ofNat_of_lt' (by omega)]

end Block

/-! ## Functions -/

theorem length_eraseDups (ids : List VarId) : ids.eraseDups.length = ids.toFinset.card := by
  rw [← List.toFinset_card_of_nodup (nodup_eraseDups ids)]
  congr 1
  ext id
  simp

/-- A byte instruction for a variable of a call has the slot of the variable. -/
theorem Instr.AccessedBy.frameSlot {vars : Array Variable} {globals frame : List VarId} {i : Instr}
    {op : Op}
    (h : i.AccessedBy vars globals frame op) {slot : UInt32} (hs : op.frameSlot? = some slot) :
    ∃ id, i.mention? = some id ∧ frame[slot.toNat]? = some id := by
  cases h with
  | loadFrameVar _ hk | storeFrameVar _ hk =>
    cases hs
    exact ⟨_, rfl, hk⟩
  | _ => cases hs

theorem Op.isAccess_of_frameSlot? {op : Op} {slot : UInt32} (h : op.frameSlot? = some slot) :
    op.isAccess = true := by
  cases op with
  | loadFrameVar | storeFrameVar => rfl
  | _ => cases h

namespace LabelFunction

variable {vars : Array Variable} {order : ByteOrder} {f : LabelFunction} {r : Routine}

/-- Distinct parameters have the first slots. -/
theorem frameVars_of_nodup (h : f.parameters.Nodup) : f.frameVars vars =
    f.parameters ++
      ((f.block.mentions.filter (keptInFrames vars)).filter (· ∉ f.parameters)).eraseDups := by
  rw [frameVars, List.eraseDups_append, eraseDups_of_nodup h, List.removeAll]
  simp

theorem slottedAs {s t u : Slots} (h : f.assemble vars order s = .ok (r, t)) (hu : t.Extends u)
    (hc : u.constants.size ≤ UInt32.size) (hg : u.globals.size ≤ UInt32.size)
    (hf : (f.frameVars vars).length ≤ UInt32.size) :
    f.SlottedAs vars u.constants.toList u.globals.toList r := by
  obtain ⟨hchunk, rfl, -, -, hlocals⟩ := assemble_eq_ok h
  have hblock : f.block.SlottedAs vars u.constants.toList u.globals.toList
      (f.frameVars vars) r.chunk :=
    Block.slottedAs hchunk (fun hk => by simpa using hu.constants hk)
      (fun hk => by simpa using hu.globals hk) (fun hk => by simpa using hk) hc hg hf
  refine ⟨hblock, frameVars_of_nodup, ?_, fun slot hslot => ?_,
    fun {i i' op op' slot slot'} hi hi' hs hs' => ?_⟩
  · rw [hlocals, frameVars, length_eraseDups]
  · obtain ⟨op, hop, hs⟩ := List.mem_filterMap.1 hslot
    have hmem : op ∈ r.chunk.listed.filter Op.isAccess :=
      List.mem_filter.2 ⟨hop, Op.isAccess_of_frameSlot? hs⟩
    obtain ⟨i, -, hi⟩ := exists_mem_of_forall₂ hblock.accesses.flip hmem
    obtain ⟨id, -, hk⟩ := Instr.AccessedBy.frameSlot hi hs
    rw [hlocals]
    exact (List.getElem?_eq_some_iff.1 hk).1
  · obtain ⟨id, hid, hk⟩ := (List.forall₂_zip hblock.accesses hi).frameSlot hs
    obtain ⟨id', hid', hk'⟩ := (List.forall₂_zip hblock.accesses hi').frameSlot hs'
    rw [hid, hid', ← hk, ← hk',
      List.getElem?_inj (List.getElem?_eq_some_iff.1 hk).1 (nodup_eraseDups _), UInt32.toNat_inj]

theorem assembleAll_constants {fs : List LabelFunction} {rs : List Routine} {s t : Slots}
    (h : assembleAll vars order fs s = .ok (rs, t)) :
    (rs.flatMap fun r => r.chunk.listed.filterMap Op.constant?) =
      (List.range' s.constants.size (fs.flatMap (·.block.pooled)).length).map UInt32.ofNat := by
  induction fs generalizing s rs with
  | nil =>
    cases h
    rfl
  | cons f fs ih =>
    simp only [assembleAll, except_bind_eq_ok] at h
    obtain ⟨⟨r, s₁⟩, h₁, ⟨rs', s₂⟩, h₂, h₃⟩ := h
    cases h₃
    obtain ⟨hchunk, hs₁, -⟩ := assemble_eq_ok h₁
    have hsize : s₁.constants.size = s.constants.size + f.block.pooled.length := by simp [hs₁]
    rw [List.flatMap_cons, List.flatMap_cons, (Block.assemble_emitted hchunk).2.2, ih h₂, hsize,
      ← List.map_append, List.range'_append_1, List.length_append]

end LabelFunction

/-! ## Programs -/

theorem length_le_of_nodup_of_lt {ids : List VarId} {n : Nat} (hd : ids.Nodup)
    (h : ∀ id ∈ ids, id < n) : ids.length ≤ n := by
  have hsub : ids ⊆ List.range n := fun id hid => List.mem_range.2 (h id hid)
  simpa using (hd.subperm hsub).length_le

theorem lt_size_of_any {vars : Array Variable} {id : VarId} {p : Variable → Bool}
    (h : vars[id]?.any p = true) : id < vars.size := by
  obtain ⟨v, hv, -⟩ := Option.any_eq_true .. |>.1 h
  exact (Array.getElem?_eq_some_iff.1 hv).1

namespace LabelCode

variable {code : LabelCode} {order : ByteOrder} {exe : Executable}

theorem keptGlobally_of_mem {id : VarId} (h : id ∈ code.globalVars) :
    keptGlobally code.vars id = true := by
  rw [globalVars, List.mem_eraseDups, List.mem_flatMap] at h
  obtain ⟨b, -, hid⟩ := h
  exact (List.mem_filter.1 hid).2

theorem Numbered.globals (h : code.Numbered) : code.globalVars.length ≤ UInt32.size :=
  have hlt : ∀ id ∈ code.globalVars, id < code.vars.size :=
    fun _ hid => lt_size_of_any (keptGlobally_of_mem hid)
  Nat.le_trans (length_le_of_nodup_of_lt (nodup_eraseDups _) hlt) h.vars

theorem Numbered.frameVars (h : code.Numbered) {f : LabelFunction}
    (hf : f ∈ code.functions.toList) : (f.frameVars code.vars).length ≤ UInt32.size := by
  refine length_le_of_nodup_of_lt (nodup_eraseDups _) fun id hid => ?_
  rw [LabelFunction.frameVars, List.mem_eraseDups, List.mem_append, List.mem_filter] at hid
  obtain hid | ⟨-, hid⟩ := hid
  · exact h.parameters f hf id hid
  · exact Nat.lt_of_lt_of_le (lt_size_of_any hid) h.vars

/-- **The chunks of a program push the entries of the pool one after the other.** -/
theorem assemble_constants (h : code.assemble order = .ok exe) :
    (exe.chunks.flatMap fun c => c.listed.filterMap Op.constant?) =
      (List.range exe.constants.size).map UInt32.ofNat := by
  obtain ⟨s, t, hmain, -, -, hroutines, -, -, hconstants, -⟩ := assemble_eq_ok h
  have hsize : s.constants.size = 0 + code.main.pooled.length := by
    simp [(Block.assemble_after hmain).constants, Block.pooled_laidOut]
  have htotal : exe.constants.size =
      code.main.pooled.length + (code.functions.toList.flatMap (·.block.pooled)).length := by
    rw [← Array.length_toList, hconstants, blocks, List.flatMap_cons,
      List.length_append, List.flatMap_map]
  rw [Executable.chunks, List.flatMap_cons, List.flatMap_map, (Block.assemble_emitted hmain).2.2,
    LabelFunction.assembleAll_constants hroutines, hsize, ← List.map_append,
    htotal, List.range_eq_range']
  exact congrArg (List.map UInt32.ofNat) List.range'_append_1

/-- **The slots of an assembled program.** -/
theorem slottedAs (h : code.assemble order = .ok exe) (hn : code.Numbered) :
    code.SlottedAs exe := by
  obtain ⟨s, t, hmain, hst, hlocals, hroutines, htglobals, hexe, hconstants, hglobals⟩ :=
    assemble_eq_ok h
  have hc : exe.constants.size ≤ UInt32.size := by
    rw [← Array.length_toList, hconstants]
    exact hn.constants
  have hlist : t.globals.toList = code.globalVars := by rw [htglobals]
  refine ⟨?_, ?_, ?_, hconstants, ?_⟩
  · rw [hglobals, List.forall₂_map_right_iff, List.forall₂_same]
    intro id hid
    obtain ⟨v, hv, -⟩ := Option.any_eq_true .. |>.1 (keptGlobally_of_mem hid)
    exact ⟨v, hv, by rw [hv]; rfl⟩
  · refine Block.slottedAs hmain (fun hk => ?_) (fun hk => ?_)
      (fun hk => ?_) hc hn.globals (Nat.zero_le _)
    · rw [hexe, Array.getElem?_toList]
      exact hst.constants hk
    · rw [← hlist, Array.getElem?_toList]
      exact hst.globals hk
    · rw [hlocals] at hk
      cases hk
  · have hframes : ∀ f ∈ code.functions.toList, (f.frameVars code.vars).length ≤ UInt32.size :=
      fun f => hn.frameVars
    have hall := (List.forall₂_and_left _ _).2 ⟨hframes,
      (LabelFunction.assembleAll_eq_ok hroutines).1⟩
    rw [hexe, ← hlist]
    rw [hexe] at hc
    have hg : t.globals.size ≤ UInt32.size := by
      rw [← Array.length_toList, hlist]
      exact hn.globals
    exact hall.imp fun f r ⟨hf, s₁, t₁, hr, hext⟩ => LabelFunction.slottedAs hr hext hc hg hf
  · rw [assemble_constants h, List.map_map]
    refine (List.map_congr_left fun k hk => ?_).trans (List.map_id _)
    exact UInt32.toNat_ofNat_of_lt' (Nat.lt_of_lt_of_le (List.mem_range.1 hk) hc)

end LabelCode

/-! ## Folding -/

theorem Instr.eq_string_of_constant? {i : Instr} {text : String} {heap heap' : Heap}
    (h : i.constant? heap = some (.string text, heap')) : i = .string text := by
  cases i with
  | makeArray n =>
    simp only [constant?] at h
    split at h <;> cases h
  | string => cases h; rfl
  | _ => cases h

theorem foldUnary?_pooled? {op : UnaryOperator} {c r : Instr} (h : foldUnary? op c = some r) :
    r.pooled? = none := by
  obtain ⟨_, _, _, -, hx, h⟩ := foldUnary?_eq_some h
  obtain ⟨b, rfl⟩ | ⟨n, rfl⟩ := Value.unary_cases hx
  · cases b <;> cases h <;> rfl
  · cases h
    rfl

/-- A folded operator needs an entry of the pool only if its left operand has one. -/
theorem foldBinary?_pooled? {op : BinaryOperator} {c d r : Instr}
    (h : foldBinary? op c d = some r) : r.pooled? = none ∨ ∃ v, c.pooled? = some v := by
  obtain ⟨_, _, _, _, _, hc, -, hx, h⟩ := foldBinary?_eq_some h
  obtain ⟨b, rfl⟩ | ⟨n, rfl⟩ | ⟨s, t, rfl, -, -⟩ := Value.binary_cases hx
  · cases b <;> cases h <;> exact .inl rfl
  · cases h
    exact .inl rfl
  · rw [Instr.eq_string_of_constant? hc]
    exact .inr ⟨_, rfl⟩

theorem Redex.pooled_le {used : List Instr} {i : Instr} {new : Option Instr}
    (h : Redex used i new) :
    (new.toList.filterMap Instr.pooled?).length ≤ (used.filterMap Instr.pooled?).length := by
  cases h with
  | pop | stay | jump => exact Nat.zero_le _
  | unary hr => simp [foldUnary?_pooled? hr]
  | @binary c d r op hr =>
    obtain hr | ⟨v, hv⟩ := foldBinary?_pooled? hr
    · simp [hr]
    · rw [List.filterMap_cons_some hv, List.length_cons]
      exact Nat.le_add_left_of_le (List.length_filterMap_le _ _)

theorem foldStep_pooled_le (kept : List Instr) (i : Instr) :
    ((foldStep kept i).filterMap Instr.pooled?).length ≤
      ((i :: kept).filterMap Instr.pooled?).length := by
  unfold foldStep
  cases hf : fold? kept i with
  | none => exact Nat.le_refl _
  | some kept' =>
    obtain ⟨used, rest, new, rfl, hredex, rfl⟩ := fold?_eq_some_iff.1 hf
    have hle := hredex.pooled_le
    have hmore : ((used.reverse ++ rest).filterMap Instr.pooled?).length ≤
        ((i :: (used.reverse ++ rest)).filterMap Instr.pooled?).length :=
      ((List.sublist_cons_self i _).filterMap _).length_le
    simp only [Option.getD_some, List.filterMap_append, List.filterMap_reverse, List.length_append,
      List.length_reverse] at hmore ⊢
    omega

/-- Folding makes no more entries of the pool. -/
theorem foldLabel_pooled_le (code : List Instr) :
    ((foldLabel code).filterMap Instr.pooled?).length ≤ (code.filterMap Instr.pooled?).length := by
  have hfold : ∀ kept : List Instr, ((code.foldl foldStep kept).filterMap Instr.pooled?).length ≤
      (kept.filterMap Instr.pooled?).length + (code.filterMap Instr.pooled?).length := by
    induction code with
    | nil => exact fun kept => Nat.le_refl _
    | cons i code ih =>
      intro kept
      have hstep := foldStep_pooled_le kept i
      have hrest := ih (foldStep kept i)
      rw [← List.singleton_append, List.filterMap_append, List.length_append] at hstep ⊢
      rw [List.foldl_append, List.foldl_cons, List.foldl_nil]
      omega
  have hall := hfold []
  rw [foldLabel, List.filterMap_reverse, List.length_reverse]
  simpa using hall

theorem Block.length_pooled_fold (b : Block) : b.fold.pooled.length ≤ b.pooled.length := by
  simp only [pooled, instrs, labels_fold, Array.toList_map, List.flatMap_map,
    List.filterMap_flatMap, List.length_flatMap]
  exact List.sum_le_sum fun l _ => foldLabel_pooled_le l.code.toList

theorem LabelCode.Numbered.fold {code : LabelCode} (h : code.Numbered) : code.fold.Numbered where
  vars := h.vars
  parameters f hf := by
    rw [functions_fold, Array.toList_map, List.mem_map] at hf
    obtain ⟨f, hf, rfl⟩ := hf
    exact h.parameters f hf
  constants := by
    refine Nat.le_trans ?_ h.constants
    simp only [blocks_fold, List.flatMap_map, List.length_flatMap]
    exact List.sum_le_sum fun b _ => b.length_pooled_fold

/-- **Tables without repetition leave no choice of slots.** -/
theorem Instr.AccessedBy.unique {vars : Array Variable} {globals frame : List VarId}
    (hg : globals.Nodup)
    (hf : frame.Nodup) {i : Instr} {op op' : Op} (h : i.AccessedBy vars globals frame op)
    (h' : i.AccessedBy vars globals frame op') : op = op' := by
  have hslot : ∀ {ids : List VarId} {id : VarId} {k k' : UInt32}, ids.Nodup →
      ids[k.toNat]? = some id → ids[k'.toNat]? = some id → k = k' := by
    intro ids id k k' hd hk hk'
    exact UInt32.toNat_inj.1
      ((List.getElem?_inj (List.getElem?_eq_some_iff.1 hk).1 hd).1 (hk.trans hk'.symm))
  have hstorage : ∀ {id : VarId}, keptGlobally vars id = true →
      keptInFrames vars id = true → False := by
    intro id hk hk'
    obtain ⟨v, hv, hs⟩ := Option.any_eq_true .. |>.1 hk
    simp [keptInFrames, hv, hs] at hk'
  cases h with
  | loadGlobal hk hs =>
    cases h' with
    | loadGlobal _ hs' => rw [hslot hg hs hs']
    | loadFrameVar hk' => exact (hstorage hk hk').elim
    | loadNative hv hn => simp [keptGlobally, hv, hn, Storage.isGlobal] at hk
  | storeGlobal hk hs =>
    cases h' with
    | storeGlobal _ hs' => rw [hslot hg hs hs']
    | storeFrameVar hk' => exact (hstorage hk hk').elim
  | loadFrameVar hk hs =>
    cases h' with
    | loadGlobal hk' => exact (hstorage hk' hk).elim
    | loadFrameVar _ hs' => rw [hslot hf hs hs']
    | loadNative hv hn => simp [keptInFrames, hv, hn] at hk
  | storeFrameVar hk hs =>
    cases h' with
    | storeGlobal hk' => exact (hstorage hk' hk).elim
    | storeFrameVar _ hs' => rw [hslot hf hs hs']
  | loadNative hv hn hs =>
    cases h' with
    | loadGlobal hk' => simp [keptGlobally, hv, hn, Storage.isGlobal] at hk'
    | loadFrameVar hk' => simp [keptInFrames, hv, hn] at hk'
    | loadNative hv' _ hs' =>
      cases hv.symm.trans hv'
      rw [UInt32.toNat_inj.1 (Option.some.inj (hs.symm.trans hs'))]

namespace LabelCode

/-- The slots of a program and of the folded program are the same. -/
theorem SlottedAs.sameSlots_fold {code : LabelCode} {exe exe' : Executable} (h : code.SlottedAs exe)
    (h' : code.fold.SlottedAs exe') : exe.SameSlots exe' := by
  obtain ⟨hglobals, hmain, hroutines, -, -⟩ := h
  obtain ⟨hglobals', hmain', hroutines', -, -⟩ := h'
  rw [globalVars_fold] at hglobals' hmain' hroutines'
  rw [functions_fold, Array.toList_map, List.forall₂_map_left_iff] at hroutines'
  have hg : code.globalVars.Nodup := nodup_eraseDups _
  refine ⟨?_, ?_, ?_⟩
  · refine Array.toList_inj.1 (eq_of_forall₂ (fun ⟨v, hv, hn⟩ ⟨v', hv', hn'⟩ =>
      ?_) hglobals' hglobals)
    cases hv.symm.trans hv'
    exact hn.symm.trans hn'
  · have haccesses := hmain'.accesses
    rw [show code.fold.main = code.main.fold from rfl, Block.accesses_fold] at haccesses
    exact eq_of_forall₂ (fun hi hi' => hi.unique hg List.nodup_nil hi') haccesses hmain.accesses
  · refine (forall₂_comp hroutines.flip hroutines').imp fun r r' ⟨f, hf, hf'⟩ => ⟨?_, ?_⟩
    · rw [hf'.locals, hf.locals, LabelFunction.folded, Block.mentions_fold]
      rfl
    · have haccesses := hf'.block.accesses
      rw [frameVars_fold, LabelFunction.folded, Block.accesses_fold] at haccesses
      exact eq_of_forall₂ (fun hi hi' => hi.unique hg (nodup_eraseDups _) hi')
        haccesses hf.block.accesses

/-- **Which slots variables get.** In an assembled program, globals have the places of their names,
the variables of a call the places after the parameters in the order of their first mention, and
constants places of their own. The folded program can be assembled as well, with the same slot in
every load and store. -/
theorem assemble_slots {code : LabelCode} {order : ByteOrder} {exe : Executable}
    (h : code.assemble order = .ok exe) (hn : code.Numbered) :
    code.SlottedAs exe ∧ ∃ exe', code.fold.assemble order = .ok exe' ∧ code.fold.SlottedAs exe' ∧
      code.fold.globalVars = code.globalVars ∧
      List.Forall₂ (fun f f' => LabelFunction.frameVars code.fold.vars f' =
        LabelFunction.frameVars code.vars f)
        code.functions.toList code.fold.functions.toList ∧ exe.SameSlots exe' := by
  obtain ⟨exe', h'⟩ : ∃ exe', code.fold.assemble order = .ok exe' :=
    assemble_ok_iff.2 (assemble_ok_iff.1 ⟨exe, h⟩).fold
  have hslots := slottedAs h hn
  have hslots' := slottedAs h' hn.fold
  refine ⟨hslots, exe', h', hslots', globalVars_fold code, ?_, hslots.sameSlots_fold hslots'⟩
  rw [functions_fold, Array.toList_map, List.forall₂_map_right_iff, List.forall₂_same]
  exact fun f _ => frameVars_fold code.vars f

/-- A program whose function names its variables before its second parameter, and a global that the
top level does not name. -/
def sharing : LabelCode where
  main := ⟨#[⟨0, #[.functionRef 0, .makeFunction, .store 2, .string "a", .string "b", .binary .add,
    .store 5, .load 0, .pop, .exit]⟩], 1⟩
  functions := #[⟨"f", [3, 6],
    ⟨#[⟨0, #[.string "c", .store 4, .load 1, .load 6, .binary .add, .store 4, .load 4, .ret]⟩], 1⟩⟩]
  vars := #[⟨"println", .native, -1, none⟩, ⟨"g", .globalMutable, 0, none⟩,
    ⟨"f", .globalConstant, 0, none⟩, ⟨"x", .functionMutable, 1, some 0⟩,
    ⟨"y", .closedMutable, 1, some 0⟩, ⟨"h", .globalMutable, 0, none⟩,
    ⟨"z", .functionMutable, 1, some 0⟩]

/-- Its executable. -/
def sharingAssembled : Executable where
  main := .ofOps .little [.loadConst 0, .makeFunction, .storeGlobal 0, .loadConst 1, .loadConst 2,
    .binary .add, .storeGlobal 1, .loadNative 1, .pop, .exit]
  routines := #[⟨"f", .ofOps .little [.loadConst 3, .storeFrameVar 2, .loadGlobal 2,
    .loadFrameVar 1, .binary .add, .storeFrameVar 2, .loadFrameVar 2, .ret], 2, 3⟩]
  constants := #[.function 0, .string "a", .string "b", .string "c"]
  globals := #["f", "h", "g"]

theorem assemble_slots_sharing :
    sharing.assemble .little = .ok sharingAssembled ∧ sharing.Numbered ∧
      sharing.SlottedAs sharingAssembled ∧
      ∃ exe', sharing.fold.assemble .little = .ok exe' ∧ exe'.globals = #["f", "h", "g"] := by
  have hasm : sharing.assemble .little = .ok sharingAssembled := by decide +kernel
  have hn : sharing.Numbered := ⟨by decide, by decide, by decide⟩
  obtain ⟨hslots, exe', h', -, -, -, hsame⟩ := assemble_slots hasm hn
  exact ⟨hasm, hn, hslots, exe', h', hsame.globals⟩

end LabelCode

end Stackscript
