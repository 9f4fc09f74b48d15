import Stackscript.Proofs.ChunkLevels

/-!
# Operands in range

What a byte instruction names is there: its constant, its variable, its native; and the constants
that are functions are functions of the program. Constants are numbered in one pool for all chunks,
so an operand that names one may be too small for its number; it then names another one.

* `Block.RefersBelow`, with `Stmt.refersBelow_emit`, `Block.RefersBelow.fold`: which functions a
  block refers to;
* **`LabelCode.Lowers.known_constants`**;
* `Op.InRange`, `Executable.InRange`, **`LabelCode.AssembledTo.inRange`**.
-/

namespace Stackscript

/-! ## References to functions -/

/-- The instruction, if it refers to a function, refers to one of the first `count`. -/
def Instr.RefersBelow (count : Nat) : Instr → Prop
  | .functionRef index => index < count
  | _ => True

/-- A block refers only to the first `count` functions. -/
def Block.RefersBelow (count : Nat) (b : Block) : Prop := ∀ i ∈ b.instrs, i.RefersBelow count

namespace Block

variable {count : Nat}

@[simp]
theorem refersBelow_add (b : Block) (i : Instr) :
    (b.add i).RefersBelow count ↔ b.RefersBelow count ∧ i.RefersBelow count := by
  rw [RefersBelow, instrs_add, List.forall_mem_append, List.forall_mem_singleton]
  rfl

@[simp]
theorem refersBelow_bind (b : Block) (l : LabelId) : (b.bind l).RefersBelow count ↔
    b.RefersBelow count := by
  unfold RefersBelow
  rcases b.instrs_bind l with h | h
  · rw [h]
  · rw [h, List.forall_mem_append, List.forall_mem_singleton]
    exact and_iff_left trivial

@[simp]
theorem refersBelow_reserve (b : Block) : b.reserve.2.RefersBelow count ↔ b.RefersBelow count :=
  Iff.rfl

@[simp]
theorem refersBelow_fresh (b : Block) : b.fresh.2.RefersBelow count ↔ b.RefersBelow count :=
  refersBelow_bind _ _

end Block

mutual

/-- Expressions do not refer to functions but by their names. -/
theorem Expr.refersBelow_emit {count : Nat} (n : Names) :
    (e : Expr) → (b : Block) → ((e.emit n b).RefersBelow count ↔ b.RefersBelow count)
  | .number .., b | .string .., b | .boolean _ true, b | .boolean _ false, b | .null _, b
  | .ident .., b => by
    simp [Expr.emit, Instr.RefersBelow]
  | .array _ items, b => by simp [Expr.emit, Instr.RefersBelow, Expr.refersBelow_emitAll n items]
  | .binary _ _ left right, b => by
    simp [Expr.emit, Instr.RefersBelow, right.refersBelow_emit n, left.refersBelow_emit n]
  | .unary _ _ arg, b => by simp [Expr.emit, Instr.RefersBelow, arg.refersBelow_emit n]
  | .cond _ test yes no, b => by
    simp [Expr.emit, Instr.RefersBelow, no.refersBelow_emit n, yes.refersBelow_emit n,
      test.refersBelow_emit n]
  | .assign _ target value, b => by simp [Expr.emit, Instr.RefersBelow, value.refersBelow_emit n]
  | .assignAt _ _ object position value, b => by
    simp [Expr.emit, Instr.RefersBelow, value.refersBelow_emit n, position.refersBelow_emit n,
      object.refersBelow_emit n]
  | .index _ object position, b => by
    simp [Expr.emit, Instr.RefersBelow, position.refersBelow_emit n, object.refersBelow_emit n]
  | .call _ callee args, b => by
    simp [Expr.emit, Instr.RefersBelow, callee.refersBelow_emit n, Expr.refersBelow_emitAll n args]

theorem Expr.refersBelow_emitAll {count : Nat} (n : Names) :
    (es : List Expr) → (b : Block) → ((Expr.emitAll n es b).RefersBelow count ↔ b.RefersBelow count)
  | [], b => Iff.rfl
  | e :: es, b => by rw [Expr.emitAll, Expr.refersBelow_emitAll n es, e.refersBelow_emit n]

end

theorem Expr.refersBelow_emitOptional {count : Nat} (n : Names) (e : Option Expr) (b : Block) :
    (Expr.emitOptional n e b).RefersBelow count ↔ b.RefersBelow count := by
  cases e with
  | some e => exact e.refersBelow_emit n b
  | none => simp [Expr.emitOptional, Instr.RefersBelow]

mutual

/-- **A statement refers to the functions that it declares.** -/
theorem Stmt.refersBelow_emit {count : Nat} (n : Names) (loop : Option (LabelId × LabelId)) :
    (s : Stmt) → (b : Block) → (s.after n).nextFunction ≤ count → b.RefersBelow count →
      (s.emit n loop b).RefersBelow count
  | .var _ init, b, _, hb => by
    simpa [Stmt.emit, Instr.RefersBelow, Expr.refersBelow_emitOptional] using hb
  | .const _ init, b, _, hb => by
    simpa [Stmt.emit, Instr.RefersBelow, init.refersBelow_emit n] using hb
  | .function name params body, b, hle, hb => by
    have hlt : n.nextFunction < count := by
      rw [Stmt.nextFunction_after, Stmt.functions, List.length_cons] at hle
      omega
    simpa [Stmt.emit, Instr.RefersBelow, hlt] using hb
  | .expr e, b, _, hb => by simpa [Stmt.emit, Instr.RefersBelow, e.refersBelow_emit n] using hb
  | .block body, b, hle, hb => Stmt.refersBelow_emitAll n loop body b hle hb
  | .ifThen test yes, b, hle, hb => by
    rw [Stmt.emit, Block.refersBelow_bind]
    refine yes.refersBelow_emit n loop _ hle ?_
    simpa [Instr.RefersBelow, test.refersBelow_emit n] using hb
  | .ifElse test yes no, b, hle, hb => by
    have hle' : (yes.after n).nextFunction ≤ count := by
      rw [Stmt.after, Stmt.nextFunction_after (yes.after n)] at hle
      omega
    rw [Stmt.emit, Block.refersBelow_bind]
    refine no.refersBelow_emit (yes.after n) loop _ hle ?_
    rw [Block.refersBelow_bind, Block.refersBelow_add, Block.refersBelow_reserve]
    refine ⟨yes.refersBelow_emit n loop _ hle' ?_, trivial⟩
    simpa [Instr.RefersBelow, test.refersBelow_emit n] using hb
  | .while test body, b, hle, hb => by
    rw [Stmt.emit, Block.refersBelow_bind, Block.refersBelow_add]
    refine ⟨body.refersBelow_emit n _ _ hle ?_, trivial⟩
    simpa [Instr.RefersBelow, test.refersBelow_emit n] using hb
  | .return value _, b, _, hb => by
    simpa [Stmt.emit, Instr.RefersBelow, Expr.refersBelow_emitOptional] using hb
  | .break _, b, _, hb => by
    cases loop with
    | none => exact hb
    | some labels => simpa [Stmt.emit, Instr.RefersBelow] using hb
  | .continue _, b, _, hb => by
    cases loop with
    | none => exact hb
    | some labels => simpa [Stmt.emit, Instr.RefersBelow] using hb
  | .empty, b, _, hb => hb

theorem Stmt.refersBelow_emitAll {count : Nat} (n : Names) (loop : Option (LabelId × LabelId)) :
    (ss : List Stmt) → (b : Block) → (Stmt.afterAll n ss).nextFunction ≤ count →
      b.RefersBelow count → (Stmt.emitAll n loop ss b).RefersBelow count
  | [], b, _, hb => hb
  | s :: ss, b, hle, hb => by
    have hle' : (s.after n).nextFunction ≤ count := by
      rw [Stmt.afterAll, Stmt.nextFunction_afterAll] at hle
      omega
    exact Stmt.refersBelow_emitAll (s.after n) loop ss _ hle (s.refersBelow_emit n loop b hle' hb)

end

theorem Block.refersBelow_empty (count : Nat) : Block.empty.RefersBelow count := nofun

theorem FunctionDef.refersBelow_block {count : Nat} (f : FunctionDef)
    (h : (Stmt.afterAll f.inner f.body).nextFunction ≤ count) : f.block.RefersBelow count := by
  have hbody :=
    Stmt.refersBelow_emitAll f.inner none f.body .empty h (Block.refersBelow_empty count)
  unfold FunctionDef.block
  by_cases hr : f.body.getLast?.any Lower.isReturn = true
  · simpa only [if_pos hr] using hbody
  · simpa [if_neg hr, Instr.RefersBelow] using hbody

theorem Program.refersBelow_main {count : Nat} (p : Program)
    (h : (Stmt.afterAll .top p).nextFunction ≤ count) : p.main.RefersBelow count := by
  simpa [Program.main, Instr.RefersBelow] using
    Stmt.refersBelow_emitAll .top none p .empty h (Block.refersBelow_empty count)

/-! ## Folding -/

theorem Instr.refersBelow_of_ne {count : Nat} {i : Instr} (h : ∀ index, i ≠ .functionRef index) :
    i.RefersBelow count := by
  cases i with
  | functionRef index => exact absurd rfl (h index)
  | _ => trivial

/-- Folding makes no references. -/
theorem FoldStep.refersBelow {count : Nat} {kept kept' : List Instr} {i : Instr}
    (h : FoldStep kept i kept')
    (hkept : ∀ j ∈ kept, j.RefersBelow count) (hi : i.RefersBelow count) :
    ∀ j ∈ kept', j.RefersBelow count := by
  cases h with
  | kept => exact List.forall_mem_cons.2 ⟨hi, hkept⟩
  | pop _ _ => exact (List.forall_mem_cons.1 hkept).2
  | unary _ _ _ _ hr =>
    exact List.forall_mem_cons.2 ⟨Instr.refersBelow_of_ne hr, (List.forall_mem_cons.1 hkept).2⟩
  | binary _ _ _ _ _ hr =>
    exact List.forall_mem_cons.2 ⟨Instr.refersBelow_of_ne hr, fun j hj => hkept j (by simp [hj])⟩
  | stay _ _ _ _ => exact (List.forall_mem_cons.1 hkept).2
  | jump _ _ _ _ => exact List.forall_mem_cons.2 ⟨trivial, (List.forall_mem_cons.1 hkept).2⟩

theorem refersBelow_foldLabel {count : Nat} {code : List Instr}
    (h : ∀ i ∈ code, i.RefersBelow count) : ∀ i ∈ foldLabel code, i.RefersBelow count := by
  have hfold : ∀ (code kept : List Instr), (∀ i ∈ code, i.RefersBelow count) →
      (∀ i ∈ kept, i.RefersBelow count) → ∀ i ∈ code.foldl foldStep kept, i.RefersBelow count := by
    intro code
    induction code with
    | nil => exact fun kept _ hkept => hkept
    | cons i code ih =>
      intro kept hcode hkept
      obtain ⟨hi, hcode⟩ := List.forall_mem_cons.1 hcode
      exact ih _ hcode ((foldStep_spec kept i).refersBelow hkept hi)
  exact fun i hi => hfold code [] h nofun i (List.mem_reverse.1 hi)

theorem Block.RefersBelow.foldIf {count : Nat} {b : Block} (h : b.RefersBelow count)
    (folding : Bool) : (b.foldIf folding).RefersBelow count := by
  cases folding with
  | false => exact h
  | true =>
    intro i hi
    obtain ⟨l, hl, hi⟩ := List.mem_flatMap.1 hi
    rw [Block.foldIf, if_pos rfl, Block.labels_fold, Array.toList_map] at hl
    obtain ⟨l₀, hl₀, rfl⟩ := List.mem_map.1 hl
    refine refersBelow_foldLabel (fun j hj => h j ?_) i (by simpa [Label.folded] using hi)
    exact List.mem_flatMap.2 ⟨l₀, hl₀, hj⟩

/-! ## The pool -/

/-- **The constants that are functions are functions of the program.** -/
theorem LabelCode.Lowers.known_constants {code : LabelCode} {p : Program} {exe : Executable}
    {folding : Bool} (hl : code.Lowers p) (ha : (code.foldIf folding).AssembledTo exe) :
    ∀ v ∈ exe.constants.toList, v.Known exe.routines.size := by
  have hsize : exe.routines.size = code.functions.size := by
    rw [ha.size_routines, LabelCode.functions_foldIf, Array.size_map]
  have hblocks : ∀ b ∈ (code.foldIf folding).blocks, b.RefersBelow code.functions.size := by
    intro b hb
    rcases List.mem_cons.1 hb with rfl | hb
    · rw [LabelCode.main_foldIf, hl.main]
      exact (p.refersBelow_main (Nat.le_of_eq hl.size_functions.symm)).foldIf folding
    · obtain ⟨g, hg, rfl⟩ := List.mem_map.1 hb
      rw [LabelCode.functions_foldIf, Array.toList_map, hl.functions, List.map_map] at hg
      obtain ⟨f, hf, rfl⟩ := List.mem_map.1 hg
      exact (f.refersBelow_block (hl.ordered hf).2).foldIf folding
  intro v hv
  rw [ha.constants] at hv
  obtain ⟨b, hb, hv⟩ := List.mem_flatMap.1 hv
  obtain ⟨i, hi, hv⟩ := List.mem_filterMap.1 hv
  have hrefers := hblocks b hb i hi
  cases i with
  | functionRef index => cases hv; rw [hsize]; exact hrefers
  | string => cases hv; trivial
  | _ => cases hv

/-! ## Ranges -/

/-- What a byte instruction names is there; `locals` is the number of variables of the call it
stands in. -/
def Op.InRange (exe : Executable) (locals : Option Nat) : Op → Prop
  | .loadConst index => index.toNat < exe.constants.size
  | .loadGlobal slot | .storeGlobal slot => slot.toNat < exe.globals.size
  | .loadFrameVar slot | .storeFrameVar slot => ∃ count, locals = some count ∧ slot.toNat < count
  | .loadNative index => index.toNat < NativeEntry.table.size
  | _ => True

/-- A number that is cut to a word does not grow. -/
theorem toNat_ofNat_lt {k n : Nat} (h : k < n) : (UInt32.ofNat k).toNat < n := by
  rw [UInt32.toNat_ofNat']
  exact Nat.lt_of_le_of_lt (Nat.mod_le _ _) h

theorem lt_of_getElem?_eq_some {α : Type} {xs : Array α} {k : Nat} {a : α} (h : xs[k]? = some a) :
    k < xs.size :=
  (Array.getElem?_eq_some_iff.1 h).1

theorem Instr.AssembledAs.inRange {vars : Array Variable} {exe : Executable} {globals : Array VarId}
    {locals : Option (Array VarId)} {b : Block} {i : Instr} {op : Op}
    (hg : globals.size = exe.globals.size)
    (h : i.AssembledAs vars ⟨exe.constants, globals, locals⟩ b op) :
    op.InRange exe (locals.map (·.size)) := by
  cases h with
  | goto | popJumpIfZero | popJumpIfNonzero => trivial
  | plain h =>
    cases h with
    | plain h => cases i <;> cases h <;> trivial
    | string hk => exact toNat_ofNat_lt (lt_of_getElem?_eq_some hk)
    | functionRef hk => exact toNat_ofNat_lt (lt_of_getElem?_eq_some hk)
    | loadNative _ _ hk =>
      obtain ⟨entry, hentry, -⟩ := NativeEntry.slot?_spec hk
      exact toNat_ofNat_lt (lt_of_getElem?_eq_some hentry)
    | loadGlobal _ _ hk => exact toNat_ofNat_lt (Nat.lt_of_lt_of_eq (lt_of_getElem?_eq_some hk) hg)
    | storeGlobal _ _ hk => exact toNat_ofNat_lt (Nat.lt_of_lt_of_eq (lt_of_getElem?_eq_some hk) hg)
    | loadFrameVar _ _ _ hk =>
      obtain ⟨table, rfl, hk⟩ := Option.bind_eq_some_iff.1 hk
      exact ⟨table.size, rfl, toNat_ofNat_lt (lt_of_getElem?_eq_some hk)⟩
    | storeFrameVar _ _ _ hk =>
      obtain ⟨table, rfl, hk⟩ := Option.bind_eq_some_iff.1 hk
      exact ⟨table.size, rfl, toNat_ofNat_lt (lt_of_getElem?_eq_some hk)⟩

theorem Block.AssembledTo.inRange {vars : Array Variable} {exe : Executable} {globals : Array VarId}
    {locals : Option (Array VarId)} {b : Block} {chunk : Chunk}
    (hg : globals.size = exe.globals.size)
    (h : b.AssembledTo vars ⟨exe.constants, globals, locals⟩ chunk) {listed : List (Nat × Op)}
    (hlisted : chunk.instructions = .ok listed) {offset : Nat} {op : Op}
    (hop : (offset, op) ∈ listed) : op.InRange exe (locals.map (·.size)) := by
  obtain ⟨order, ops, rfl, hops⟩ := h
  cases hlisted.symm.trans (Chunk.instructions_eq_located order ops)
  obtain ⟨n, -, hop⟩ := Chunk.mem_located.1 hop
  obtain ⟨-, hnone⟩ | ⟨i, op', -, hop', hassembled⟩ := getElem?_of_forall₂ hops n
  · cases hop.symm.trans hnone
  · cases hop.symm.trans hop'
    exact hassembled.inRange hg

/-- The number of variables of the calls of a routine; the top level has none. -/
def Executable.localsOf (exe : Executable) : Option Nat → Option Nat
  | none => none
  | some index => exe.routines[index]?.map (·.locals)

/-- **What the byte instructions of an executable name is there.** -/
def Executable.InRange (exe : Executable) : Prop :=
  ∀ c chunk, exe.chunkOf c = some chunk → ∀ listed, chunk.instructions = .ok listed →
    ∀ offset op, (offset, op) ∈ listed → op.InRange exe (exe.localsOf c)

theorem LabelCode.AssembledTo.inRange {code : LabelCode} {exe : Executable}
    (h : code.AssembledTo exe) : exe.InRange := by
  have hg : code.globalVars.toArray.size = exe.globals.size := by
    rw [h.size_globals, List.size_toArray]
  intro c chunk hc listed hlisted offset op hop
  cases c with
  | none => cases hc; exact h.main.inRange hg hlisted hop
  | some index =>
    obtain ⟨-, hnone⟩ | ⟨f, r, -, hr, hfr⟩ := h.getElem?_routines index
    · rw [Executable.chunkOf, hnone] at hc
      cases hc
    · rw [Executable.chunkOf, hr] at hc
      cases hc
      have hrange := hfr.chunk.inRange hg hlisted hop
      rw [Option.map_some, List.size_toArray, ← hfr.locals] at hrange
      rwa [Executable.localsOf, hr]

end Stackscript
