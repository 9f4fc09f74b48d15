import Stackscript.Proofs.ControlFlow
import Stackscript.Proofs.KnownFunctions

/-!
# What the size of code says about a program

An operand on the stack has been put there by an instruction, and folding leaves out an instruction
only together with the operand. So a block has at least as many instructions, jumps apart, as an
array literal in it has items; and a short chunk has short array literals.

* `FoldStep`, **`foldStep_spec`**: what one step of folding does, on whatever has been kept;
* `codeWeight`, the number of instructions that are no unconditional jumps;
* `Block.Built.fold_weight`, **`Block.Finished.fits`**;
* `Block.AssembledTo.weight_le`.
-/

namespace Stackscript

/-! ## One step of folding -/

/-- What becomes of the instructions kept, newest first, when another one is folded into them. -/
inductive FoldStep : List Instr → Instr → List Instr → Prop where
  | kept (kept : List Instr) (i : Instr) : FoldStep kept i (i :: kept)
  | pop {c : Instr} (kept : List Instr) : c.isConstant = true → FoldStep (c :: kept) .pop kept
  | unary {c r : Instr} (kept : List Instr) (op : UnaryOperator) : c.isConstant = true →
      r.isConstant = true → (∀ index, r ≠ .functionRef index) →
      FoldStep (c :: kept) (.unary op) (r :: kept)
  | binary {c d r : Instr} (kept : List Instr) (op : BinaryOperator) : c.isConstant = true →
      d.isConstant = true → r.isConstant = true → (∀ index, r ≠ .functionRef index) →
      FoldStep (c :: d :: kept) (.binary op) (r :: kept)
  | stay {c : Instr} (kept : List Instr) (wanted : Bool) (target : LabelId) : c.isConstant = true →
      FoldStep (c :: kept) (.jumpIf wanted target) kept
  | jump {c : Instr} (kept : List Instr) (wanted : Bool) (target : LabelId) : c.isConstant = true →
      FoldStep (c :: kept) (.jumpIf wanted target) (.goto target :: kept)

theorem Instr.ofValue?_ne_functionRef {v : Value} {r : Instr} (h : Instr.ofValue? v = some r)
    (hv : ∀ index, v ≠ .function index) (index : Nat) : r ≠ .functionRef index := by
  rintro rfl
  cases v with
  | function i => exact hv i rfl
  | boolean b => cases b <;> cases h
  | _ => cases h

theorem foldUnary?_ne_functionRef {op : UnaryOperator} {i r : Instr} (h : foldUnary? op i = some r)
    (index : Nat) : r ≠ .functionRef index := by
  obtain ⟨_, _, _, -, hx, h⟩ := foldUnary?_eq_some h
  exact Instr.ofValue?_ne_functionRef h (Value.unary_ne_function hx) index

theorem foldBinary?_ne_functionRef {op : BinaryOperator} {i j r : Instr}
    (h : foldBinary? op i j = some r) (index : Nat) : r ≠ .functionRef index := by
  obtain ⟨_, _, _, _, _, -, -, hx, h⟩ := foldBinary?_eq_some h
  exact Instr.ofValue?_ne_functionRef h (Value.binary_ne_function hx) index

/-- **One step of folding** keeps the instruction or lets constants before it go. -/
theorem foldStep_spec (kept : List Instr) (i : Instr) : FoldStep kept i (foldStep kept i) := by
  unfold foldStep
  cases hfold : fold? kept i with
  | none => exact .kept kept i
  | some kept' =>
    obtain ⟨used, rest, new, rfl, hredex, rfl⟩ := fold?_eq_some_iff.1 hfold
    have hused := hredex.isConstant
    cases hredex with
    | pop hc => exact .pop rest hc
    | stay wanted target => exact .stay rest wanted target (hused _ (by simp))
    | jump wanted target => exact .jump rest wanted target (hused _ (by simp))
    | unary hr =>
      exact .unary rest _ (hused _ (by simp)) (foldUnary?_isConstant hr)
        (foldUnary?_ne_functionRef hr)
    | binary hr =>
      exact .binary rest _ (hused _ (by simp)) (hused _ (by simp)) (foldBinary?_isConstant hr)
        (foldBinary?_ne_functionRef hr)

/-! ## Instructions and operands -/

/-- One for every instruction but unconditional jumps. -/
def Instr.weight : Instr → Nat
  | .goto _ => 0
  | _ => 1

/-- The number of instructions that are no unconditional jumps. -/
def codeWeight (code : List Instr) : Nat := (code.map Instr.weight).sum

theorem codeWeight_cons (i : Instr) (code : List Instr) :
    codeWeight (i :: code) = i.weight + codeWeight code := rfl

theorem codeWeight_append (code more : List Instr) :
    codeWeight (code ++ more) = codeWeight code + codeWeight more := by
  rw [codeWeight, List.map_append, List.sum_append]
  rfl

theorem codeWeight_reverse (code : List Instr) : codeWeight code.reverse = codeWeight code := by
  rw [codeWeight, List.map_reverse, List.sum_reverse]
  rfl

namespace Instr

variable {i : Instr}

theorem takes_of_isConstant (h : i.isConstant = true) : i.takes = 0 := by
  cases i with
  | makeArray n =>
    by_cases hn : n = 0
    · subst hn; rfl
    · simp [isConstant, truth?, hn] at h
  | pushTrue | pushFalse | pushNull | number | string | functionRef => rfl
  | _ => cases h

theorem gives_of_isConstant (h : i.isConstant = true) : i.gives = 1 := by
  cases i with
  | makeArray | pushTrue | pushFalse | pushNull | number | string | functionRef => rfl
  | _ => cases h

theorem weight_of_isConstant (h : i.isConstant = true) : i.weight = 1 := by
  cases i with
  | goto => cases h
  | _ => rfl

theorem weight_le_byteSize (i : Instr) : i.weight ≤ i.byteSize := by
  cases i <;> simp [weight, byteSize]

/-- An instruction puts at most one operand on the stack, a jump none. -/
theorem gives_le_weight (i : Instr) : i.gives ≤ i.weight + i.takes := by
  cases i <;> simp [gives, weight]

end Instr

/-- **A step of folding lets no more instructions go than operands.** -/
theorem FoldStep.weight_le {kept kept' : List Instr} {i : Instr} (h : FoldStep kept i kept') :
    codeWeight kept + i.gives ≤ codeWeight kept' + i.takes := by
  have hjump : ∀ wanted target, (Instr.jumpIf wanted target).gives = 0 ∧
      (Instr.jumpIf wanted target).takes = 1 := by
    rintro (_ | _) target <;> exact ⟨rfl, rfl⟩
  cases h with
  | kept =>
    have := i.gives_le_weight
    rw [codeWeight_cons]
    omega
  | pop kept' hc =>
    rw [codeWeight_cons, Instr.weight_of_isConstant hc]; simp only [Instr.gives, Instr.takes]; omega
  | unary kept op hc hr _ =>
    rw [codeWeight_cons, codeWeight_cons, Instr.weight_of_isConstant hc,
      Instr.weight_of_isConstant hr]
    simp only [Instr.gives, Instr.takes]
    omega
  | binary kept op hc hd hr _ =>
    rw [codeWeight_cons, codeWeight_cons, codeWeight_cons, Instr.weight_of_isConstant hc,
      Instr.weight_of_isConstant hd, Instr.weight_of_isConstant hr]
    simp only [Instr.gives, Instr.takes]
    omega
  | stay kept' wanted target hc =>
    rw [codeWeight_cons, Instr.weight_of_isConstant hc, (hjump wanted target).1,
      (hjump wanted target).2]
    omega
  | jump kept wanted target hc =>
    rw [codeWeight_cons, codeWeight_cons, Instr.weight_of_isConstant hc, (hjump wanted target).1,
      (hjump wanted target).2]
    omega

theorem codeWeight_foldLabel_concat (code : List Instr) (i : Instr) :
    codeWeight (foldLabel code) + i.gives ≤ codeWeight (foldLabel (code ++ [i])) + i.takes := by
  rw [foldLabel, foldLabel, codeWeight_reverse, codeWeight_reverse, List.foldl_concat]
  exact (foldStep_spec _ i).weight_le

theorem codeWeight_foldLabel_goto (code : List Instr) (l : LabelId) :
    codeWeight (foldLabel (code ++ [.goto l])) = codeWeight (foldLabel code) := by
  rw [foldLabel_concat (.inr (.inr ⟨l, rfl⟩)), codeWeight_append]
  rfl

/-- Making an array is never folded. -/
theorem codeWeight_foldLabel_makeArray (code : List Instr) (count : UInt32) :
    codeWeight (foldLabel (code ++ [.makeArray count])) = codeWeight (foldLabel code) + 1 := by
  have hstep : ∀ kept, foldStep kept (.makeArray count) = .makeArray count :: kept := by
    rintro (_ | _) <;> rfl
  rw [foldLabel, List.foldl_concat, hstep, List.reverse_cons, codeWeight_append]
  rfl

/-! ## Blocks -/

namespace Block

variable {vars : Array Variable} {inCall : Bool} {b : Block} {reserved : List LabelId}
  {ds cs : List Nat} {k : Nat}

/-- The number of instructions, unconditional jumps apart, that folding leaves of a block. -/
def foldedWeight (b : Block) : Nat :=
  (b.labels.toList.map fun l => codeWeight (foldLabel l.code.toList)).sum

theorem foldedWeight_of_last {ls : List Label} {l : Label} (h : b.labels.toList = ls ++ [l]) :
    b.foldedWeight =
      (ls.map fun l => codeWeight (foldLabel l.code.toList)).sum +
        codeWeight (foldLabel l.code.toList) := by
  rw [foldedWeight, h]
  simp

theorem last_of_ne (h : b.labels ≠ #[]) : ∃ ls l, b.labels.toList = ls ++ [l] ∧
    b.labels.size - 1 = ls.length :=
  b.eq_empty_or_last.resolve_left h

theorem foldedWeight_add (h : b.labels ≠ #[]) (i : Instr) :
    b.foldedWeight + i.gives ≤ (b.add i).foldedWeight + i.takes := by
  obtain ⟨ls, l, hl, hsize⟩ := last_of_ne h
  rw [foldedWeight_of_last hl, foldedWeight_of_last (labels_add hl hsize i)]
  have := codeWeight_foldLabel_concat l.code.toList i
  simp only [Label.push, Array.toList_push]
  omega

theorem foldedWeight_makeArray (h : b.labels ≠ #[]) (count : UInt32) :
    (b.add (.makeArray count)).foldedWeight = b.foldedWeight + 1 := by
  obtain ⟨ls, l, hl, hsize⟩ := last_of_ne h
  rw [foldedWeight_of_last hl, foldedWeight_of_last (labels_add hl hsize _)]
  simp only [Label.push, Array.toList_push, codeWeight_foldLabel_makeArray]
  omega

theorem foldedWeight_bind (b : Block) (id : LabelId) :
    (b.bind id).foldedWeight = b.foldedWeight := by
  rcases b.eq_empty_or_last with h | ⟨ls, l, hl, hsize⟩
  · rw [foldedWeight, foldedWeight, bind, h]
    rfl
  · rw [foldedWeight_of_last hl, foldedWeight, labels_bind hl hsize]
    rcases l.close_cases id with hc | hc
    · simp [hc, foldLabel, codeWeight]
    · simp only [hc, Label.push, List.map_append, List.map_cons, List.map_nil, List.sum_append,
        List.sum_cons, List.sum_nil, Array.toList_push, codeWeight_foldLabel_goto]
      rfl

/-- **While a block is built it has an instruction for every operand**, and further ones for every
item of an array literal. -/
theorem Built.fold_weight (h : b.Built vars inCall reserved ds cs k) :
    k ≤ b.foldedWeight ∧ ∀ c ∈ cs, c + k ≤ b.foldedWeight := by
  induction h with
  | empty => exact ⟨Nat.zero_le _, nofun⟩
  | @add b _ _ _ i k k' _ hb hi _ ih =>
    have hw := foldedWeight_add hb i
    have hk : k + i.gives = k' + i.takes := hi.balance
    exact ⟨by omega, fun c hc => by have := ih.2 c hc; omega⟩
  | @array b _ _ _ k count _ hb ih =>
    rw [foldedWeight_makeArray hb]
    refine ⟨by omega, List.forall_mem_cons.2 ⟨by omega, fun c hc => ?_⟩⟩
    have := ih.2 c hc
    omega
  | reserve d _ ih => exact ih
  | bind _ _ hd _ ih =>
    rw [foldedWeight_bind]
    exact ⟨by omega, fun c hc => by have := ih.2 c hc; omega⟩
  | swap _ ih => exact ih

end Block

/-! ## Chunks -/

theorem codeWeight_le_codeSize (code : List Instr) : codeWeight code ≤ codeSize code := by
  induction code with
  | nil => exact Nat.le_refl 0
  | cons i code ih => exact Nat.add_le_add i.weight_le_byteSize ih

theorem codeWeight_flatMap {α : Type} (as : List α) (f : α → List Instr) :
    codeWeight (as.flatMap f) = (as.map fun a => codeWeight (f a)).sum := by
  induction as with
  | nil => rfl
  | cons a as ih => rw [List.flatMap_cons, codeWeight_append, ih, List.map_cons, List.sum_cons]

theorem Block.foldedWeight_eq (b : Block) : b.foldedWeight = codeWeight b.fold.instrs := by
  rw [Block.instrs, Block.labels_fold, Array.toList_map, List.flatMap_map, codeWeight_flatMap]
  rfl

/-- A step of folding adds no more than the instruction. -/
theorem FoldStep.le_weight {kept kept' : List Instr} {i : Instr} (h : FoldStep kept i kept') :
    codeWeight kept' ≤ codeWeight kept + i.weight := by
  cases h with
  | kept => rw [codeWeight_cons]; omega
  | pop kept' hc => rw [codeWeight_cons]; omega
  | unary kept op hc hr _ =>
    rw [codeWeight_cons, codeWeight_cons, Instr.weight_of_isConstant hc,
      Instr.weight_of_isConstant hr]
    omega
  | binary kept op hc hd hr _ =>
    rw [codeWeight_cons, codeWeight_cons, codeWeight_cons, Instr.weight_of_isConstant hc,
      Instr.weight_of_isConstant hr]
    omega
  | stay kept' wanted target hc => rw [codeWeight_cons]; omega
  | jump kept wanted target hc => rw [codeWeight_cons, codeWeight_cons, Instr.weight]; omega

theorem codeWeight_foldLabel_le (code : List Instr) :
    codeWeight (foldLabel code) ≤ codeWeight code := by
  have hfold : ∀ code kept, codeWeight (code.foldl foldStep kept) ≤
      codeWeight kept + codeWeight code := by
    intro code
    induction code with
    | nil => exact fun kept => Nat.le_refl _
    | cons i code ih =>
      intro kept
      have hstep := (foldStep_spec kept i).le_weight
      have hrest := ih (foldStep kept i)
      rw [List.foldl_cons, codeWeight_cons]
      omega
  rw [foldLabel, codeWeight_reverse]
  exact Nat.le_trans (hfold code []) (Nat.le_of_eq (Nat.zero_add _))

/-- Folding makes nothing longer. -/
theorem Block.foldedWeight_le (b : Block) : b.foldedWeight ≤ codeWeight b.instrs := by
  rw [Block.foldedWeight, Block.instrs, codeWeight_flatMap]
  generalize b.labels.toList = ls
  induction ls with
  | nil => exact Nat.le_refl _
  | cons l ls ih => exact Nat.add_le_add (codeWeight_foldLabel_le _) ih

/-- What is left out of a block are jumps. -/
theorem Block.codeWeight_laidOut (b : Block) : codeWeight b.laidOut = codeWeight b.instrs := by
  have hlayout : ∀ ls : List Label,
      codeWeight ((layout ls).flatMap (·.2)) = codeWeight (ls.flatMap (·.code.toList)) := by
    intro ls
    induction ls with
    | nil => rfl
    | cons l ls ih =>
      rw [layout, List.flatMap_cons, List.flatMap_cons, codeWeight_append, codeWeight_append, ih]
      obtain h | ⟨target, -, h⟩ := l.laidOut_cases (ls.head?.map (·.id))
      · rw [h]
      · rw [h, codeWeight_append]
        rfl
  rw [Block.laidOut, Block.segments, ← List.flatMap_def, hlayout]
  rfl

theorem Block.AssembledTo.weight_le {vars : Array Variable} {t : Slots} {b : Block} {chunk : Chunk}
    (h : b.AssembledTo vars t chunk) : codeWeight b.instrs ≤ chunk.size := by
  rw [← b.codeWeight_laidOut, h.size_eq]
  exact codeWeight_le_codeSize _

/-- **The items of the array literals of a short block can be counted**, whether it is folded or
not. -/
theorem Block.Finished.fits {vars : Array Variable} {b : Block} {inCall : Bool} {final : Instr}
    {fits : Prop}
    (h : b.Finished vars inCall final fits) (hb : b.foldedWeight < UInt32.size) : fits := by
  obtain ⟨ds, cs, hbuilt, hfits⟩ := h.built
  refine hfits fun c hc => ?_
  have := hbuilt.fold_weight.2 c hc
  omega

end Stackscript
