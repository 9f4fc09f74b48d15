import Stackscript.Proofs.Assemblable
import Stackscript.Proofs.FoldPending

/-!
# Folded labels and their places

The folded program has the same labels, functions and variables. To a place in a label belongs a
place in the folded label: behind what folding is done with at that point. What lies between the two
are the pending constants.

* `Block.labelIds_fold`, `frameVars_fold`, `globalVars_fold`, `LabelCode.Assembles.fold`;
* `Label.pendingAt`, `Label.doneAt`, `Label.fold_cases`, `Label.foldLabel_eq`;
* `Block.pendingAt`, `Block.foldedPlace`.
-/

namespace Stackscript

/-! ## The folded program -/

/-- The label with its code folded. -/
def Label.folded (l : Label) : Label := ⟨l.id, (foldLabel l.code.toList).toArray⟩

/-- The function with its block folded. -/
def LabelFunction.folded (f : LabelFunction) : LabelFunction := { f with block := f.block.fold }

theorem Block.labels_fold {C : Type} (b : Block C) : b.fold.labels = b.labels.map Label.folded :=
  rfl

theorem Block.getElem?_fold (b : Block) (k : Nat) :
    b.fold.labels[k]? = b.labels[k]?.map Label.folded := by
  rw [Block.labels_fold, Array.getElem?_map]

theorem Block.labelIds_fold (b : Block) : b.fold.labelIds = b.labelIds := by
  simp [Block.labelIds, Block.labels_fold, Function.comp_def, Label.folded]

theorem Block.accesses_fold (b : Block) :
    b.fold.instrs.filter Instr.isAccess = b.instrs.filter Instr.isAccess := by
  simp only [Block.instrs, Block.labels_fold, Array.toList_map, List.flatMap_map,
    List.filter_flatMap, Label.folded, accesses_foldLabel]

theorem Block.mentions_fold (b : Block) : b.fold.mentions = b.mentions := by
  simp only [Block.mentions, Block.instrs, Block.labels_fold, Array.toList_map, List.flatMap_map,
    List.filterMap_flatMap, Label.folded, variables_foldLabel]

theorem LabelCode.functions_fold (code : LabelCode) :
    code.fold.functions = code.functions.map LabelFunction.folded := rfl

theorem LabelCode.getElem?_functions_fold (code : LabelCode) (i : Nat) :
    code.fold.functions[i]? = code.functions[i]?.map LabelFunction.folded := by
  rw [LabelCode.functions_fold, Array.getElem?_map]

theorem frameVars_fold (vars : Array Variable) (f : LabelFunction) :
    f.folded.frameVars vars = f.frameVars vars := by
  simp only [LabelFunction.frameVars, LabelFunction.folded, Block.mentions_fold]

theorem blocks_fold (code : LabelCode) : code.fold.blocks = code.blocks.map Block.fold := by
  simp [LabelCode.blocks, LabelCode.fold]

theorem globalVars_fold (code : LabelCode) : code.fold.globalVars = code.globalVars := by
  simp only [LabelCode.globalVars, blocks_fold, List.flatMap_map, Block.mentions_fold]
  rfl

theorem LabelCode.DistinctLabels.fold {code : LabelCode} (h : code.DistinctLabels) :
    code.fold.DistinctLabels := by
  intro b hb
  rw [blocks_fold, List.mem_map] at hb
  obtain ⟨b, hb, rfl⟩ := hb
  rw [Block.labelIds_fold]
  exact h b hb

/-- Folding leaves nothing in a block that could not be assembled. -/
theorem Block.assembles_fold {vars : Array Variable} {b : Block} {inCall : Bool}
    (h : ∀ i ∈ b.instrs, i.Assembles vars b.labelIds inCall) :
    ∀ i ∈ b.fold.instrs, i.Assembles vars b.fold.labelIds inCall := by
  intro i hi
  rw [Block.labelIds_fold]
  simp only [Block.instrs, Block.labels_fold, Array.toList_map,
    List.flatMap_map, List.mem_flatMap] at hi
  obtain ⟨l, hl, hi⟩ := hi
  have hmem : ∀ {j}, j ∈ l.code.toList → j ∈ b.instrs := fun hj => List.mem_flatMap.2 ⟨l, hl, hj⟩
  rcases mem_foldLabel hi with hi | hi | ⟨j, hj, target, ht, rfl⟩
  · exact h i (hmem hi)
  · cases i with
    | makeArray | pushTrue | pushFalse | pushNull | number | string | functionRef =>
      exact ⟨trivial, nofun⟩
    | _ => cases hi
  · refine ⟨trivial, fun l' e => ?_⟩
    cases e
    exact (h j (hmem hj)).target _ ht

theorem LabelCode.Assembles.fold {code : LabelCode} (h : code.Assembles) : code.fold.Assembles where
  main := Block.assembles_fold h.main
  functions f hf := by
    rw [LabelCode.functions_fold, Array.toList_map, List.mem_map] at hf
    obtain ⟨f, hf, rfl⟩ := hf
    exact Block.assembles_fold (h.functions f hf)

/-! ## Places in labels -/

namespace Label

/-- The instructions that folding keeps after the first `n` of a label, newest first. -/
def keptAt (l : Label) (n : Nat) : List Instr := (l.code.toList.take n).foldl foldStep []

/-- The constants pending after the first `n` instructions, newest first. -/
def pendingAt (l : Label) (n : Nat) : List Instr := (l.keptAt n).takeWhile Instr.isConstant

/-- What folding is done with after the first `n` instructions, newest first. -/
def doneAt (l : Label) (n : Nat) : List Instr := (l.keptAt n).dropWhile Instr.isConstant

theorem keptAt_eq (l : Label) (n : Nat) : l.keptAt n = l.pendingAt n ++ l.doneAt n :=
  List.takeWhile_append_dropWhile.symm

theorem isConstant_of_mem_pendingAt (l : Label) (n : Nat) :
    ∀ c ∈ l.pendingAt n, c.isConstant = true :=
  List.all_eq_true.1 List.all_takeWhile

theorem settled_doneAt (l : Label) (n : Nat) : Settled (l.doneAt n) := by
  intro i hi
  have := List.head?_dropWhile_not Instr.isConstant (l.keptAt n)
  rw [doneAt] at hi
  rw [hi] at this
  simpa using this

@[simp]
theorem pendingAt_zero (l : Label) : l.pendingAt 0 = [] := rfl

@[simp]
theorem doneAt_zero (l : Label) : l.doneAt 0 = [] := rfl

theorem keptAt_succ {l : Label} {n : Nat} {i : Instr} (h : l.code[n]? = some i) :
    l.keptAt (n + 1) = foldStep (l.keptAt n) i := by
  rw [← Array.getElem?_toList] at h
  simp [keptAt, List.take_add_one, h, List.foldl_append]

/-- **What an instruction of a label does to the pending constants.** -/
theorem fold_cases {l : Label} {n : Nat} {i : Instr} (h : l.code[n]? = some i) :
    ∃ add, FoldCase (l.pendingAt n) i (l.pendingAt (n + 1)) add ∧
      l.doneAt (n + 1) = add ++ l.doneAt n := by
  have hp := l.isConstant_of_mem_pendingAt n
  have hd := l.settled_doneAt n
  obtain ⟨p', add, hcase, hstep⟩ := foldStep_cases hd i
  have hkept : l.keptAt (n + 1) = p' ++ (add ++ l.doneAt n) := by
    rw [keptAt_succ h, keptAt_eq, hstep]
  have hp' := hcase.constants hp
  have hd' := hcase.settled hd
  have hpending : l.pendingAt (n + 1) = p' := by rw [pendingAt, hkept, takeWhile_isConstant hp' hd']
  exact ⟨add, hpending ▸ hcase, by rw [doneAt, hkept, dropWhile_isConstant hp' hd']⟩

theorem keptAt_of_size_le {l : Label} {n : Nat} (h : l.code.size ≤ n) :
    l.keptAt n = (foldLabel l.code.toList).reverse := by
  rw [keptAt, List.take_of_length_le (by simpa using h), foldLabel, List.reverse_reverse]

theorem doneAt_suffix_succ (l : Label) (n : Nat) : l.doneAt n <:+ l.doneAt (n + 1) := by
  cases h : l.code[n]? with
  | none =>
    have hn : l.code.size ≤ n := Array.getElem?_eq_none_iff.1 h
    have hsame : l.doneAt n = l.doneAt (n + 1) := by
      rw [doneAt, doneAt, keptAt_of_size_le hn, keptAt_of_size_le (Nat.le_succ_of_le hn)]
    exact hsame ▸ List.suffix_rfl
  | some i =>
    obtain ⟨add, -, hadd⟩ := fold_cases h
    rw [hadd]
    exact List.suffix_append _ _

theorem doneAt_suffix (l : Label) (n k : Nat) : l.doneAt n <:+ l.doneAt (n + k) := by
  induction k with
  | zero => exact List.suffix_rfl
  | succ k ih => exact ih.trans (l.doneAt_suffix_succ (n + k))

/-- **What folding is done with stands at the start of the folded label.** -/
theorem foldLabel_eq (l : Label) (n : Nat) :
    ∃ rest, foldLabel l.code.toList = (l.doneAt n).reverse ++ rest := by
  have hk : l.doneAt (n + l.code.size) <:+ l.keptAt (n + l.code.size) := List.dropWhile_suffix _
  obtain ⟨newer, h⟩ := (l.doneAt_suffix n l.code.size).trans hk
  rw [keptAt_of_size_le (by omega)] at h
  exact ⟨newer.reverse, by rw [← List.reverse_append, h, List.reverse_reverse]⟩

/-- Where an instruction settles the pending ones before it, they stand in the folded label with it
behind them. -/
theorem getElem?_foldLabel {l : Label} {n : Nat} {i : Instr} {q : List Instr}
    (h : l.doneAt (n + 1) = (i :: q) ++ l.doneAt n) :
    (∀ k, k < q.length → (foldLabel l.code.toList)[(l.doneAt n).length + k]? = q.reverse[k]?) ∧
      (foldLabel l.code.toList)[(l.doneAt n).length + q.length]? = some i := by
  obtain ⟨rest, hrest⟩ := l.foldLabel_eq (n + 1)
  rw [h] at hrest
  have hcode : foldLabel l.code.toList = (l.doneAt n).reverse ++ (q.reverse ++ (i :: rest)) := by
    simp [hrest]
  rw [hcode]
  refine ⟨fun k hk => ?_, ?_⟩
  · rw [List.getElem?_append_right (by simp), List.length_reverse, Nat.add_sub_cancel_left,
      List.getElem?_append_left (by simpa using hk)]
  · rw [List.getElem?_append_right (by simp), List.length_reverse, Nat.add_sub_cancel_left,
      List.getElem?_append_right (by simp)]
    simp

/-- At the end of a label everything is kept. -/
theorem foldLabel_eq_of_end {l : Label} {n : Nat} (h : l.code[n]? = none) :
    foldLabel l.code.toList = (l.doneAt n).reverse ++ (l.pendingAt n).reverse := by
  rw [← List.reverse_append, ← keptAt_eq, keptAt_of_size_le (Array.getElem?_eq_none_iff.1 h),
    List.reverse_reverse]

end Label

/-! ## Places in blocks -/

namespace Block

/-- The constants pending at a place, newest first. -/
def pendingAt (b : Block) (p : Place) : List Instr :=
  (b.labels[p.label]?.map (·.pendingAt p.index)).getD []

/-- The place in the folded block that belongs to a place. -/
def foldedPlace (b : Block) (p : Place) : Place :=
  ⟨p.label, ((b.labels[p.label]?.map (·.doneAt p.index)).getD []).length⟩

theorem pendingAt_of_label {b : Block} {p : Place} {l : Label} (h : b.labels[p.label]? = some l) :
    b.pendingAt p = l.pendingAt p.index := by rw [pendingAt, h]; rfl

theorem foldedPlace_of_label {b : Block} {p : Place} {l : Label} (h : b.labels[p.label]? = some l) :
    b.foldedPlace p = ⟨p.label, (l.doneAt p.index).length⟩ := by rw [foldedPlace, h]; rfl

@[simp]
theorem pendingAt_label (b : Block) (k : Nat) : b.pendingAt ⟨k, 0⟩ = [] := by
  rw [pendingAt]
  cases b.labels[k]? <;> rfl

@[simp]
theorem foldedPlace_label (b : Block) (k : Nat) : b.foldedPlace ⟨k, 0⟩ = ⟨k, 0⟩ := by
  rw [foldedPlace]
  cases b.labels[k]? <;> rfl

end Block

end Stackscript
