import Stackscript.Proofs.Construction
import Stackscript.Proofs.FoldPlaces
import Stackscript.Proofs.LoweringSpec
import Stackscript.Tree.Statement

/-!
# Control flow of lowered programs

A label that has been reserved is started exactly once, so every jump leads somewhere in its own
block, and a block is left only by the instruction that it ends in. Folding keeps the labels and
adds no jumps.

* `Block.Wired`, with **`Block.Built.wired`**: labels and jumps of a block while it is built;
* `Block.ControlSound`, **`LabelCode.Lowers.controlSound`**, **`LabelCode.Lowers.assembles`**;
* `Block.SameControl`, `Block.sameControl_fold`, **`ofProgram_controlSound`**.
-/

namespace Stackscript

/-! ## Labels while a block is built -/

/-- **The labels of a block and those that are reserved for it are all that have been named**, each
once, and every jump names one. -/
structure Block.Wired (b : Block) (reserved : List LabelId) : Prop where
  labels : (b.labelIds ++ reserved).Perm (List.range b.nextLabel)
  jumps : ∀ i ∈ b.instrs, ∀ l, i.jumpTarget? = some l → l < b.nextLabel

namespace Block

variable {vars : Array Variable} {inCall : Bool} {b : Block} {reserved : List LabelId}
  {ds cs : List Nat} {k : Nat} {l l' : LabelId}

theorem labelIds_add {C : Type} [LabelCounter C] {b : Block C} (h : b.labels ≠ #[]) (i : Instr) :
    (b.add i).labelIds = b.labelIds := by
  rw [add, if_neg (by simpa using h)]
  exact labelIds_modify _ _ _ fun _ => rfl

theorem Wired.add (h : b.Wired reserved) (hb : b.labels ≠ #[]) {i : Instr}
    (hi : ∀ l, i.jumpTarget? = some l → l < b.nextLabel) : (b.add i).Wired reserved := by
  refine ⟨by rw [labelIds_add hb, nextLabel_add hb]; exact h.labels, ?_⟩
  rw [instrs_add, nextLabel_add hb]
  exact List.forall_mem_append.2 ⟨h.jumps, List.forall_mem_singleton.2 hi⟩

theorem Wired.reserve (h : b.Wired reserved) : b.reserve.2.Wired (b.nextLabel :: reserved) where
  labels := by
    show (b.labelIds ++ b.nextLabel :: reserved).Perm (List.range (b.nextLabel + 1))
    rw [List.range_succ]
    exact List.perm_middle.trans ((h.labels.cons _).trans (List.perm_append_singleton _ _).symm)
  jumps i hi l hl := Nat.lt_succ_of_lt (h.jumps i hi l hl)

theorem Wired.bind (h : b.Wired (l :: reserved)) : (b.bind l).Wired reserved := by
  have hids : (b.bind l).labelIds ++ reserved = b.labelIds ++ l :: reserved := by
    rw [labelIds_bind, List.append_assoc]
    rfl
  have hl : l < b.nextLabel := List.mem_range.1 (h.labels.mem_iff.1 (by simp))
  refine ⟨hids ▸ h.labels, ?_⟩
  rcases b.instrs_bind l with hi | hi
  · rw [hi]
    exact h.jumps
  · rw [hi]
    refine List.forall_mem_append.2 ⟨h.jumps, List.forall_mem_singleton.2 fun l' e => ?_⟩
    cases e
    exact hl

/-- **Whatever is built is wired.** -/
theorem Built.wired (h : b.Built vars inCall reserved ds cs k) : b.Wired reserved := by
  induction h with
  | empty => exact ⟨.nil, nofun⟩
  | add hbuilt hb hi _ ih =>
    refine ih.add hb fun l hl => ?_
    -- the number of operands at the target is known, so the label has been reserved
    obtain ⟨d, hd⟩ := hi.target hl
    rw [← hbuilt.length_eq]
    exact (List.getElem?_eq_some_iff.1 hd).1
  | array count _ hb ih => exact ih.add hb nofun
  | reserve d _ ih => exact ih.reserve
  | bind _ _ _ _ ih => exact ih.bind
  | swap _ ih => exact ⟨((List.Perm.swap ..).append_left _).trans ih.labels, ih.jumps⟩

/-- Whatever is built names variables of the program. -/
theorem Built.knowsVariables (h : b.Built vars inCall reserved ds cs k) :
    ∀ i ∈ b.instrs, i.KnowsVariable vars inCall := by
  induction h with
  | empty => exact nofun
  | add _ _ _ hv ih =>
    rw [instrs_add]
    exact List.forall_mem_append.2 ⟨ih, List.forall_mem_singleton.2 hv⟩
  | array count _ _ ih =>
    rw [instrs_add]
    exact List.forall_mem_append.2 ⟨ih, List.forall_mem_singleton.2 trivial⟩
  | reserve d _ ih => exact ih
  | @bind b _ _ _ l _ _ _ _ _ _ ih =>
    rcases b.instrs_bind l with hi | hi
    · rw [hi]
      exact ih
    · rw [hi]
      exact List.forall_mem_append.2 ⟨ih, List.forall_mem_singleton.2 trivial⟩
  | swap _ ih => exact ih

end Block

/-! ## Finished blocks -/

/-- **The control flow of a block is sound**: its labels are those that have been named, each once;
every jump leads to one of them; and the last label ends in a given instruction. -/
structure Block.ControlSound (b : Block) (final : Instr) : Prop where
  labels : b.labelIds.Perm (List.range b.nextLabel)
  jumps : ∀ i ∈ b.instrs, ∀ l, i.jumpTarget? = some l → l ∈ b.labelIds
  final : b.final? = some final

theorem Block.Finished.controlSound {vars : Array Variable} {inCall : Bool} {b : Block}
    {final : Instr}
    {fits : Prop} (h : b.Finished vars inCall final fits) : b.ControlSound final := by
  obtain ⟨ds, cs, hbuilt, -⟩ := h.built
  have hlabels := hbuilt.wired.labels
  rw [List.append_nil] at hlabels
  exact ⟨hlabels, fun i hi l hl =>
    hlabels.mem_iff.2 (List.mem_range.2 (hbuilt.wired.jumps i hi l hl)), h.final⟩

theorem Block.ControlSound.nodup {b : Block} {final : Instr} (h : b.ControlSound final) :
    b.labelIds.Nodup :=
  h.labels.nodup_iff.2 List.nodup_range

/-- The control flow of a program is sound: the top level ends in an exit, every function in a
return. -/
structure LabelCode.ControlSound (code : LabelCode) : Prop where
  main : code.main.ControlSound .exit
  functions : ∀ f ∈ code.functions.toList, f.block.ControlSound .ret

theorem LabelCode.Lowers.controlSound {code : LabelCode} {p : Program} (hl : code.Lowers p) :
    code.ControlSound := by
  refine ⟨hl.main ▸ (p.finished_main hl.top).controlSound, fun f hf => ?_⟩
  rw [hl.functions, List.mem_map] at hf
  obtain ⟨f, hf, rfl⟩ := hf
  exact (f.finished_block (hl.accepted f hf)).controlSound

/-- **A lowered program can be assembled.** -/
theorem LabelCode.Lowers.assembles {code : LabelCode} {p : Program} (hl : code.Lowers p) :
    code.Assembles := by
  have hblock : ∀ {b : Block} {inCall : Bool} {final : Instr} {fits : Prop},
      b.Finished code.vars inCall final fits →
      ∀ i ∈ b.instrs, i.Assembles code.vars b.labelIds inCall := by
    intro b inCall final fits h i hi
    obtain ⟨ds, cs, hbuilt, -⟩ := h.built
    exact ⟨hbuilt.knowsVariables i hi, h.controlSound.jumps i hi⟩
  refine ⟨hl.main ▸ hblock (p.finished_main hl.top), fun f hf => ?_⟩
  rw [hl.functions, List.mem_map] at hf
  obtain ⟨f, hf, rfl⟩ := hf
  exact hblock (f.finished_block (hl.accepted f hf))

theorem LabelCode.ControlSound.distinctLabels {code : LabelCode} (h : code.ControlSound) :
    code.DistinctLabels := by
  intro b hb
  rcases List.mem_cons.1 hb with rfl | hb
  · exact h.main.nodup
  · obtain ⟨f, hf, rfl⟩ := List.mem_map.1 hb
    exact (h.functions f hf).nodup

/-! ## Folding -/

/-- The labels that the jumps of a label name. -/
def Label.targets (l : Label) : List LabelId := l.code.toList.filterMap Instr.jumpTarget?

/-- Two blocks have the same labels in the same order and the same last instruction, and the jumps
in a label of the second lead where jumps in that label of the first lead. -/
structure Block.SameControl (b b' : Block) : Prop where
  labels : b'.labelIds = b.labelIds
  nextLabel : b'.nextLabel = b.nextLabel
  targets : List.Forall₂ (fun l l' => l'.targets ⊆ l.targets) b.labels.toList b'.labels.toList
  final : b'.final? = b.final?

theorem Label.targets_folded (l : Label) : l.folded.targets ⊆ l.targets := by
  intro t ht
  obtain ⟨i, hi, ht⟩ := List.mem_filterMap.1 ht
  rcases mem_foldLabel hi with hi | hi | ⟨j, hj, t', hj', rfl⟩
  · exact List.mem_filterMap.2 ⟨i, hi, ht⟩
  · rw [Instr.jumpTarget?_of_isPlain (Instr.isPlain_of_isConstant hi)] at ht
    cases ht
  · cases ht
    exact List.mem_filterMap.2 ⟨j, hj, hj'⟩

/-- What ends a block or leaves it for good is not folded. -/
theorem foldLabel_concat {i : Instr} (hi : i = .ret ∨ i = .exit ∨ ∃ l, i = .goto l)
    (code : List Instr) : foldLabel (code ++ [i]) = foldLabel code ++ [i] := by
  have hstep : ∀ kept, foldStep kept i = i :: kept := by
    rintro (_ | _) <;> rcases hi with rfl | rfl | ⟨l, rfl⟩ <;> rfl
  rw [foldLabel, List.foldl_concat, hstep, List.reverse_cons]
  rfl

theorem Block.final?_fold {b : Block} {final : Instr} (hfinal : final = .ret ∨ final = .exit)
    (h : b.final? = some final) : b.fold.final? = some final := by
  obtain ⟨l, hl, hi⟩ := Option.bind_eq_some_iff.1 h
  obtain ⟨code, hcode⟩ := Array.back?_eq_some_iff.1 hi
  have hlast : foldLabel l.code.toList = foldLabel code.toList ++ [final] := by
    rw [hcode, Array.toList_push, foldLabel_concat (hfinal.imp_right .inl)]
  rw [Block.final?, Block.labels_fold, Array.back?_map, hl]
  simp [Label.folded, hlast]

/-- **Folding keeps the control flow** of a block that ends as blocks of programs do. -/
theorem Block.sameControl_fold {b : Block} {final : Instr} (hfinal : final = .ret ∨ final = .exit)
    (h : b.final? = some final) : b.SameControl b.fold where
  labels := b.labelIds_fold
  nextLabel := rfl
  targets := by
    rw [Block.labels_fold, Array.toList_map, List.forall₂_map_right_iff]
    exact List.forall₂_same.2 fun l _ => l.targets_folded
  final := (Block.final?_fold hfinal h).trans h.symm

theorem Block.mem_targets_of_forall₂ {ls ls' : List Label}
    (h : List.Forall₂ (fun l l' => l'.targets ⊆ l.targets) ls ls') {t : LabelId} :
    t ∈ ls'.flatMap Label.targets → t ∈ ls.flatMap Label.targets := by
  induction h with
  | nil => exact id
  | cons h _ ih =>
    rw [List.flatMap_cons, List.flatMap_cons, List.mem_append, List.mem_append]
    exact Or.imp (@h t) ih

theorem Block.mem_targets {b : Block} {t : LabelId} :
    t ∈ b.labels.toList.flatMap Label.targets ↔ ∃ i ∈ b.instrs, i.jumpTarget? = some t := by
  rw [Block.instrs, ← List.mem_filterMap, List.filterMap_flatMap]
  rfl

theorem Block.SameControl.controlSound {b b' : Block} {final : Instr} (h : b.SameControl b')
    (hb : b.ControlSound final) : b'.ControlSound final := by
  refine ⟨by rw [h.labels, h.nextLabel]; exact hb.labels, fun i hi l hl =>
    ?_, h.final.trans hb.final⟩
  obtain ⟨j, hj, hl'⟩ :=
    Block.mem_targets.1 (mem_targets_of_forall₂ h.targets (Block.mem_targets.2 ⟨i, hi, hl⟩))
  rw [h.labels]
  exact hb.jumps j hj l hl'

theorem LabelCode.ControlSound.sameControl {code : LabelCode} (h : code.ControlSound) :
    List.Forall₂ Block.SameControl code.blocks code.fold.blocks := by
  rw [blocks_fold, List.forall₂_map_right_iff]
  refine List.forall₂_same.2 fun b hb => ?_
  rcases List.mem_cons.1 hb with rfl | hb
  · exact Block.sameControl_fold (.inr rfl) h.main.final
  · obtain ⟨f, hf, rfl⟩ := List.mem_map.1 hb
    exact Block.sameControl_fold (.inl rfl) (h.functions f hf).final

theorem LabelCode.ControlSound.fold {code : LabelCode} (h : code.ControlSound) :
    code.fold.ControlSound where
  main := (Block.sameControl_fold (.inr rfl) h.main.final).controlSound h.main
  functions f hf := by
    rw [LabelCode.functions_fold, Array.toList_map, List.mem_map] at hf
    obtain ⟨f, hf, rfl⟩ := hf
    exact (Block.sameControl_fold (.inl rfl)
      (h.functions f hf).final).controlSound (h.functions f hf)

/-- **The control flow of every program that is lowered without errors is sound**, and folding keeps
it. -/
theorem ofProgram_controlSound {p : Program} {code : LabelCode}
    (h : LabelCode.ofProgram p = .ok code) :
    code.ControlSound ∧ code.fold.ControlSound ∧
      List.Forall₂ Block.SameControl code.blocks code.fold.blocks := by
  have hsound := (LabelCode.ofProgram_spec h).controlSound
  exact ⟨hsound, hsound.fold, hsound.sameControl⟩

/-- A function with a loop that is left by a jump, and a loop around calls of it. -/
def loopsSource : String :=
  "function f(a, b) \x7b while (a) \x7b if (b) break; a = a - 1; \x7d return a ? [a, b] : b; \x7d
   while (f(3, 4)) \x7b\x7d"

theorem ofProgram_controlSound_loops :
    ∃ p code, Program.parse loopsSource = .ok p ∧ LabelCode.ofProgram p = .ok code ∧
      code.blocks.map (·.labelIds) = [[0, 2, 3, 1, 4], [1, 2, 4, 3, 0, 7, 5, 6]] ∧
      code.ControlSound ∧ code.fold.ControlSound ∧
      List.Forall₂ Block.SameControl code.blocks code.fold.blocks := by
  have h : ((Program.parse loopsSource).toOption.bind fun p =>
      (LabelCode.ofProgram p).toOption.map fun code =>
      code.blocks.map (·.labelIds)) = some [[0, 2, 3, 1, 4], [1, 2, 4, 3, 0, 7, 5, 6]] := by
      decide +kernel
  obtain ⟨p, hp, h⟩ := Option.bind_eq_some_iff.1 h
  obtain ⟨code, hcode, hids⟩ := Option.map_eq_some_iff.1 h
  have hcode := toOption_eq_some.1 hcode
  exact ⟨p, code, toOption_eq_some.1 hp, hcode, hids, ofProgram_controlSound hcode⟩

end Stackscript
