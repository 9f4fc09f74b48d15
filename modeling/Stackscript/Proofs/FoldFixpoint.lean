import Mathlib.Data.List.Induction
import Stackscript.Proofs.FoldPlaces

/-!
# Folding once is enough

What a replacement leaves is older code, in which there was nothing left to fold, or one new
instruction behind it, a constant or a jump, and these are never folded into what stands before
them. So nothing that can be folded is left behind, and a folded program is not changed by folding
it again.

* `FullyFolded`: no instruction can be folded into those before it; `fullyFolded_iff_no_redex`;
* `Exhausted.foldStep`, `fullyFolded_foldLabel`, `foldLabel_eq_self_iff`;
* **`fold_reaches_fixpoint`**.
-/

namespace Stackscript

/-! ## Code in which nothing can be folded -/

/-- **No instruction can be folded into those before it.** -/
def FullyFolded (code : List Instr) : Prop :=
  ∀ before i after, code = before ++ i :: after → fold? before.reverse i = none

/-- In other words, no redex stands anywhere in the code. -/
theorem fullyFolded_iff_no_redex {code : List Instr} :
    FullyFolded code ↔ ∀ before used i after new, code = before ++ (used ++ i :: after) →
      ¬ Redex used i new := by
  constructor
  · intro h before used i after new hcode hredex
    have hnone := h (before ++ used) i after (by rw [hcode, List.append_assoc])
    rw [List.reverse_append, hredex.fold?_eq] at hnone
    cases hnone
  · intro h before i after hcode
    rw [Option.eq_none_iff_forall_ne_some]
    intro kept' hfold
    obtain ⟨used, rest, new, hsplit, hredex, -⟩ := fold?_eq_some_iff.1 hfold
    have hbefore : before = rest.reverse ++ used := by
      rw [← List.reverse_reverse before, hsplit, List.reverse_append, List.reverse_reverse]
    exact h rest.reverse used i after new (by rw [hcode, hbefore, List.append_assoc]) hredex

/-- The same of instructions that folding has kept, newest first. -/
inductive Exhausted : List Instr → Prop where
  | nil : Exhausted []
  | cons {i : Instr} {kept : List Instr} : fold? kept i = none →
      Exhausted kept → Exhausted (i :: kept)

theorem Exhausted.of_append {newer kept : List Instr} (h : Exhausted (newer ++ kept)) :
    Exhausted kept := by
  induction newer with
  | nil => exact h
  | cons i newer ih =>
    cases h with
    | cons _ h => exact ih h

theorem exhausted_reverse_iff {code : List Instr} : Exhausted code.reverse ↔ FullyFolded code := by
  constructor
  · rintro h before i after rfl
    rw [List.reverse_append, List.reverse_cons, List.append_assoc, List.singleton_append] at h
    cases h.of_append with
    | cons hi _ => exact hi
  · intro h
    induction code using List.reverseRecOn with
    | nil => exact .nil
    | append_singleton code i ih =>
      rw [List.reverse_concat]
      refine .cons (h code i [] rfl) (ih fun before j after hcode => h before j (after ++ [i]) ?_)
      rw [hcode, List.append_assoc, List.cons_append]

/-! ## Folding leaves nothing to fold -/

/-- What takes the place of a redex is not folded into what stands before it. -/
theorem Redex.fold?_new {used : List Instr} {i j : Instr} (h : Redex used i (some j))
    (rest : List Instr) : fold? rest j = none := by
  cases h with
  | jump => cases rest <;> rfl
  | unary hr => exact fold?_of_isConstant (foldUnary?_isConstant hr) rest
  | binary hr => exact fold?_of_isConstant (foldBinary?_isConstant hr) rest

/-- **One step of folding leaves nothing to fold.** -/
theorem Exhausted.foldStep {kept : List Instr} (h : Exhausted kept) (i : Instr) :
    Exhausted (foldStep kept i) := by
  unfold Stackscript.foldStep
  cases hfold : fold? kept i with
  | none => exact .cons hfold h
  | some kept' =>
    -- what is left of the code is older and so exhausted; only one instruction may be new
    obtain ⟨used, rest, new, rfl, hredex, rfl⟩ := fold?_eq_some_iff.1 hfold
    cases new with
    | none => exact h.of_append
    | some j => exact .cons (hredex.fold?_new rest) h.of_append

theorem Exhausted.foldl_foldStep {kept : List Instr} (h : Exhausted kept) (code : List Instr) :
    Exhausted (code.foldl Stackscript.foldStep kept) := by
  induction code generalizing kept with
  | nil => exact h
  | cons i code ih => exact ih (h.foldStep i)

theorem fullyFolded_foldLabel (code : List Instr) : FullyFolded (foldLabel code) := by
  rw [← exhausted_reverse_iff, foldLabel, List.reverse_reverse]
  exact Exhausted.nil.foldl_foldStep code

/-- Where nothing can be folded, folding only copies. -/
theorem foldl_foldStep_of_exhausted {code kept : List Instr}
    (h : Exhausted (code.reverse ++ kept)) : code.foldl foldStep kept = code.reverse ++ kept := by
  induction code generalizing kept with
  | nil => rfl
  | cons i code ih =>
    rw [List.reverse_cons, List.append_assoc, List.singleton_append] at h ⊢
    cases h.of_append with
    | cons hi _ => rw [List.foldl_cons, foldStep, hi, Option.getD_none, ih h]

theorem foldLabel_of_fullyFolded {code : List Instr} (h : FullyFolded code) :
    foldLabel code = code := by
  have hcopy : code.foldl foldStep [] = code.reverse ++ [] :=
    foldl_foldStep_of_exhausted (by rwa [List.append_nil, exhausted_reverse_iff])
  rw [foldLabel, hcopy, List.append_nil, List.reverse_reverse]

/-- What folding does not change is what it leaves. -/
theorem foldLabel_eq_self_iff {code : List Instr} : foldLabel code = code ↔ FullyFolded code :=
  ⟨fun h => h ▸ fullyFolded_foldLabel code, foldLabel_of_fullyFolded⟩

theorem foldLabel_foldLabel (code : List Instr) : foldLabel (foldLabel code) = foldLabel code :=
  foldLabel_of_fullyFolded (fullyFolded_foldLabel code)

theorem Block.fold_fold (b : Block) : b.fold.fold = b.fold := by
  simp only [Block.fold, Block.mapCode, Array.map_map, Function.comp_def, foldLabel_foldLabel]

/-- **A single pass reaches the fixed point of folding.** In a folded label no instruction can be
folded into those before it; the labels of which that holds, those without a redex, are just those
that folding leaves as they are; and so folding a program twice is folding it once. -/
theorem fold_reaches_fixpoint :
    (∀ code : List Instr, foldLabel (foldLabel code) = foldLabel code ∧
        FullyFolded (foldLabel code) ∧ (foldLabel code = code ↔ FullyFolded code) ∧
        (FullyFolded code ↔
          ∀ before used i after new, code = before ++ (used ++ i :: after) → ¬ Redex used i new)) ∧
      ∀ code : LabelCode, code.fold.fold = code.fold := by
  refine ⟨fun code => ⟨foldLabel_foldLabel code, fullyFolded_foldLabel code, foldLabel_eq_self_iff,
    fullyFolded_iff_no_redex⟩, fun code => ?_⟩
  simp only [LabelCode.fold, Block.fold_fold, Array.map_map, Function.comp_def]

end Stackscript
