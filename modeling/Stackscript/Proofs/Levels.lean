import Stackscript.Proofs.CodeBounds

/-!
# Operands at every instruction of a block

Each label of a block that is built has a number of operands, and going through its code instruction
by instruction gives one at every instruction. Where a jump leads to a label, the numbers agree, so
the number at an instruction does not depend on the way there. Folding keeps the numbers of the
labels and of what it leaves.

* `CodeShifts`, `Label.Leveled`, `Label.Closed`;
* `Block.LeveledTo`, with **`Block.Built.leveledTo`**: the numbers while a block is built;
* `Block.Leveled`, **`Block.Finished.leveled`**, **`Block.Leveled.fold`**.
-/

namespace Stackscript

/-! ## Instructions one after the other -/

/-- Instructions that lead from one number of operands to another. -/
inductive CodeShifts (inCall : Bool) (T : LabelId → Nat → Prop) :
    List Instr → Nat → Nat → Prop where
  | nil (k : Nat) : CodeShifts inCall T [] k k
  | cons {i : Instr} {code : List Instr} {k k₁ k₂ : Nat} : i.Shifts inCall T k k₁ →
      CodeShifts inCall T code k₁ k₂ → CodeShifts inCall T (i :: code) k k₂

namespace CodeShifts

variable {inCall : Bool} {T T' : LabelId → Nat → Prop} {code more : List Instr}
  {i : Instr} {k k₁ k₂ : Nat}

theorem append (h : CodeShifts inCall T code k k₁) (h' : CodeShifts inCall T more k₁ k₂) :
    CodeShifts inCall T (code ++ more) k k₂ := by
  induction h with
  | nil => exact h'
  | cons hi _ ih => exact .cons hi (ih h')

theorem concat (h : CodeShifts inCall T code k k₁) (hi : i.Shifts inCall T k₁ k₂) :
    CodeShifts inCall T (code ++ [i]) k k₂ := h.append (.cons hi (.nil k₂))

theorem of_append (h : CodeShifts inCall T (code ++ more) k k₂) :
    ∃ k₁, CodeShifts inCall T code k k₁ ∧ CodeShifts inCall T more k₁ k₂ := by
  induction code generalizing k with
  | nil => exact ⟨k, .nil k, h⟩
  | cons i code ih =>
    cases h with
    | cons hi h =>
      obtain ⟨k₁, h₁, h₂⟩ := ih h
      exact ⟨k₁, .cons hi h₁, h₂⟩

theorem of_concat (h : CodeShifts inCall T (code ++ [i]) k k₂) :
    ∃ k₁, CodeShifts inCall T code k k₁ ∧ i.Shifts inCall T k₁ k₂ := by
  obtain ⟨k₁, h₁, h₂⟩ := h.of_append
  cases h₂ with
  | cons hi h₂ => cases h₂; exact ⟨k₁, h₁, hi⟩

theorem mono (h : CodeShifts inCall T code k k₂) (hT : ∀ l d, T l d → T' l d) :
    CodeShifts inCall T' code k k₂ := by
  induction h with
  | nil => exact .nil _
  | cons hi _ ih => exact .cons (hi.mono hT) ih

end CodeShifts

/-! ## Folding code -/

theorem Instr.shifts_of_isConstant {inCall : Bool} {T : LabelId → Nat → Prop} {c : Instr}
    (hc : c.isConstant = true) (k : Nat) : c.Shifts inCall T k (k + 1) := by
  have h : c.Shifts inCall T (k + c.takes) (k + c.gives) := .plain (isPlain_of_isConstant hc)
  rwa [takes_of_isConstant hc, gives_of_isConstant hc] at h

theorem Instr.Shifts.of_isConstant {inCall : Bool} {T : LabelId → Nat → Prop} {c : Instr}
    {k k' : Nat} (h : c.Shifts inCall T k k') (hc : c.isConstant = true) : k' = k + 1 := by
  have hbalance := h.balance
  rw [takes_of_isConstant hc, gives_of_isConstant hc] at hbalance
  omega

theorem Instr.Shifts.of_jumpIf {inCall : Bool} {T : LabelId → Nat → Prop} {wanted : Bool}
    {target : LabelId}
    {k k' : Nat} (h : (Instr.jumpIf wanted target).Shifts inCall T k k') :
    k = k' + 1 ∧ T target k' := by
  cases wanted with
  | false =>
    cases (show (Instr.popJumpIfZero target).Shifts inCall T k k' from h) with
    | plain hi => cases hi
    | jump hl ht => cases hl; exact ⟨rfl, ht⟩
  | true =>
    cases (show (Instr.popJumpIfNonzero target).Shifts inCall T k k' from h) with
    | plain hi => cases hi
    | jump hl ht => cases hl; exact ⟨rfl, ht⟩

/-- **A step of folding** leads to the number of operands that the instruction led to. -/
theorem FoldStep.codeShifts {inCall : Bool} {T : LabelId → Nat → Prop} {kept kept' : List Instr}
    {i : Instr}
    {d k k' : Nat} (h : FoldStep kept i kept') (hkept : CodeShifts inCall T kept.reverse d k)
    (hi : i.Shifts inCall T k k') : CodeShifts inCall T kept'.reverse d k' := by
  have hbalance := hi.balance
  cases h with
  | kept => rw [List.reverse_cons]; exact hkept.concat hi
  | pop kept' hc =>
    rw [List.reverse_cons] at hkept
    obtain ⟨k₁, hkept, hc'⟩ := hkept.of_concat
    have := hc'.of_isConstant hc
    simp only [Instr.takes, Instr.gives] at hbalance
    obtain rfl : k' = k₁ := by omega
    exact hkept
  | unary kept op hc hr _ =>
    rw [List.reverse_cons] at hkept ⊢
    obtain ⟨k₁, hkept, hc'⟩ := hkept.of_concat
    have := hc'.of_isConstant hc
    simp only [Instr.takes, Instr.gives] at hbalance
    obtain rfl : k' = k₁ + 1 := by omega
    exact hkept.concat (Instr.shifts_of_isConstant hr k₁)
  | binary kept op hc hd hr _ =>
    rw [List.reverse_cons, List.reverse_cons] at hkept
    obtain ⟨k₂, hkept, hc'⟩ := hkept.of_concat
    obtain ⟨k₁, hkept, hd'⟩ := hkept.of_concat
    have := hc'.of_isConstant hc
    have := hd'.of_isConstant hd
    simp only [Instr.takes, Instr.gives] at hbalance
    obtain rfl : k' = k₁ + 1 := by omega
    rw [List.reverse_cons]
    exact hkept.concat (Instr.shifts_of_isConstant hr k₁)
  | stay kept' wanted target hc =>
    rw [List.reverse_cons] at hkept
    obtain ⟨k₁, hkept, hc'⟩ := hkept.of_concat
    have := hc'.of_isConstant hc
    obtain ⟨hk, -⟩ := hi.of_jumpIf
    obtain rfl : k' = k₁ := by omega
    exact hkept
  | jump kept wanted target hc =>
    rw [List.reverse_cons] at hkept ⊢
    obtain ⟨k₁, hkept, hc'⟩ := hkept.of_concat
    have := hc'.of_isConstant hc
    obtain ⟨hk, htarget⟩ := hi.of_jumpIf
    obtain rfl : k' = k₁ := by omega
    exact hkept.concat (.jump rfl htarget)

theorem CodeShifts.foldLabel {inCall : Bool} {T : LabelId → Nat → Prop} {code : List Instr}
    {d k : Nat}
    (h : CodeShifts inCall T code d k) : CodeShifts inCall T (Stackscript.foldLabel code) d k := by
  have hfold : ∀ {code : List Instr} {k₁ : Nat} (kept : List Instr),
      CodeShifts inCall T kept.reverse d k₁ → CodeShifts inCall T code k₁ k →
      CodeShifts inCall T (code.foldl foldStep kept).reverse d k := by
    intro code
    induction code with
    | nil => intro k₁ kept hkept hcode; cases hcode; exact hkept
    | cons i code ih =>
      intro k₁ kept hkept hcode
      cases hcode with
      | cons hi hcode => exact ih _ ((foldStep_spec kept i).codeShifts hkept hi) hcode
  exact hfold [] (.nil d) h

/-! ## Labels -/

/-- The instruction does not go on behind itself. -/
def Instr.leaves : Instr → Bool
  | .ret | .exit | .goto _ => true
  | _ => false

/-- The code of a label leads from the number of operands of the label to another one. -/
def Label.Leveled (inCall : Bool) (T : LabelId → Nat → Prop) (l : Label) (k : Nat) : Prop :=
  ∃ d, T l.id d ∧ CodeShifts inCall T l.code.toList d k

/-- The label does not run into what stands behind it. -/
def Label.Closed (l : Label) : Prop := ∃ i, l.code.back? = some i ∧ i.leaves = true

namespace Label

variable {inCall : Bool} {T T' : LabelId → Nat → Prop} {l : Label} {k k' : Nat}

theorem Leveled.mono (h : l.Leveled inCall T k) (hT : ∀ l d, T l d → T' l d) :
    l.Leveled inCall T' k := by
  obtain ⟨d, hd, h⟩ := h
  exact ⟨d, hT _ _ hd, h.mono hT⟩

theorem Leveled.push (h : l.Leveled inCall T k) {i : Instr} (hi : i.Shifts inCall T k k') :
    (l.push i).Leveled inCall T k' := by
  obtain ⟨d, hd, h⟩ := h
  refine ⟨d, hd, ?_⟩
  rw [Label.push, Array.toList_push]
  exact h.concat hi

theorem closed_close (next : LabelId) (l : Label) : (l.close next).Closed := by
  unfold close
  split
  case h_1 target h => exact ⟨_, h, rfl⟩
  case h_2 => exact ⟨.goto next, by simp [Label.push], rfl⟩

theorem close_of_goto {target : LabelId} (h : l.code.back? = some (.goto target)) (next : LabelId) :
    l.close next = l := by
  rw [close, h]

theorem Leveled.close (h : l.Leveled inCall T k) {next : LabelId} (hnext : T next k) :
    (l.close next).Leveled inCall T k := by
  rcases l.close_cases next with hc | hc
  · rw [hc]
    exact h
  · rw [hc]
    exact h.push (.jump rfl hnext)

theorem Leveled.folded (h : l.Leveled inCall T k) : l.folded.Leveled inCall T k := by
  obtain ⟨d, hd, h⟩ := h
  exact ⟨d, hd, by simpa [Label.folded] using h.foldLabel⟩

theorem Closed.folded (h : l.Closed) : l.folded.Closed := by
  obtain ⟨i, hi, hleaves⟩ := h
  obtain ⟨code, hcode⟩ := Array.back?_eq_some_iff.1 hi
  have hkinds : i = .ret ∨ i = .exit ∨ ∃ l, i = .goto l := by
    cases i with
    | ret => exact .inl rfl
    | exit => exact .inr (.inl rfl)
    | goto l => exact .inr (.inr ⟨l, rfl⟩)
    | _ => cases hleaves
  refine ⟨i, ?_, hleaves⟩
  simp [Label.folded, hcode, foldLabel_concat hkinds]

end Label

/-! ## Blocks -/

/-- **The numbers of operands while a block is built.** The last label leads to the number at the
end of the block, and no other one runs into the next. -/
structure Block.LeveledTo (inCall : Bool) (ds : List Nat) (b : Block) (k : Nat) : Prop where
  empty : b.labels = #[] → k = 0
  first : ∀ l, b.labelIds.head? = some l → ds[l]? = some 0
  last : ∀ ls l, b.labels.toList = ls ++ [l] → l.Leveled inCall (ds[·]? = some ·) k
  others : ∀ ls l, b.labels.toList = ls ++ [l] →
    ∀ m ∈ ls, (∃ k', m.Leveled inCall (ds[·]? = some ·) k') ∧ m.Closed

/-- **Every label of a block has a number of operands, and its code agrees with it.** -/
structure Block.Leveled (inCall : Bool) (ds : List Nat) (b : Block) : Prop where
  first : ∃ l, b.labelIds.head? = some l ∧ ds[l]? = some 0
  labels : ∀ l ∈ b.labels.toList, (∃ k, l.Leveled inCall (ds[·]? = some ·) k) ∧ l.Closed

namespace Block

variable {vars : Array Variable} {inCall : Bool} {b : Block} {reserved : List LabelId}
  {ds cs : List Nat} {k k' d : Nat}

theorem LeveledTo.add (h : b.LeveledTo inCall ds k) (hb : b.labels ≠ #[]) {i : Instr}
    (hi : i.Shifts inCall (ds[·]? = some ·) k k') : (b.add i).LeveledTo inCall ds k' := by
  obtain ⟨ls, l, hl, hsize⟩ := last_of_ne hb
  have hadd := labels_add hl hsize i
  refine ⟨fun he => ?_,
    by rw [labelIds_add hb]; exact h.first, fun ls' l' hl' => ?_, fun ls' l' hl' => ?_⟩
  · rw [he] at hadd
    simp at hadd
  · obtain ⟨rfl, hlast⟩ := List.append_inj' (hadd.symm.trans hl') rfl
    cases hlast
    exact (h.last ls l hl).push hi
  · obtain ⟨rfl, -⟩ := List.append_inj' (hadd.symm.trans hl') rfl
    exact h.others ls l hl

theorem LeveledTo.reserve (h : b.LeveledTo inCall ds k) (d : Nat) :
    b.reserve.2.LeveledTo inCall (ds ++ [d]) k := by
  have hmono : ∀ l e, ds[l]? = some e → (ds ++ [d])[l]? = some e := fun l e hl => by
    rw [List.getElem?_append_left (List.getElem?_eq_some_iff.1 hl).1, hl]
  exact ⟨h.empty, fun l hl => hmono l 0 (h.first l hl), fun ls l hl => (h.last ls l hl).mono hmono,
    fun ls l hl m hm => ⟨(h.others ls l hl m hm).1.imp fun _ hk => hk.mono hmono,
    (h.others ls l hl m hm).2⟩⟩

/-- A label is started where the end of the block has as many operands as it, or is not reached. -/
theorem LeveledTo.bind (h : b.LeveledTo inCall ds k) {l : LabelId} (hl : ds[l]? = some d)
    (hle : d ≤ k)
    (hend : d = k ∨ ∃ b₀ l₀, b = Block.add b₀ (.goto l₀)) : (b.bind l).LeveledTo inCall ds d := by
  have hnew : Label.Leveled inCall (ds[·]? = some ·) ⟨l, #[]⟩ d := ⟨d, hl, .nil d⟩
  have hne : (b.bind l).labels ≠ #[] := by simp [Block.bind]
  rcases b.eq_empty_or_last with hb | ⟨ls, last, hlast, hsize⟩
  · have hbind : (b.bind l).labels.toList = [] ++ [⟨l, #[]⟩] := by simp [Block.bind, hb]
    obtain rfl : d = 0 := by have := h.empty hb; omega
    refine ⟨fun he => absurd he hne, fun m hm => ?_, fun ls' l' hl' => ?_, fun ls' l' hl' => ?_⟩
    · rw [Block.labelIds, hbind] at hm
      cases hm
      exact hl
    · obtain ⟨-, hlast⟩ := List.append_inj' (hbind.symm.trans hl') rfl
      cases hlast
      exact hnew
    · obtain ⟨rfl, -⟩ := List.append_inj' (hbind.symm.trans hl') rfl
      exact List.forall_mem_nil _
  · have hbind : (b.bind l).labels.toList = (ls ++ [last.close l]) ++ [⟨l, #[]⟩] := by
      rw [labels_bind hlast hsize l, List.append_assoc]
      rfl
    -- the last label led to the number of operands of the new one, or ended in a jump already
    have hclose : ∃ k', (last.close l).Leveled inCall (ds[·]? = some ·) k' := by
      rcases hend with rfl | ⟨b₀, l₀, rfl⟩
      · exact ⟨d, (h.last ls last hlast).close hl⟩
      · have hfinal := final?_add b₀ (.goto l₀)
        rw [Block.final?, Array.back?_eq_getElem?, hsize, ← Array.getElem?_toList, hlast,
          List.getElem?_concat_length] at hfinal
        rw [last.close_of_goto hfinal]
        exact ⟨k, h.last ls last hlast⟩
    refine ⟨fun he => absurd he hne, fun m hm => ?_, fun ls' l' hl' => ?_, fun ls' l' hl' => ?_⟩
    · refine h.first m ?_
      rw [labelIds_bind, List.head?_append] at hm
      have hids : b.labelIds ≠ [] := by simp [Block.labelIds, hlast]
      rw [List.head?_eq_some_head hids, Option.some_or] at hm
      exact (List.head?_eq_some_head hids).trans hm
    · obtain ⟨-, hlast⟩ := List.append_inj' (hbind.symm.trans hl') rfl
      cases hlast
      exact hnew
    · obtain ⟨rfl, -⟩ := List.append_inj' (hbind.symm.trans hl') rfl
      exact List.forall_mem_append.2 ⟨h.others ls last hlast,
        List.forall_mem_singleton.2 ⟨hclose, last.closed_close l⟩⟩

/-- **Whatever is built has a number of operands everywhere**, if the items of its array literals
can be counted. -/
theorem Built.leveledTo (h : b.Built vars inCall reserved ds cs k)
    (hcs : ∀ c ∈ cs, c < UInt32.size) : b.LeveledTo inCall ds k := by
  induction h with
  | empty =>
    exact ⟨fun _ => rfl, nofun,
      fun ls l hl => by simp [Block.empty] at hl, fun ls l hl => by simp [Block.empty] at hl⟩
  | add _ hb hi _ ih => exact (ih hcs).add hb hi
  | array count _ hb ih =>
    obtain ⟨hcount, hcs⟩ := List.forall_mem_cons.1 hcs
    exact (ih hcs).add hb (Instr.shifts_makeArray hcount)
  | reserve d _ ih => exact (ih hcs).reserve d
  | bind _ hl hle hend ih => exact (ih hcs).bind hl hle hend
  | swap _ ih => exact ih hcs

/-- **Every instruction of a finished block has a number of operands**, if the block is short. -/
theorem Finished.leveled {final : Instr} {fits : Prop} (h : b.Finished vars inCall final fits)
    (hfinal : final.leaves = true) (hb : b.foldedWeight < UInt32.size) :
    ∃ ds, b.Leveled inCall ds := by
  obtain ⟨ds, cs, hbuilt, -⟩ := h.built
  have hto := hbuilt.leveledTo fun c hc => by
    have := hbuilt.fold_weight.2 c hc
    omega
  obtain ⟨last, hlast, hi⟩ := Option.bind_eq_some_iff.1 h.final
  obtain ⟨ls, hls⟩ := Array.back?_eq_some_iff.1 hlast
  have hlabels : b.labels.toList = ls.toList ++ [last] := by rw [hls, Array.toList_push]
  refine ⟨ds, ?_, ?_⟩
  · have hids : b.labelIds ≠ [] := by simp [Block.labelIds, hlabels]
    exact ⟨_, List.head?_eq_some_head hids, hto.first _ (List.head?_eq_some_head hids)⟩
  · rw [hlabels]
    exact List.forall_mem_append.2 ⟨hto.others _ _ hlabels,
      List.forall_mem_singleton.2 ⟨⟨0, hto.last _ _ hlabels⟩, final, hi, hfinal⟩⟩

/-- **Folding keeps the number of operands of every label.** -/
theorem Leveled.fold (h : b.Leveled inCall ds) : b.fold.Leveled inCall ds := by
  refine ⟨by rw [labelIds_fold]; exact h.first, ?_⟩
  rw [labels_fold, Array.toList_map]
  refine List.forall_mem_map.2 fun l hl => ?_
  obtain ⟨⟨k, hk⟩, hclosed⟩ := h.labels l hl
  exact ⟨⟨k, hk.folded⟩, hclosed.folded⟩

end Block

end Stackscript
