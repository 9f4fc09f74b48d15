import Stackscript.Proofs.BlockGrowth

/-!
# The variables that emitted code names

What is emitted goes to the end of a block, so the code of a tree names variables in the order in
which the tree does.

* `Block.instrs_add`, `Block.instrs_bind`;
* `Expr.mentions`, `Stmt.mentions`;
* `Stmt.mentions_emit`, **`FunctionDef.mentions_block`**, **`Program.mentions_main`**.
-/

namespace Stackscript

/-! ## The instructions of blocks that grow -/

namespace Block

/-- The labels of a block but the last, and the last one. -/
theorem eq_empty_or_last (b : Block) :
    b.labels = #[] ∨ ∃ ls l, b.labels.toList = ls ++ [l] ∧ b.labels.size - 1 = ls.length := by
  rcases List.eq_nil_or_concat b.labels.toList with h | ⟨ls, l, h⟩
  · exact .inl (Array.toList_eq_nil_iff.1 h)
  · rw [List.concat_eq_append] at h
    refine .inr ⟨ls, l, h, ?_⟩
    rw [← Array.length_toList, h]
    simp

theorem labels_add_empty {C : Type} [LabelCounter C] {b : Block C} (h : b.labels = #[])
    (i : Instr) :
    (b.add i).labels.toList = [Label.push ⟨LabelCounter.name b.nextLabel, #[]⟩ i] := by
  simp [add, fresh, bind, reserve, h]

theorem labels_add {C : Type} [LabelCounter C] {b : Block C} {ls : List Label} {l : Label}
    (h : b.labels.toList = ls ++ [l]) (hsize : b.labels.size - 1 = ls.length) (i : Instr) :
    (b.add i).labels.toList = ls ++ [l.push i] := by
  have he : b.labels.isEmpty = false := by
    cases hb : b.labels.isEmpty with
    | false => rfl
    | true => rw [Array.isEmpty_iff.1 hb] at h; simp at h
  rw [add, he]
  simp only [Bool.false_eq_true, if_false, Array.toList_modify, h, hsize, modify_length_append]

theorem labels_bind {C : Type} {b : Block C} {ls : List Label} {l : Label}
    (h : b.labels.toList = ls ++ [l]) (hsize : b.labels.size - 1 = ls.length) (id : LabelId) :
    (b.bind id).labels.toList = ls ++ [l.close id, ⟨id, #[]⟩] := by
  rw [bind, Array.toList_push, Array.toList_modify, h, hsize,
    modify_length_append, List.append_assoc]
  rfl

theorem instrs_add (b : Block) (i : Instr) : (b.add i).instrs = b.instrs ++ [i] := by
  rcases b.eq_empty_or_last with h | ⟨ls, l, h, hsize⟩
  · simp [instrs, labels_add_empty h, h, Label.push]
  · simp [instrs, labels_add h hsize, h, Label.push]

theorem instrs_bind (b : Block) (id : LabelId) :
    (b.bind id).instrs = b.instrs ∨ (b.bind id).instrs = b.instrs ++ [.goto id] := by
  rcases b.eq_empty_or_last with h | ⟨ls, l, h, hsize⟩
  · left
    simp [instrs, bind, h]
  · rcases l.close_cases id with hc | hc
    · left
      simp [instrs, labels_bind h hsize, h, hc]
    · right
      simp [instrs, labels_bind h hsize, h, hc, Label.push]

theorem mentions_add (b : Block) (i : Instr) :
    (b.add i).mentions = b.mentions ++ i.mention?.toList := by
  rw [mentions, instrs_add, List.filterMap_append]
  cases h : i.mention? <;> simp [mentions, h]

theorem mentions_bind (b : Block) (id : LabelId) : (b.bind id).mentions = b.mentions := by
  rw [mentions, mentions]
  rcases b.instrs_bind id with h | h
  · rw [h]
  · rw [h, List.filterMap_append]
    exact List.append_nil _

theorem mentions_reserve (b : Block) : b.reserve.2.mentions = b.mentions := rfl

theorem mentions_fresh (b : Block) : b.fresh.2.mentions = b.mentions := mentions_bind _ _

end Block

/-! ## The variables that trees name -/

mutual

/-- The variables that an expression names, in the order in which they are emitted. -/
def Expr.mentions (n : Names) : Expr → List VarId
  | .number .. | .string .. | .boolean .. | .null _ => []
  | .array _ items => Expr.mentionsAll n items
  | .ident _ name => [n.idOf name]
  | .binary _ _ left right => left.mentions n ++ right.mentions n
  | .unary _ _ arg => arg.mentions n
  | .cond _ test yes no => test.mentions n ++ (yes.mentions n ++ no.mentions n)
  | .assign _ target value => value.mentions n ++ [n.idOf target.val, n.idOf target.val]
  | .assignAt _ _ object position value =>
    object.mentions n ++ (position.mentions n ++ value.mentions n)
  | .index _ object position => object.mentions n ++ position.mentions n
  | .call _ callee args => Expr.mentionsAll n args ++ callee.mentions n

/-- The variables that expressions name. -/
def Expr.mentionsAll (n : Names) : List Expr → List VarId
  | [] => []
  | e :: es => e.mentions n ++ Expr.mentionsAll n es

end

/-- The variables that an expression names, if there is one. -/
def Expr.mentionsOptional (n : Names) : Option Expr → List VarId
  | some e => e.mentions n
  | none => []

mutual

/-- The variables that a statement names, those of inner functions left out. -/
def Stmt.mentions (n : Names) : Stmt → List VarId
  | .var _ init => Expr.mentionsOptional n init ++ [n.nextVar]
  | .const _ init => init.mentions n ++ [n.nextVar]
  | .function .. => [n.nextVar]
  | .expr e => e.mentions n
  | .block body => Stmt.mentionsAll n body
  | .ifThen test yes => test.mentions n ++ yes.mentions n
  | .ifElse test yes no => test.mentions n ++ (yes.mentions n ++ no.mentions (yes.after n))
  | .while test body => test.mentions n ++ body.mentions n
  | .return value _ => Expr.mentionsOptional n value
  | .break _ | .continue _ | .empty => []

/-- The variables that statements name, those of inner functions left out. -/
def Stmt.mentionsAll (n : Names) : List Stmt → List VarId
  | [] => []
  | s :: ss => s.mentions n ++ Stmt.mentionsAll (s.after n) ss

end

mutual

theorem Expr.mentions_emit (n : Names) :
    (e : Expr) → (b : Block) → (e.emit n b).mentions = b.mentions ++ e.mentions n
  | .number .., b | .string .., b | .boolean _ true, b | .boolean _ false, b | .null _, b
  | .ident .., b =>
    b.mentions_add _
  | .array _ items, b => by
    rw [Expr.emit, Block.mentions_add, Expr.mentions_emitAll n items]
    exact List.append_nil _
  | .binary _ _ left right, b => by
    rw [Expr.emit, Block.mentions_add, right.mentions_emit n, left.mentions_emit n]
    simp [Expr.mentions, Instr.mention?]
  | .unary _ _ arg, b => by
    rw [Expr.emit, Block.mentions_add, arg.mentions_emit n]
    exact List.append_nil _
  | .cond _ test yes no, b => by
    rw [Expr.emit, Block.mentions_bind, no.mentions_emit n, Block.mentions_bind, Block.mentions_add,
      yes.mentions_emit n, Block.mentions_fresh, Block.mentions_add, Block.mentions_reserve,
      Block.mentions_reserve, test.mentions_emit n]
    simp [Expr.mentions, Instr.mention?]
  | .assign _ target value, b => by
    rw [Expr.emit, Block.mentions_add, Block.mentions_add, value.mentions_emit n]
    simp [Expr.mentions, Instr.mention?]
  | .assignAt _ _ object position value, b => by
    rw [Expr.emit, Block.mentions_add, value.mentions_emit n,
      position.mentions_emit n, object.mentions_emit n]
    simp [Expr.mentions, Instr.mention?]
  | .index _ object position, b => by
    rw [Expr.emit, Block.mentions_add, position.mentions_emit n, object.mentions_emit n]
    simp [Expr.mentions, Instr.mention?]
  | .call _ callee args, b => by
    rw [Expr.emit, Block.mentions_add, callee.mentions_emit n, Expr.mentions_emitAll n args]
    simp [Expr.mentions, Instr.mention?]

theorem Expr.mentions_emitAll (n : Names) :
    (es : List Expr) → (b : Block) →
      (Expr.emitAll n es b).mentions = b.mentions ++ Expr.mentionsAll n es
  | [], b => (List.append_nil _).symm
  | e :: es, b => by
    rw [Expr.emitAll, Expr.mentions_emitAll n es, e.mentions_emit n, List.append_assoc]
    rfl

end

theorem Expr.mentions_emitOptional (n : Names) (e : Option Expr) (b : Block) :
    (Expr.emitOptional n e b).mentions = b.mentions ++ Expr.mentionsOptional n e := by
  cases e with
  | some e => exact e.mentions_emit n b
  | none => exact b.mentions_add _

mutual

theorem Stmt.mentions_emit (n : Names) (loop : Option (LabelId × LabelId)) :
    (s : Stmt) → (b : Block) → (s.emit n loop b).mentions = b.mentions ++ s.mentions n
  | .var _ init, b => by
    rw [Stmt.emit, Block.mentions_add, Expr.mentions_emitOptional, List.append_assoc]
    rfl
  | .const _ init, b => by
    rw [Stmt.emit, Block.mentions_add, init.mentions_emit n, List.append_assoc]
    rfl
  | .function .., b => by
    rw [Stmt.emit, Block.mentions_add, Block.mentions_add, Block.mentions_add]
    simp [Stmt.mentions, Instr.mention?]
  | .expr e, b => by
    rw [Stmt.emit, Block.mentions_add, e.mentions_emit n]
    exact List.append_nil _
  | .block body, b => Stmt.mentions_emitAll n loop body b
  | .ifThen test yes, b => by
    rw [Stmt.emit, Block.mentions_bind, yes.mentions_emit n, Block.mentions_fresh,
      Block.mentions_add, Block.mentions_reserve, test.mentions_emit n]
    simp [Stmt.mentions, Instr.mention?]
  | .ifElse test yes no, b => by
    rw [Stmt.emit, Block.mentions_bind, no.mentions_emit, Block.mentions_bind, Block.mentions_add,
      Block.mentions_reserve, yes.mentions_emit n, Block.mentions_fresh, Block.mentions_add,
      Block.mentions_reserve, test.mentions_emit n]
    simp [Stmt.mentions, Instr.mention?]
  | .while test body, b => by
    rw [Stmt.emit, Block.mentions_bind, Block.mentions_add, body.mentions_emit n,
      Block.mentions_fresh, Block.mentions_add, test.mentions_emit n,
      Block.mentions_fresh, Block.mentions_reserve]
    simp [Stmt.mentions, Instr.mention?]
  | .return value _, b => by
    rw [Stmt.emit, Block.mentions_add, Expr.mentions_emitOptional]
    exact List.append_nil _
  | .break _, b => by
    cases loop with
    | none => exact (List.append_nil _).symm
    | some labels => exact b.mentions_add _
  | .continue _, b => by
    cases loop with
    | none => exact (List.append_nil _).symm
    | some labels => exact b.mentions_add _
  | .empty, b => (List.append_nil _).symm

theorem Stmt.mentions_emitAll (n : Names) (loop : Option (LabelId × LabelId)) :
    (ss : List Stmt) → (b : Block) → (Stmt.emitAll n loop ss b).mentions =
      b.mentions ++ Stmt.mentionsAll n ss
  | [], b => (List.append_nil _).symm
  | s :: ss, b => by
    rw [Stmt.emitAll, Stmt.mentions_emitAll, s.mentions_emit n, List.append_assoc]
    rfl

end

theorem FunctionDef.mentions_block (f : FunctionDef) :
    f.block.mentions = Stmt.mentionsAll f.inner f.body := by
  have h := Stmt.mentions_emitAll f.inner none f.body .empty
  unfold FunctionDef.block
  by_cases hr : f.body.getLast?.any Lower.isReturn = true
  · simp only [if_pos hr]
    exact h
  · simp only [if_neg hr]
    rw [Block.mentions_add, Block.mentions_add, h]
    simp [Instr.mention?]
    rfl

theorem Program.mentions_main (p : Program) : p.main.mentions = Stmt.mentionsAll .top p := by
  rw [Program.main, Block.mentions_add, Block.mentions_fresh, Stmt.mentions_emitAll]
  exact List.append_nil _

end Stackscript
