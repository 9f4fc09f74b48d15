import Stackscript.Proofs.Emission
import Stackscript.Proofs.Lists

/-!
# Blocks that grow

While a tree is lowered its block grows at the end: the last label gets instructions, is closed and
followed by another one. What has been emitted stays where it is, so a run of the final block finds
it there.

* `Block.tip`, the place behind all that has been emitted; `Block.instr?`;
* `Block.PartOf`, with `Block.partOf_add`, `Block.partOf_bind`, `Expr.partOf_emit`,
  `Stmt.partOf_emit`;
* `Block.PartOf.instr?_tip`, `Block.PartOf.idxOf?_bind`: what is found in the final block;
* `Block.labelIds_bind`.
-/

namespace Stackscript

namespace Block

/-- The place behind the last instruction. -/
def tip (b : Block) : Place := ⟨b.labels.size - 1, (b.labels.back?.map (·.code.size)).getD 0⟩

/-- The instruction at a place. -/
def instr? (b : Block) (p : Place) : Option Instr := b.labels[p.label]?.bind (·.code[p.index]?)

end Block

/-- A label has grown out of another. -/
def Label.PartOf (l l' : Label) : Prop := l'.id = l.id ∧ l.code.toList <+: l'.code.toList

theorem Label.PartOf.trans {l₁ l₂ l₃ : Label} (h₁ : l₁.PartOf l₂) (h₂ : l₂.PartOf l₃) :
    l₁.PartOf l₃ :=
  ⟨h₂.1.trans h₁.1, h₁.2.trans h₂.2⟩

theorem Label.PartOf.getElem? {l l' : Label} (h : l.PartOf l') {k : Nat} {i : Instr}
    (hi : l.code[k]? = some i) : l'.code[k]? = some i := by
  obtain ⟨more, hmore⟩ := h.2
  rw [← Array.getElem?_toList] at hi ⊢
  rw [← hmore, List.getElem?_append_left (List.getElem?_eq_some_iff.1 hi).1]
  exact hi

theorem Label.partOf_push (l : Label) (i : Instr) : l.PartOf (l.push i) :=
  ⟨rfl, [i], by simp [Label.push]⟩

/-- A label is closed by a jump, unless it ends in one. -/
theorem Label.close_cases (next : LabelId) (l : Label) :
    l.close next = l ∨ l.close next = l.push (.goto next) := by
  unfold Label.close
  split
  · exact .inl rfl
  · exact .inr rfl

theorem Label.partOf_close (next : LabelId) (l : Label) : l.PartOf (l.close next) := by
  rcases l.close_cases next with h | h
  · rw [h]
    exact ⟨rfl, List.prefix_rfl⟩
  · rw [h]
    exact l.partOf_push _

/-- **A block has grown out of another**: its labels have, and those before the last are as they
were. -/
def Block.PartOf (b b' : Block) : Prop :=
  ∀ k l, b.labels[k]? = some l → ∃ l', b'.labels[k]? = some l' ∧ l.PartOf l' ∧
    (k + 1 < b.labels.size → l' = l)

namespace Block

variable {b b₁ b₂ b₃ B : Block}

theorem PartOf.refl (b : Block) : b.PartOf b :=
  fun _ l hl => ⟨l, hl, ⟨rfl, List.prefix_rfl⟩, fun _ => rfl⟩

theorem PartOf.size_le (h : b₁.PartOf b₂) : b₁.labels.size ≤ b₂.labels.size := by
  by_cases hs : b₁.labels.size = 0
  · omega
  · have hlt : b₁.labels.size - 1 < b₁.labels.size := by omega
    obtain ⟨l', hl', -⟩ := h _ _ (Array.getElem?_eq_getElem hlt)
    have := (Array.getElem?_eq_some_iff.1 hl').1
    omega

theorem PartOf.trans (h₁ : b₁.PartOf b₂) (h₂ : b₂.PartOf b₃) : b₁.PartOf b₃ := by
  intro k l hl
  obtain ⟨l₂, hl₂, hpart₂, heq₂⟩ := h₁ k l hl
  obtain ⟨l₃, hl₃, hpart₃, heq₃⟩ := h₂ k l₂ hl₂
  refine ⟨l₃, hl₃, hpart₂.trans hpart₃, fun hk => ?_⟩
  have hsize := h₁.size_le
  rw [heq₃ (by omega), heq₂ hk]

theorem partOf_reserve (b : Block) : b.PartOf b.reserve.2 := PartOf.refl b

/-- Changing the last label by adding to it. -/
theorem partOf_modify (b : Block) (nextLabel : Nat) (f : Label → Label)
    (hf : ∀ l : Label, l.PartOf (f l))
    (more : Array Label) : b.PartOf ⟨b.labels.modify (b.labels.size - 1) f ++ more, nextLabel⟩ := by
  intro k l hl
  have hk := (Array.getElem?_eq_some_iff.1 hl).1
  by_cases hlast : b.labels.size - 1 = k
  · refine ⟨f l, ?_, hf l, by omega⟩
    rw [Array.getElem?_append_left (by simpa using hk), Array.getElem?_modify, if_pos hlast, hl]
    rfl
  · refine ⟨l, ?_, ⟨rfl, List.prefix_rfl⟩, fun _ => rfl⟩
    rw [Array.getElem?_append_left (by simpa using hk), Array.getElem?_modify, if_neg hlast, hl]

theorem partOf_bind (b : Block) (id : LabelId) : b.PartOf (b.bind id) :=
  b.partOf_modify b.nextLabel _ (Label.partOf_close id) #[⟨id, #[]⟩]

theorem partOf_fresh (b : Block) : b.PartOf b.fresh.2 := b.partOf_reserve.trans (partOf_bind _ _)

theorem partOf_add (b : Block) (i : Instr) : b.PartOf (b.add i) := by
  unfold add
  by_cases he : b.labels.isEmpty = true
  · intro k l hl
    simp [Array.isEmpty_iff.1 he] at hl
  · simp only [if_neg he]
    simpa using b.partOf_modify b.nextLabel (·.push i) (·.partOf_push i) #[]

/-! ## Places -/

theorem tip_of_last {l : Label} (hl : b.labels[b.labels.size - 1]? = some l) :
    b.tip = ⟨b.labels.size - 1, l.code.size⟩ := by
  rw [tip, Array.back?_eq_getElem?, hl]
  rfl

theorem tip_bind (b : Block) (id : LabelId) : (b.bind id).tip = ⟨b.labels.size, 0⟩ := by
  simp [tip, bind]

/-- An instruction goes to the end of the last label. -/
theorem add_spec (b : Block) (i : Instr) :
    (b.add i).instr? b.tip = some i ∧ (b.add i).tip = b.tip.next := by
  unfold add
  by_cases he : b.labels.isEmpty = true
  · have hlabels := Array.isEmpty_iff.1 he
    simp [tip, instr?, fresh, bind, reserve, hlabels, Place.next, Label.push]
  · have hs : b.labels.size ≠ 0 := fun h => he (Array.isEmpty_iff_size_eq_zero.2 h)
    obtain ⟨l, hl⟩ : ∃ l, b.labels[b.labels.size - 1]? = some l :=
      ⟨_, Array.getElem?_eq_getElem (by omega)⟩
    have hnew : (b.labels.modify (b.labels.size - 1) (·.push i))[b.labels.size - 1]? =
        some (l.push i) := by
      rw [Array.getElem?_modify, if_pos rfl, hl]
      rfl
    simp only [if_neg he]
    refine ⟨?_, ?_⟩
    · rw [tip_of_last hl, instr?, hnew]
      simp [Label.push]
    · rw [tip_of_last hl, tip_of_last (by rw [Array.size_modify]; exact hnew)]
      simp [Place.next, Label.push]

theorem PartOf.instr? (h : b.PartOf B) {p : Place} {i : Instr} (hi : b.instr? p = some i) :
    B.instr? p = some i := by
  obtain ⟨l, hl, hi⟩ := Option.bind_eq_some_iff.1 hi
  obtain ⟨l', hl', hpart, -⟩ := h _ _ hl
  rw [Block.instr?, hl', Option.bind_some]
  exact hpart.getElem? hi

/-- **What was emitted last stands at the end of what was emitted before.** -/
theorem PartOf.instr?_tip {i : Instr} (h : (b.add i).PartOf B) : B.instr? b.tip = some i :=
  h.instr? (b.add_spec i).1

/-- **A label that was started stands behind those that were there.** -/
theorem PartOf.idxOf?_bind {id : LabelId} (h : (b.bind id).PartOf B) (hd : B.labelIds.Nodup) :
    B.labelIds.idxOf? id = some b.labels.size := by
  have hnew : (b.bind id).labels[b.labels.size]? = some ⟨id, #[]⟩ := by
    rw [bind, Array.getElem?_push, if_pos (Array.size_modify ..).symm]
  obtain ⟨l, hl, hpart, -⟩ := h _ _ hnew
  refine idxOf?_of_getElem? hd ?_
  rw [labelIds, List.getElem?_map, Array.getElem?_toList, hl, Option.map_some, hpart.1]

/-- **The end of a label leads to the label that was started behind it.** -/
theorem PartOf.tip_cases {id : LabelId} (h : (b.bind id).PartOf B) :
    b.tip = (b.bind id).tip ∨ B.instr? b.tip = some (.goto id) ∨
      ∃ l, B.labels[b.tip.label]? = some l ∧ l.code[b.tip.index]? = none ∧
        (b.bind id).tip = ⟨b.tip.label + 1, 0⟩ := by
  rw [tip_bind]
  by_cases hs : b.labels.size = 0
  · left
    rw [tip, Array.back?_eq_getElem?]
    simp [hs]
  · right
    obtain ⟨l, hl⟩ : ∃ l, b.labels[b.labels.size - 1]? = some l :=
      ⟨_, Array.getElem?_eq_getElem (by omega)⟩
    have hclosed : (b.bind id).labels[b.labels.size - 1]? = some (l.close id) := by
      rw [bind, Array.getElem?_push, if_neg (by rw [Array.size_modify]; omega),
        Array.getElem?_modify, if_pos rfl, hl]
      rfl
    obtain ⟨l', hl', hpart, hsame⟩ := h _ _ hclosed
    rw [tip_of_last hl]
    rcases l.close_cases id with hc | hc
    · right
      have hsize : b.labels.size - 1 + 1 < (b.bind id).labels.size := by simp [bind]; omega
      refine ⟨l', hl', ?_, ?_⟩
      · rw [hsame hsize, hc]
        simp
      · show Place.mk b.labels.size 0 = Place.mk (b.labels.size - 1 + 1) 0
        rw [Nat.sub_add_cancel (by omega)]
    · left
      rw [Block.instr?, hl', Option.bind_some]
      refine hpart.getElem? ?_
      rw [hc]
      simp [Label.push]

end Block

/-! ## What is emitted stays -/

mutual

theorem Expr.partOf_emit (n : Names) : (e : Expr) → (b : Block) → b.PartOf (e.emit n b)
  | .number .., b | .string .., b | .boolean _ true, b | .boolean _ false, b | .null _, b
  | .ident .., b =>
    b.partOf_add _
  | .array _ items, b => (Expr.partOf_emitAll n items b).trans (Block.partOf_add _ _)
  | .binary _ _ left right, b =>
    (left.partOf_emit n b).trans ((right.partOf_emit n _).trans (Block.partOf_add _ _))
  | .unary _ _ arg, b => (arg.partOf_emit n b).trans (Block.partOf_add _ _)
  | .cond _ test yes no, b =>
    (test.partOf_emit n b).trans <| (Block.partOf_reserve _).trans <|
      (Block.partOf_reserve _).trans <| (Block.partOf_add _ _).trans <|
      (Block.partOf_fresh _).trans <| (yes.partOf_emit n _).trans <| (Block.partOf_add _ _).trans <|
      (Block.partOf_bind _ _).trans <| (no.partOf_emit n _).trans <| Block.partOf_bind _ _
  | .assign _ _ value, b =>
    (value.partOf_emit n b).trans ((Block.partOf_add _ _).trans (Block.partOf_add _ _))
  | .assignAt _ _ object position value, b =>
    (object.partOf_emit n b).trans <| (position.partOf_emit n _).trans <|
      (value.partOf_emit n _).trans <| Block.partOf_add _ _
  | .index _ object position, b =>
    (object.partOf_emit n b).trans ((position.partOf_emit n _).trans (Block.partOf_add _ _))
  | .call _ callee args, b =>
    (Expr.partOf_emitAll n args b).trans ((callee.partOf_emit n _).trans (Block.partOf_add _ _))

theorem Expr.partOf_emitAll (n : Names) : (es : List Expr) → (b : Block) →
    b.PartOf (Expr.emitAll n es b)
  | [], b => .refl b
  | e :: es, b => (e.partOf_emit n b).trans (Expr.partOf_emitAll n es _)

end

theorem Expr.partOf_emitOptional (n : Names) (e : Option Expr) (b : Block) :
    b.PartOf (Expr.emitOptional n e b) := by
  cases e with
  | some e => exact e.partOf_emit n b
  | none => exact b.partOf_add _

mutual

theorem Stmt.partOf_emit (n : Names) (loop : Option (LabelId × LabelId)) :
    (s : Stmt) → (b : Block) → b.PartOf (s.emit n loop b)
  | .var _ init, b => (Expr.partOf_emitOptional n init b).trans (Block.partOf_add _ _)
  | .const _ init, b => (init.partOf_emit n b).trans (Block.partOf_add _ _)
  | .function .., b =>
    (b.partOf_add _).trans ((Block.partOf_add _ _).trans (Block.partOf_add _ _))
  | .expr e, b => (e.partOf_emit n b).trans (Block.partOf_add _ _)
  | .block body, b => Stmt.partOf_emitAll n loop body b
  | .ifThen test yes, b =>
    (test.partOf_emit n b).trans <| (Block.partOf_reserve _).trans <|
      (Block.partOf_add _ _).trans <| (Block.partOf_fresh _).trans <|
      (yes.partOf_emit n loop _).trans <| Block.partOf_bind _ _
  | .ifElse test yes no, b =>
    (test.partOf_emit n b).trans <| (Block.partOf_reserve _).trans <|
      (Block.partOf_add _ _).trans <| (Block.partOf_fresh _).trans <|
      (yes.partOf_emit n loop _).trans <| (Block.partOf_reserve _).trans <|
      (Block.partOf_add _ _).trans <| (Block.partOf_bind _ _).trans <|
      (no.partOf_emit (yes.after n) loop _).trans <| Block.partOf_bind _ _
  | .while test body, b =>
    (b.partOf_reserve).trans <| (Block.partOf_fresh _).trans <| (test.partOf_emit n _).trans <|
      (Block.partOf_add _ _).trans <| (Block.partOf_fresh _).trans <|
      (body.partOf_emit n _ _).trans <| (Block.partOf_add _ _).trans <| Block.partOf_bind _ _
  | .return value _, b => (Expr.partOf_emitOptional n value b).trans (Block.partOf_add _ _)
  | .break _, b => by
    cases loop with
    | none => exact .refl b
    | some labels => exact b.partOf_add _
  | .continue _, b => by
    cases loop with
    | none => exact .refl b
    | some labels => exact b.partOf_add _
  | .empty, b => .refl b

theorem Stmt.partOf_emitAll (n : Names) (loop : Option (LabelId × LabelId)) :
    (ss : List Stmt) → (b : Block) → b.PartOf (Stmt.emitAll n loop ss b)
  | [], b => .refl b
  | s :: ss, b => (s.partOf_emit n loop b).trans (Stmt.partOf_emitAll (s.after n) loop ss _)

end

/-! ## Names of labels -/

namespace Block

theorem labelIds_modify (labels : Array Label) (k : Nat) (f : Label → Label)
    (hf : ∀ l, (f l).id = l.id) :
    (labels.modify k f).toList.map (·.id) = labels.toList.map (·.id) := by
  apply List.ext_getElem?
  intro j
  rw [List.getElem?_map, List.getElem?_map, Array.getElem?_toList, Array.getElem?_toList,
    Array.getElem?_modify]
  by_cases hk : k = j
  · rw [if_pos hk]
    cases labels[j]? with
    | none => rfl
    | some l => exact congrArg some (hf l)
  · rw [if_neg hk]

theorem labelIds_bind {C : Type} (b : Block C) (l : LabelId) :
    (b.bind l).labelIds = b.labelIds ++ [l] := by
  rw [labelIds, bind, Array.toList_push, List.map_append,
    labelIds_modify _ _ _ fun l' => (l'.partOf_close l).1]
  rfl

end Block

end Stackscript
