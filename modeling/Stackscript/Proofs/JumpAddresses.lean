import Stackscript.Proofs.CodecInverse
import Stackscript.Proofs.Layout

/-!
# What the chunk of a block reads back as

The chunk of a block is listed label by label. What is listed of a label are its instructions,
without a last jump to the label that follows, and the address of a jump is where the listing of its
target starts. Labels of which nothing is left start where the next instruction does, and those
behind which nothing comes at the end of the chunk.

* `Label.Keeps`, `Op.target?`, `startOf`, `Instr.ListedAs`: what is listed of labels and of
  instructions;
* `Block.ListedAs`, the listing of a block in parts, one for every label;
* **`Block.assemble_listed`**.
-/

namespace Stackscript

/-! ## Parts of a listing -/

/-- The code is what is left of a label before the label `next`: everything but a last jump
there. -/
def Label.Keeps (next : Option LabelId) (l : Label) (code : List Instr) : Prop :=
  (l.code.toList = code ∧ ∀ target, code.getLast? = some (.goto target) → next ≠ some target) ∨
    ∃ target, next = some target ∧ l.code.toList = code ++ [.goto target]

theorem Label.keeps_laidOut (next : Option LabelId) (l : Label) :
    l.Keeps next (l.laidOut next) := by
  obtain h | h := l.laidOut_cases next
  · refine .inl ⟨h.symm, fun target hlast hnext => ?_⟩
    -- such a jump would have been left out
    rw [h, Array.getLast?_toList] at hlast
    have hpop : l.laidOut next = l.code.pop.toList := by
      rw [Label.laidOut, hlast]
      exact if_pos hnext
    have hlength := congrArg List.length (h.symm.trans hpop)
    obtain ⟨code, hcode⟩ := Array.back?_eq_some_iff.1 hlast
    simp [hcode] at hlength
  · exact .inr h

/-- The address that a jump carries. -/
def Op.target? : Op → Option UInt32
  | .goto a | .popJumpIfZero a | .popJumpIfNonzero a => some a
  | _ => none

/-- Where a part of a listing starts: at the first instruction of this part or of a later one, or at
the end of the chunk if there is none. -/
def startOf (parts : List (List (Nat × Op))) (stop k : Nat) : Nat :=
  ((parts.drop k).flatten.head?.map (·.1)).getD stop

/-- An instruction is listed as a byte instruction, given the tables of the finished program, the
labels of the block and where they start. -/
inductive Instr.ListedAs (vars : Array Variable) (t : Slots) (labels : List LabelId) (start : Nat →
      Nat) :
    Instr → Op → Prop where
  | plain {i : Instr} {op : Op} : i.DraftedAs vars t (.plain op) → ListedAs vars t labels start i op
  | goto {l : LabelId} {k : Nat} {a : UInt32} : labels[k]? = some l → a.toNat = start k →
      ListedAs vars t labels start (.goto l) (.goto a)
  | popJumpIfZero {l : LabelId} {k : Nat} {a : UInt32} : labels[k]? = some l → a.toNat = start k →
      ListedAs vars t labels start (.popJumpIfZero l) (.popJumpIfZero a)
  | popJumpIfNonzero {l : LabelId} {k : Nat} {a : UInt32} : labels[k]? = some l →
      a.toNat = start k → ListedAs vars t labels start (.popJumpIfNonzero l) (.popJumpIfNonzero a)

/-- **The listing of a block in parts**, one for every label. -/
structure Block.ListedAs (vars : Array Variable) (t : Slots) (b : Block) (chunk : Chunk)
    (parts : List (List (Nat × Op))) : Prop where
  /-- The listing consists of the parts. -/
  listed : chunk.instructions = .ok parts.flatten
  /-- The instructions follow each other from the start to the end of the chunk. -/
  whole : ∃ ops, parts.flatten = Chunk.located 0 ops ∧ Chunk.opsSize ops = chunk.size
  labels : parts.length = b.labels.size
  /-- A part lists what is left of its label. -/
  part : ∀ {k : Nat} {l : Label} {part : List (Nat × Op)}, b.labels[k]? = some l →
    parts[k]? = some part → ∃ code, l.Keeps b.labelIds[k + 1]? code ∧
      List.Forall₂ (fun i x => i.ListedAs vars t b.labelIds (startOf parts chunk.size) x.2) code
      part
  /-- Jumps lead to instructions or to the end. -/
  boundary : ∀ {offset : Nat} {op : Op} {a : UInt32}, (offset, op) ∈ parts.flatten →
    op.target? = some a → a.toNat = chunk.size ∨ ∃ op', (a.toNat, op') ∈ parts.flatten

/-! ## Parts and offsets -/

theorem startOf_cases (parts : List (List (Nat × Op))) (stop k : Nat) :
    startOf parts stop k = stop ∨ ∃ op, (startOf parts stop k, op) ∈ parts.flatten := by
  unfold startOf
  cases h : (parts.drop k).flatten.head? with
  | none => exact .inl rfl
  | some x =>
    refine .inr ⟨x.2, ?_⟩
    obtain ⟨part, hpart, hx⟩ := List.mem_flatten.1 (List.mem_of_mem_head? h)
    exact List.mem_flatten.2 ⟨part, List.mem_of_mem_drop hpart, hx⟩

/-- In a listing without gaps a part starts where the parts before it end. -/
theorem startOf_located {parts : List (List (Nat × Op))} {ops : List Op}
    (h : parts.flatten = Chunk.located 0 ops) (k : Nat) :
    startOf parts (Chunk.opsSize ops) k =
      Chunk.opsSize (ops.take (parts.take k).flatten.length) := by
  have hsplit : (parts.drop k).flatten =
      (Chunk.located 0 ops).drop (parts.take k).flatten.length := by
    rw [← h, ← List.take_append_drop k parts, List.flatten_append,
      List.take_append_drop, List.drop_left]
  rw [startOf, hsplit, List.head?_drop, Chunk.getElem?_located]
  cases hop : ops[(parts.take k).flatten.length]? with
  | some op => simp
  | none =>
    rw [List.take_of_length_le (List.getElem?_eq_none_iff.1 hop), Option.map_none,
      Option.map_none, Option.getD_none]

/-- What is related to lists one after the other can be cut as they are. -/
theorem exists_parts_of_forall₂ {α β : Type} {R : α → β → Prop} {ass : List (List α)} {bs : List β}
    (h : List.Forall₂ R ass.flatten bs) :
    ∃ bss, bss.flatten = bs ∧ List.Forall₂ (List.Forall₂ R) ass bss := by
  induction ass generalizing bs with
  | nil =>
    cases h
    exact ⟨[], rfl, .nil⟩
  | cons as ass ih =>
    have hflip := h.flip
    rw [List.flatten_cons] at hflip
    obtain ⟨bss, hbss, hrest⟩ := ih (List.forall₂_drop_append _ _ _ hflip).flip
    exact ⟨bs.take as.length :: bss, by rw [List.flatten_cons, hbss, List.take_append_drop],
      .cons (List.forall₂_take_append _ _ _ hflip).flip hrest⟩

theorem length_flatten_of_forall₂ {α β : Type} {R : α → β → Prop} {ass : List (List α)}
    {bss : List (List β)}
    (h : List.Forall₂ (List.Forall₂ R) ass bss) : ass.flatten.length = bss.flatten.length := by
  induction h with
  | nil => rfl
  | cons h _ ih =>
    rw [List.flatten_cons, List.flatten_cons, List.length_append,
      List.length_append, h.length_eq, ih]

theorem Chunk.forall₂_located {R : Instr → Op → Prop} {code : List Instr} {ops : List Op}
    (h : List.Forall₂ R code ops)
    (offset : Nat) : List.Forall₂ (fun i x => R i x.2) code (located offset ops) := by
  induction h generalizing offset with
  | nil => exact .nil
  | cons h _ ih => exact .cons h (ih _)

/-! ## Blocks -/

theorem Instr.AssembledAs.listedAs {vars : Array Variable} {t : Slots} {b : Block} {start : Nat →
      Nat} {i : Instr}
    {op : Op} (h : i.AssembledAs vars t b op)
    (hstart : ∀ k, (UInt32.ofNat (b.address ⟨k, 0⟩)).toNat = start k) :
    i.ListedAs vars t b.labelIds start op := by
  have hlabel : ∀ {l k}, b.labelIds.idxOf? l = some k → b.labelIds[k]? = some l := by
    intro l k hk
    obtain ⟨hlt, hget, -⟩ := List.idxOf?_eq_some_iff.1 hk
    rw [List.getElem?_eq_getElem hlt, hget]
  cases h with
  | plain h => exact .plain h
  | goto hk => exact .goto (hlabel hk) (hstart _)
  | popJumpIfZero hk => exact .popJumpIfZero (hlabel hk) (hstart _)
  | popJumpIfNonzero hk => exact .popJumpIfNonzero (hlabel hk) (hstart _)

/-- The address of a jump is where its label starts. -/
theorem Instr.ListedAs.target {vars : Array Variable} {t : Slots} {labels : List LabelId}
    {start : Nat → Nat}
    {i : Instr} {op : Op} (h : i.ListedAs vars t labels start op) {a : UInt32}
    (ha : op.target? = some a) : ∃ k, a.toNat = start k := by
  cases h with
  | plain h =>
    cases h with
    | plain h => cases i <;> cases h <;> cases ha
    | _ => cases ha
  | goto _ hstart | popJumpIfZero _ hstart | popJumpIfNonzero _ hstart =>
    cases ha
    exact ⟨_, hstart⟩

namespace Block

variable {vars : Array Variable} {s t : Slots} {b : Block} {chunk : Chunk} {order : ByteOrder}

/-- The byte order only decides how instructions are written. -/
theorem assemble_order (h : b.assemble vars order s = .ok (chunk, t)) :
    ∃ ops, ∀ order, b.assemble vars order s = .ok (.ofOps order ops, t) := by
  simp only [assemble, except_bind_eq_ok] at h ⊢
  obtain ⟨⟨drafts, t'⟩, hdrafts, ops, hops, h⟩ := h
  cases h
  exact ⟨ops, fun order => ⟨_, hdrafts, ops, hops, rfl⟩⟩

theorem AssembledTo.listedAs (h : b.AssembledTo vars t chunk) (hs : chunk.size < UInt32.size) :
    ∃ parts, b.ListedAs vars t chunk parts := by
  have hsize := h.size_eq
  obtain ⟨order, ops, rfl, hops⟩ := h
  obtain ⟨parts, hflat, hparts⟩ := exists_parts_of_forall₂ (Chunk.forall₂_located hops 0)
  have hstart : ∀ k, (UInt32.ofNat (b.address ⟨k, 0⟩)).toNat =
      startOf parts (Chunk.ofOps order ops).size k := by
    intro k
    have hle := b.address_le ⟨k, 0⟩
    have hbefore : b.before ⟨k, 0⟩ = (parts.take k).flatten.length :=
      length_flatten_of_forall₂ (List.forall₂_take k hparts)
    rw [UInt32.toNat_ofNat_of_lt' (by omega), Chunk.size_ofOps,
      startOf_located hflat, address, hbefore]
    exact (opsSize_eq_codeSize (List.forall₂_take _ hops)).symm
  have hlisted : List.Forall₂ (List.Forall₂ fun i x => i.ListedAs vars t b.labelIds
      (startOf parts (Chunk.ofOps order ops).size) x.2) b.segments parts :=
    hparts.imp fun _ _ h => h.imp fun _ _ h => h.listedAs hstart
  refine ⟨parts, ?_, ⟨ops, hflat, (Chunk.size_ofOps order ops).symm⟩, ?_, fun {k l part} hl hpart =>
    ?_, fun {offset op a} hop ha => ?_⟩
  · rw [hflat, Chunk.instructions_eq_located]
  · rw [← hparts.length_eq, length_segments]
  · obtain ⟨-, hnone⟩ | ⟨code, part', hcode, hpart', hcodes⟩ := getElem?_of_forall₂ hlisted k
    · cases hpart.symm.trans hnone
    cases hpart.symm.trans hpart'
    rw [getElem?_segments, hl] at hcode
    cases hcode
    exact ⟨_, l.keeps_laidOut _, hcodes⟩
  · obtain ⟨part, hpart, hmem⟩ := List.mem_flatten.1 hop
    obtain ⟨code, -, hcodes⟩ := exists_mem_of_forall₂ hlisted.flip hpart
    obtain ⟨i, -, hi⟩ := exists_mem_of_forall₂ hcodes.flip hmem
    obtain ⟨k, hk⟩ := hi.target ha
    rw [hk]
    exact startOf_cases parts _ k

/-- **The chunk of a block reads back as the block**, with every jump at the start of its label; and
it does so in either byte order, with the same listing. -/
theorem assemble_listed (h : b.assemble vars order s = .ok (chunk, t)) (hb : b.labelIds.Nodup)
    (hs : chunk.size < UInt32.size) :
    (∃ parts, b.ListedAs vars t chunk parts) ∧
      ∀ order', ∃ chunk', b.assemble vars order' s = .ok (chunk', t) ∧
        chunk'.instructions = chunk.instructions := by
  refine ⟨(assemble_spec h hb).1.listedAs hs, fun order' => ?_⟩
  obtain ⟨ops, hops⟩ := assemble_order h
  cases h.symm.trans (hops order)
  exact ⟨_, hops order', by rw [Chunk.instructions_eq_located, Chunk.instructions_eq_located]⟩

/-- A block with jumps forward, backward and to its end, a label of which nothing is left, and an
empty one. -/
def tangled : Block where
  labels := #[⟨4, #[.pushTrue, .popJumpIfZero 9, .goto 6]⟩, ⟨6, #[.goto 7]⟩,
    ⟨7, #[.pushNull, .popJumpIfNonzero 6, .goto 4]⟩, ⟨9, #[]⟩]
  nextLabel := 10

/-- Its chunk. -/
def tangledAssembled : Chunk := ⟨.big, #[6, 2, 0, 0, 0, 17, 8, 3, 0, 0, 0, 6, 1, 0, 0, 0, 0]⟩

theorem assemble_listed_tangled :
    tangled.assemble #[] .big ⟨#[], #[], none⟩ = .ok (tangledAssembled, ⟨#[], #[], none⟩) ∧
      tangled.labelIds.Nodup ∧ tangledAssembled.size < UInt32.size ∧
      (∃ parts, tangled.ListedAs #[] ⟨#[], #[], none⟩ tangledAssembled parts) ∧
      ∃ chunk, tangled.assemble #[] .little ⟨#[], #[], none⟩ = .ok (chunk, ⟨#[], #[], none⟩) ∧
        chunk.instructions = tangledAssembled.instructions := by
  have h : tangled.assemble #[] .big ⟨#[], #[], none⟩ =
      .ok (tangledAssembled, ⟨#[], #[], none⟩) := by decide +kernel
  have hb : tangled.labelIds.Nodup := by decide
  have hs : tangledAssembled.size < UInt32.size := by decide
  obtain ⟨hparts, horders⟩ := assemble_listed h hb hs
  exact ⟨h, hb, hs, hparts, horders .little⟩

end Block

end Stackscript
