import Stackscript.Proofs.Codec
import Stackscript.Proofs.Slots

/-!
# Where instructions stand

A block is laid out label by label, without the jumps that lead to the label that follows anyway.
The address of a place is the number of bytes of what is laid out before it.

* `Instr.byteSize`, `Block.laidOut`, `Block.address`, and `Block.HasPlace`, the places that a run
  can be at;
* **`Block.place_cases`**: at a place stands a laid-out instruction, or a jump that has been left
  out, or the end of the label;
* `Instr.AssembledAs`, the byte instruction of an instruction in its block, and
  **`Block.assemble_spec`**: a chunk holds the byte instructions of what is laid out;
* `LabelCode.AssembledTo`, **`LabelCode.assemble_spec`**: the same of whole programs.
-/

namespace Stackscript

/-- The number of bytes of the byte instruction of an instruction. -/
def Instr.byteSize : Instr → Nat
  | .binary _ | .unary _ | .call _ => 2
  | .goto _ | .popJumpIfZero _ | .popJumpIfNonzero _ | .string _ | .makeArray _ | .functionRef _
  | .load _ | .store _ => 5
  | .number _ => 9
  | .pop | .pushTrue | .pushFalse | .pushNull | .ret | .exit | .makeFunction | .getIndex
  | .setIndex => 1

/-- The number of bytes of a list of instructions. -/
def codeSize (code : List Instr) : Nat := (code.map Instr.byteSize).sum

/-! ## The laid-out code of a block -/

/-- What is left out of a label is a last jump to the next one. -/
theorem Label.laidOut_cases (next : Option LabelId) (l : Label) :
    l.laidOut next = l.code.toList ∨
      ∃ target, next = some target ∧ l.code.toList = l.laidOut next ++ [.goto target] := by
  unfold Label.laidOut
  split
  case h_1 target h =>
    split
    case isTrue hn =>
      obtain ⟨code, hcode⟩ := Array.back?_eq_some_iff.1 h
      exact .inr ⟨target, hn, by simp [hcode]⟩
    case isFalse => exact .inl rfl
  case h_2 => exact .inl rfl

theorem Label.filterMap_laidOut {α : Type} {g : Instr → Option α} (hg : ∀ l, g (.goto l) = none)
    (next : Option LabelId) (l : Label) :
    (l.laidOut next).filterMap g = l.code.toList.filterMap g := by
  obtain h | ⟨target, -, h⟩ := l.laidOut_cases next
  · rw [h]
  · rw [h, List.filterMap_append]
    simp [hg]

theorem getElem?_layout (ls : List Label) (k : Nat) :
    (layout ls)[k]? = ls[k]?.map fun l => (l.id, l.laidOut (ls[k + 1]?.map (·.id))) := by
  induction ls generalizing k with
  | nil => rfl
  | cons l ls ih =>
    cases k with
    | zero => simp [layout, List.head?_eq_getElem?]
    | succ k => simpa [layout] using ih k

theorem map_fst_layout (ls : List Label) : (layout ls).map (·.1) = ls.map (·.id) := by
  induction ls with
  | nil => rfl
  | cons l ls ih => rw [layout, List.map_cons, ih]; rfl

theorem filterMap_layout {α : Type} {g : Instr → Option α} (hg : ∀ l, g (.goto l) = none)
    (ls : List Label) :
    ((layout ls).flatMap (·.2)).filterMap g = (ls.flatMap (·.code.toList)).filterMap g := by
  induction ls with
  | nil => rfl
  | cons l ls ih =>
    rw [layout, List.flatMap_cons, List.flatMap_cons, List.filterMap_append, List.filterMap_append,
      ih, l.filterMap_laidOut hg]

namespace Block

/-- The instructions that are laid out, label by label. -/
def segments (b : Block) : List (List Instr) := (layout b.labels.toList).map (·.2)

/-- The instructions that are laid out. -/
def laidOut (b : Block) : List Instr := b.segments.flatten

/-- The number of laid-out instructions before a place. -/
def before (b : Block) (p : Place) : Nat := (b.segments.take p.label).flatten.length + p.index

/-- The offset of a place in the chunk of a block. -/
def address (b : Block) (p : Place) : Nat := codeSize (b.laidOut.take (b.before p))

/-- A run of the block can be at a place: in a label, not behind a jump that has been left out, or
behind the last label. -/
def HasPlace (b : Block) (p : Place) : Prop :=
  (∃ code, b.segments[p.label]? = some code ∧ p.index ≤ code.length) ∨ p = ⟨b.labels.size, 0⟩

variable {b : Block}

/-- What is left out of a block are jumps. -/
theorem filterMap_laidOut {α : Type} {g : Instr → Option α} (hg : ∀ l, g (.goto l) = none)
    (b : Block) : b.laidOut.filterMap g = b.instrs.filterMap g := by
  rw [laidOut, segments, ← List.flatMap_def, filterMap_layout hg]
  rfl

theorem variables_laidOut (b : Block) : b.laidOut.filterMap Instr.mention? = b.mentions :=
  b.filterMap_laidOut fun _ => rfl

/-- The entries of the pool that a block gets. -/
def pooled (b : Block) : List Value := b.instrs.filterMap Instr.pooled?

theorem pooled_laidOut (b : Block) : b.laidOut.filterMap Instr.pooled? = b.pooled :=
  b.filterMap_laidOut fun _ => rfl

theorem getElem?_segments (b : Block) (k : Nat) :
    b.segments[k]? = b.labels[k]?.map fun l => l.laidOut b.labelIds[k + 1]? := by
  simp [segments, getElem?_layout, labelIds]
  rfl

theorem length_segments (b : Block) : b.segments.length = b.labels.size := by
  rw [segments, List.length_map, ← Array.length_toList, ← List.length_map, map_fst_layout,
    List.length_map]

theorem laidOut_split {k : Nat} {code : List Instr} (h : b.segments[k]? = some code) :
    b.laidOut = (b.segments.take k).flatten ++ (code ++ (b.segments.drop (k + 1)).flatten) := by
  obtain ⟨hk, rfl⟩ := List.getElem?_eq_some_iff.1 h
  rw [laidOut, ← List.flatten_cons, ← List.drop_eq_getElem_cons hk, ← List.flatten_append,
    List.take_append_drop]

theorem getElem?_laidOut {p : Place} {code : List Instr} (h : b.segments[p.label]? = some code)
    (hp : p.index < code.length) : b.laidOut[b.before p]? = code[p.index]? := by
  rw [laidOut_split h, before, List.getElem?_append_right (by omega), Nat.add_sub_cancel_left,
    List.getElem?_append_left hp]

theorem before_next_label {p : Place} {code : List Instr} (h : b.segments[p.label]? = some code)
    (hp : p.index = code.length) : b.before ⟨p.label + 1, 0⟩ = b.before p := by
  rw [before, before, List.take_add_one, h]
  simp [hp]

/-- The address of a label is the size of the labels before it. -/
theorem address_label (b : Block) (k : Nat) :
    b.address ⟨k, 0⟩ = codeSize (b.segments.take k).flatten := by
  have : b.laidOut = (b.segments.take k).flatten ++ (b.segments.drop k).flatten := by
    rw [laidOut, ← List.flatten_append, List.take_append_drop]
  rw [address, before, this, Nat.add_zero, List.take_left]

theorem address_start (b : Block) : b.address .start = 0 := by rw [Place.start, address_label]; rfl

theorem address_end (b : Block) : b.address ⟨b.labels.size, 0⟩ = codeSize b.laidOut := by
  rw [address_label, ← length_segments, List.take_length, laidOut]

theorem address_next {p : Place} {i : Instr} (h : b.laidOut[b.before p]? = some i) :
    b.address p.next = b.address p + i.byteSize := by
  have hn : b.before p.next = b.before p + 1 := rfl
  rw [address, hn, List.take_add_one, h]
  simp [codeSize, address]

theorem address_le (b : Block) (p : Place) : b.address p ≤ codeSize b.laidOut := by
  have : codeSize (b.laidOut.take (b.before p)) + codeSize (b.laidOut.drop (b.before p)) =
      codeSize b.laidOut := by
    rw [codeSize, codeSize, ← List.sum_append, ← List.map_append, List.take_append_drop, codeSize]
  rw [address]
  omega

theorem hasPlace_label {k : Nat} (h : k ≤ b.labels.size) : b.HasPlace ⟨k, 0⟩ := by
  rcases Nat.lt_or_eq_of_le h with h | rfl
  · rw [← length_segments] at h
    exact .inl ⟨b.segments[k], List.getElem?_eq_getElem h, Nat.zero_le _⟩
  · exact .inr rfl

theorem hasPlace_start (b : Block) : b.HasPlace .start := hasPlace_label (Nat.zero_le _)

/-- **What stands at a place of a label**: an instruction that is laid out; or a jump to the next
label, or nothing, and then the next label has the same address. -/
theorem place_cases {p : Place} {l : Label} (h : b.HasPlace p) (hl : b.labels[p.label]? = some l) :
    (∃ i, l.code[p.index]? = some i ∧ b.laidOut[b.before p]? = some i ∧ b.HasPlace p.next) ∨
      ((l.code[p.index]? = none ∨
          ∃ target, l.code[p.index]? = some (.goto target) ∧
            b.labelIds[p.label + 1]? = some target) ∧
        b.address ⟨p.label + 1, 0⟩ = b.address p ∧ b.HasPlace ⟨p.label + 1, 0⟩) := by
  obtain ⟨hlt, -⟩ := Array.getElem?_eq_some_iff.1 hl
  obtain ⟨code, hcode, hp⟩ | rfl := h
  · have hcode' := hcode
    rw [getElem?_segments, hl, Option.map_some, Option.some_inj] at hcode'
    have hcases := l.laidOut_cases b.labelIds[p.label + 1]?
    rw [hcode'] at hcases
    rcases Nat.lt_or_eq_of_le hp with hp | hp
    · refine .inl ⟨code[p.index], ?_, ?_, .inl ⟨code, hcode, hp⟩⟩
      · rw [← Array.getElem?_toList]
        obtain h | ⟨target, -, h⟩ := hcases
        · rw [← h, List.getElem?_eq_getElem hp]
        · rw [h, List.getElem?_append_left hp, List.getElem?_eq_getElem hp]
      · rw [getElem?_laidOut hcode hp, List.getElem?_eq_getElem hp]
    · refine .inr ⟨?_, by rw [address, before_next_label hcode hp, address], hasPlace_label hlt⟩
      rw [← Array.getElem?_toList, hp]
      obtain h | ⟨target, hn, h⟩ := hcases
      · exact .inl (by rw [← h, List.getElem?_length])
      · exact .inr ⟨target, by rw [h]; simp, hn⟩
  · exact absurd hlt (Nat.lt_irrefl _)

/-- Behind the last label there is nothing laid out. -/
theorem address_of_no_label {p : Place} (h : b.HasPlace p) (hl : b.labels[p.label]? = none) :
    b.address p = codeSize b.laidOut := by
  obtain ⟨code, hcode, -⟩ | rfl := h
  · rw [getElem?_segments, hl] at hcode
    cases hcode
  · exact b.address_end

end Block

/-! ## Addresses of labels -/

theorem draftsSize_append (ds ds' : List Draft) :
    draftsSize (ds ++ ds') = draftsSize ds + draftsSize ds' := by
  induction ds with
  | nil => simp [draftsSize]
  | cons d ds ih => rw [List.cons_append, draftsSize, draftsSize, ih, Nat.add_assoc]

theorem Instr.DraftedAs.size {vars : Array Variable} {t : Slots} {i : Instr} {d : Draft}
    (h : i.DraftedAs vars t d) : d.size = i.byteSize := by
  cases h with
  | plain h => cases i <;> cases h <;> rfl
  | _ => rfl

theorem draftsSize_eq_codeSize {vars : Array Variable} {t : Slots} {code : List Instr}
    {ds : List Draft}
    (h : List.Forall₂ (Instr.DraftedAs vars t) code ds) : draftsSize ds = codeSize code := by
  induction h with
  | nil => rfl
  | cons h _ ih => simp [draftsSize, codeSize, h.size, ih]

theorem lookup_labelOffsets {drafts : List (LabelId × List Draft)} (h : (drafts.map (·.1)).Nodup)
    (start : Nat) (seen : List (LabelId × Nat)) (l : LabelId) :
    (labelOffsets start seen drafts).lookup l =
      match (drafts.map (·.1)).idxOf? l with
      | some k => some (start + draftsSize ((drafts.take k).flatMap (·.2)))
      | none => seen.lookup l := by
  induction drafts generalizing start seen with
  | nil => rfl
  | cons d drafts ih =>
    obtain ⟨id, ds⟩ := d
    rw [List.map_cons, List.nodup_cons] at h
    rw [labelOffsets, ih h.2, List.map_cons, List.idxOf?_cons]
    by_cases hid : id = l
    · subst hid
      rw [List.idxOf?_eq_none_iff.2 h.1]
      simp [draftsSize]
    · have hid' : (l == id) = false := by simpa using fun e => hid e.symm
      cases hk : (drafts.map (·.1)).idxOf? l with
      | none => simp [hid, List.lookup_cons, hid']
      | some k => simp [hid, draftsSize_append, Nat.add_assoc]

/-! ## Chunks -/

/-- The byte instruction of an instruction of a block, given the tables of the finished program. -/
inductive Instr.AssembledAs (vars : Array Variable) (t : Slots) (b : Block) :
    Instr → Op → Prop where
  | plain {i : Instr} {op : Op} : i.DraftedAs vars t (.plain op) → AssembledAs vars t b i op
  | goto {l : LabelId} {k : Nat} : b.labelIds.idxOf? l = some k →
      AssembledAs vars t b (.goto l) (.goto (.ofNat (b.address ⟨k, 0⟩)))
  | popJumpIfZero {l : LabelId} {k : Nat} : b.labelIds.idxOf? l = some k →
      AssembledAs vars t b (.popJumpIfZero l) (.popJumpIfZero (.ofNat (b.address ⟨k, 0⟩)))
  | popJumpIfNonzero {l : LabelId} {k : Nat} : b.labelIds.idxOf? l = some k →
      AssembledAs vars t b (.popJumpIfNonzero l) (.popJumpIfNonzero (.ofNat (b.address ⟨k, 0⟩)))

theorem Instr.AssembledAs.mono {vars : Array Variable} {s t : Slots} {b : Block} {i : Instr}
    {op : Op} (h : i.AssembledAs vars s b op) (g : s.Grows t) : i.AssembledAs vars t b op := by
  cases h with
  | plain h => exact .plain (h.mono g)
  | goto h => exact .goto h
  | popJumpIfZero h => exact .popJumpIfZero h
  | popJumpIfNonzero h => exact .popJumpIfNonzero h

theorem Instr.AssembledAs.size {vars : Array Variable} {t : Slots} {b : Block} {i : Instr} {op : Op}
    (h : i.AssembledAs vars t b op) : op.size = i.byteSize := by
  cases h with
  | plain h => exact h.size
  | _ => rfl

/-- The chunk holds the byte instructions of what is laid out of the block. -/
def Block.AssembledTo (vars : Array Variable) (t : Slots) (b : Block) (chunk : Chunk) : Prop :=
  ∃ order ops, chunk = .ofOps order ops ∧ List.Forall₂ (Instr.AssembledAs vars t b) b.laidOut ops

theorem Block.AssembledTo.mono {vars : Array Variable} {s t : Slots} {b : Block} {chunk : Chunk}
    (h : b.AssembledTo vars s chunk) (g : s.Grows t) : b.AssembledTo vars t chunk := by
  obtain ⟨order, ops, rfl, h⟩ := h
  exact ⟨order, ops, rfl, h.imp fun _ _ h => h.mono g⟩

theorem opsSize_eq_codeSize {vars : Array Variable} {t : Slots} {b : Block} {code : List Instr}
    {ops : List Op} (h : List.Forall₂ (Instr.AssembledAs vars t b) code ops) :
    Chunk.opsSize ops = codeSize code := by
  induction h with
  | nil => rfl
  | cons h _ ih => simp [Chunk.opsSize_cons, codeSize, h.size, ih]

namespace Block.AssembledTo

variable {vars : Array Variable} {t : Slots} {b : Block} {chunk : Chunk}

theorem size_eq (h : b.AssembledTo vars t chunk) : chunk.size = codeSize b.laidOut := by
  obtain ⟨order, ops, rfl, h⟩ := h
  rw [Chunk.size_ofOps, opsSize_eq_codeSize h]

/-- **At the address of a laid-out instruction stands its byte instruction.** -/
theorem decode (h : b.AssembledTo vars t chunk) {p : Place} {i : Instr}
    (hi : b.laidOut[b.before p]? = some i) :
    ∃ op, i.AssembledAs vars t b op ∧ chunk.decode (b.address p) = .ok op ∧
      b.address p < chunk.size := by
  obtain ⟨order, ops, rfl, h⟩ := h
  obtain ⟨hlt, rfl⟩ := List.getElem?_eq_some_iff.1 hi
  have hlt' : b.before p < ops.length := h.length_eq ▸ hlt
  have hop : ops[b.before p]? = some ops[b.before p] := List.getElem?_eq_getElem hlt'
  have haddr : b.address p = Chunk.opsSize (ops.take (b.before p)) :=
    (opsSize_eq_codeSize (List.forall₂_take _ h)).symm
  refine ⟨ops[b.before p], h.get hlt hlt', ?_, ?_⟩
  · rw [haddr, Chunk.decode_ofOps hop]
  · rw [haddr, Chunk.size_ofOps]
    exact Chunk.opsSize_take_lt hop

end Block.AssembledTo

theorem Draft.address_eq_ok {offsets : List (LabelId × Nat)} {l : LabelId} {make : UInt32 → Op}
    {op : Op} (h : address offsets l make = .ok op) :
    ∃ offset, offsets.lookup l = some offset ∧ op = make (.ofNat offset) := by
  unfold address at h
  split at h
  case h_1 offset hl =>
    cases h
    exact ⟨offset, hl, rfl⟩
  case h_2 => cases h

theorem Draft.resolve_spec {vars : Array Variable} {t : Slots} {b : Block}
    {offsets : List (LabelId × Nat)} (ho : ∀ l offset, offsets.lookup l = some offset →
      ∃ k, b.labelIds.idxOf? l = some k ∧ offset = b.address ⟨k, 0⟩)
    {i : Instr} {d : Draft} {op : Op} (hd : i.DraftedAs vars t d)
    (hr : d.resolve offsets = .ok op) : i.AssembledAs vars t b op := by
  have haddr : ∀ {l : LabelId} {make : UInt32 → Op}, Draft.address offsets l make = .ok op →
      ∃ k, b.labelIds.idxOf? l = some k ∧ op = make (.ofNat (b.address ⟨k, 0⟩)) := by
    intro l make h
    obtain ⟨offset, hl, rfl⟩ := address_eq_ok h
    obtain ⟨k, hk, rfl⟩ := ho l offset hl
    exact ⟨k, hk, rfl⟩
  cases hd with
  | goto l => obtain ⟨k, hk, rfl⟩ := haddr hr; exact .goto hk
  | popJumpIfZero l => obtain ⟨k, hk, rfl⟩ := haddr hr; exact .popJumpIfZero hk
  | popJumpIfNonzero l => obtain ⟨k, hk, rfl⟩ := haddr hr; exact .popJumpIfNonzero hk
  | plain h => cases hr; exact .plain (.plain h)
  | string h => cases hr; exact .plain (.string h)
  | functionRef h => cases hr; exact .plain (.functionRef h)
  | loadNative h₁ h₂ h₃ => cases hr; exact .plain (.loadNative h₁ h₂ h₃)
  | loadGlobal h₁ h₂ h₃ => cases hr; exact .plain (.loadGlobal h₁ h₂ h₃)
  | storeGlobal h₁ h₂ h₃ => cases hr; exact .plain (.storeGlobal h₁ h₂ h₃)
  | loadFrameVar h₁ h₂ h₃ h₄ => cases hr; exact .plain (.loadFrameVar h₁ h₂ h₃ h₄)
  | storeFrameVar h₁ h₂ h₃ h₄ => cases hr; exact .plain (.storeFrameVar h₁ h₂ h₃ h₄)

theorem Block.flatMap_layout (b : Block) : (layout b.labels.toList).flatMap (·.2) = b.laidOut := by
  rw [Block.laidOut, Block.segments, ← List.flatMap_def]

/-- The drafts of a block: those of what is laid out, with the labels of the block. -/
theorem Block.draftLabels_layout {vars : Array Variable} {b : Block} {s t : Slots}
    {drafts : List (LabelId × List Draft)} (h : draftLabels vars (layout b.labels.toList) s =
    .ok (drafts, t)) :
    drafts.map (·.1) = b.labelIds ∧
      List.Forall₂ (Instr.DraftedAs vars t) b.laidOut (drafts.flatMap (·.2)) ∧
      Slots.After vars b.laidOut s t := by
  obtain ⟨hd, ha⟩ := draftLabels_spec h
  refine ⟨?_, b.flatMap_layout ▸ forall₂_flatMap hd, b.flatMap_layout ▸ ha⟩
  rw [Block.labelIds, ← map_fst_layout]
  exact (map_eq_map_of_forall₂ (hd.imp fun _ _ h => h.1)).symm

theorem Block.assemble_eq_ok {vars : Array Variable} {order : ByteOrder} {b : Block} {s t : Slots}
    {chunk : Chunk} (h : b.assemble vars order s = .ok (chunk, t)) :
    ∃ drafts ops, draftLabels vars (layout b.labels.toList) s = .ok (drafts, t) ∧
      List.Forall₂ (fun d op => d.resolve (labelOffsets 0 [] drafts) = .ok op)
      (drafts.flatMap (·.2)) ops ∧ chunk = .ofOps order ops := by
  simp only [Block.assemble, except_bind_eq_ok] at h
  obtain ⟨⟨drafts, t'⟩, hdrafts, ops, hops, h⟩ := h
  cases h
  exact ⟨drafts, ops, hdrafts, mapM_eq_ok hops, rfl⟩

/-- The tables after a block has been assembled. -/
theorem Block.assemble_after {vars : Array Variable} {order : ByteOrder} {b : Block} {s t : Slots}
    {chunk : Chunk}
    (h : b.assemble vars order s = .ok (chunk, t)) : Slots.After vars b.laidOut s t := by
  obtain ⟨drafts, ops, hdrafts, -⟩ := Block.assemble_eq_ok h
  exact (Block.draftLabels_layout hdrafts).2.2

/-- **The chunk of a block holds the byte instructions of what is laid out.** -/
theorem Block.assemble_spec {vars : Array Variable} {order : ByteOrder} {b : Block} {s t : Slots}
    {chunk : Chunk} (h : b.assemble vars order s = .ok (chunk, t)) (hb : b.labelIds.Nodup) :
    b.AssembledTo vars t chunk ∧ Slots.After vars b.laidOut s t := by
  obtain ⟨drafts, ops, hdrafts, hresolved, rfl⟩ := Block.assemble_eq_ok h
  obtain ⟨hids, hdrafted, ha⟩ := Block.draftLabels_layout hdrafts
  have hoffsets : ∀ l offset, (labelOffsets 0 [] drafts).lookup l = some offset →
      ∃ k, b.labelIds.idxOf? l = some k ∧ offset = b.address ⟨k, 0⟩ := by
    intro l offset hl
    rw [lookup_labelOffsets (hids ▸ hb), hids] at hl
    cases hk : b.labelIds.idxOf? l with
    | none => rw [hk] at hl; cases hl
    | some k =>
      rw [hk] at hl
      cases hl
      refine ⟨k, rfl, ?_⟩
      rw [draftsSize_eq_codeSize
        (forall₂_flatMap (List.forall₂_take k (draftLabels_spec hdrafts).1)), Nat.zero_add,
        Block.address_label, Block.segments, ← List.map_take, List.flatMap_def]
  exact ⟨⟨order, ops, rfl, (forall₂_comp hdrafted hresolved).imp fun i op ⟨d, hd, hr⟩ =>
    Draft.resolve_spec hoffsets hd hr⟩, ha⟩

/-! ## Programs -/

/-- The globally kept variables that a block names. -/
def Block.globalMentions (vars : Array Variable) (b : Block) : List VarId :=
  b.mentions.filter (keptGlobally vars)

/-- A routine of the executable belongs to a function of the program. -/
structure LabelFunction.AssembledTo (vars : Array Variable) (constants : Array Value)
    (globals : Array VarId) (f : LabelFunction) (r : Routine) : Prop where
  name : r.name = f.name
  arity : r.arity = f.arity
  locals : r.locals = (f.frameVars vars).length
  chunk : f.block.AssembledTo vars ⟨constants, globals, some (f.frameVars vars).toArray⟩ r.chunk

/-- An executable belongs to a program in label code. -/
structure LabelCode.AssembledTo (code : LabelCode) (exe : Executable) : Prop where
  main : code.main.AssembledTo code.vars ⟨exe.constants, code.globalVars.toArray, none⟩ exe.main
  routines : List.Forall₂
    (LabelFunction.AssembledTo code.vars exe.constants code.globalVars.toArray)
    code.functions.toList exe.routines.toList
  globals : exe.globals.toList = code.globalVars.map fun id => (code.vars[id]?.map (·.name)).getD ""
  constants : exe.constants.toList = code.blocks.flatMap Block.pooled

/-- The tables after a function has been assembled, and what its routine says of them. -/
theorem LabelFunction.assemble_eq_ok {vars : Array Variable} {order : ByteOrder} {f : LabelFunction}
    {s t : Slots} {r : Routine} (h : f.assemble vars order s = .ok (r, t)) :
    f.block.assemble vars order { s with locals := some (parameterSlots f.parameters) } =
      .ok (r.chunk, t) ∧
      t = ⟨s.constants ++ f.block.pooled.toArray, addSlots s.globals (f.block.globalMentions vars),
        some (f.frameVars vars).toArray⟩ ∧
      r.name = f.name ∧ r.arity = f.arity ∧ r.locals = (f.frameVars vars).length := by
  simp only [LabelFunction.assemble, except_bind_eq_ok] at h
  obtain ⟨⟨chunk, t'⟩, hchunk, h⟩ := h
  cases h
  have ha := Block.assemble_after hchunk
  have hlocals : t'.locals = some (f.frameVars vars).toArray := by
    rw [ha.locals, Option.map_some, Option.some_inj]
    apply Array.toList_inj.1
    show (addSlots (addSlots #[] f.parameters) _).toList = _
    rw [← addSlots_append, toList_addSlots _ _ List.nodup_nil, namedLocals, Block.variables_laidOut]
    rfl
  have hconstants : t'.constants = s.constants ++ f.block.pooled.toArray := by
    rw [ha.constants, Block.pooled_laidOut]
  have hglobals : t'.globals = addSlots s.globals (f.block.globalMentions vars) := by
    rw [ha.globals, namedGlobals, Block.variables_laidOut]
    rfl
  refine ⟨hchunk, ?_, rfl, rfl, by simp [hlocals]⟩
  rw [← hconstants, ← hglobals, ← hlocals]

/-- Entries of the pool and of the table of globals stay where they are. -/
structure Slots.Extends (s t : Slots) : Prop where
  constants : ∀ {k : Nat} {v : Value}, s.constants[k]? = some v → t.constants[k]? = some v
  globals : ∀ {k : Nat} {id : VarId}, s.globals[k]? = some id → t.globals[k]? = some id

/-- **The functions of a program are assembled one by one**, with tables of which nothing is lost
later on. -/
theorem LabelFunction.assembleAll_eq_ok {vars : Array Variable} {order : ByteOrder}
    {fs : List LabelFunction} {s t : Slots} {rs : List Routine}
    (h : assembleAll vars order fs s = .ok (rs, t)) :
    List.Forall₂ (fun f r => ∃ s₁ t₁, f.assemble vars order s₁ = .ok (r, t₁) ∧ t₁.Extends t) fs rs ∧
      t.constants = s.constants ++ (fs.flatMap (·.block.pooled)).toArray ∧
      t.globals = addSlots s.globals (fs.flatMap (·.block.globalMentions vars)) := by
  induction fs generalizing s rs with
  | nil => cases h; exact ⟨.nil, Array.append_empty.symm, rfl⟩
  | cons f fs ih =>
    simp only [assembleAll, except_bind_eq_ok] at h
    obtain ⟨⟨r, s₁⟩, h₁, ⟨rs', s₂⟩, h₂, h₃⟩ := h
    cases h₃
    obtain ⟨-, hs₁, -⟩ := LabelFunction.assemble_eq_ok h₁
    obtain ⟨hrs, hc, hg⟩ := ih h₂
    refine ⟨.cons ⟨s, s₁, h₁, fun hk => hc ▸ getElem?_append_of_some hk, fun hk =>
      hg ▸ addSlots_grows _ hk⟩ hrs, ?_, ?_⟩
    · rw [hc, hs₁, List.flatMap_cons, Array.append_assoc]
      simp
    · rw [hg, hs₁, ← addSlots_append, List.flatMap_cons]

theorem LabelFunction.assemble_spec {vars : Array Variable} {order : ByteOrder} {f : LabelFunction}
    {s t u : Slots} {r : Routine} (h : f.assemble vars order s = .ok (r, t)) (hu : t.Extends u)
    (hf : f.block.labelIds.Nodup) : f.AssembledTo vars u.constants u.globals r := by
  obtain ⟨hchunk, rfl, hname, harity, hlocals⟩ := LabelFunction.assemble_eq_ok h
  exact ⟨hname, harity, hlocals,
    (Block.assemble_spec hchunk hf).1.mono ⟨hu.constants, hu.globals, id⟩⟩

/-- The chunks and the tables of a program that has been assembled. -/
theorem LabelCode.assemble_eq_ok {code : LabelCode} {order : ByteOrder} {exe : Executable}
    (h : code.assemble order = .ok exe) :
    ∃ s t : Slots, code.main.assemble code.vars order ⟨#[], #[], none⟩ = .ok (exe.main, s) ∧
      s.Extends t ∧ s.locals = none ∧
      LabelFunction.assembleAll code.vars order code.functions.toList s =
      .ok (exe.routines.toList, t) ∧
      t.globals = code.globalVars.toArray ∧ exe.constants = t.constants ∧
      exe.constants.toList = code.blocks.flatMap Block.pooled ∧
      exe.globals.toList = code.globalVars.map fun id => (code.vars[id]?.map (·.name)).getD "" := by
  simp only [LabelCode.assemble, except_bind_eq_ok] at h
  obtain ⟨⟨main, s⟩, hmain, ⟨routines, t⟩, hroutines, h⟩ := h
  cases h
  have ha := Block.assemble_after hmain
  obtain ⟨-, hc, hg⟩ := LabelFunction.assembleAll_eq_ok hroutines
  have hglobals : t.globals.toList = code.globalVars := by
    rw [hg, ha.globals, ← addSlots_append, toList_addSlots _ _ List.nodup_nil, namedGlobals,
      Block.variables_laidOut, globalVars, blocks, List.flatMap_cons, List.flatMap_map]
    rfl
  refine ⟨s, t, hmain, ⟨fun hk => hc ▸ getElem?_append_of_some hk, fun hk =>
    hg ▸ addSlots_grows _ hk⟩, ha.locals, hroutines,
    by rw [← hglobals], rfl, ?_, by rw [Array.toList_map, hglobals]⟩
  rw [hc, ha.constants, Block.pooled_laidOut, blocks, List.flatMap_cons, List.flatMap_map]
  simp

/-- **What assembly makes of a program.** -/
theorem LabelCode.assemble_spec {code : LabelCode} {order : ByteOrder} {exe : Executable}
    (h : code.assemble order = .ok exe) (hd : code.DistinctLabels) : code.AssembledTo exe := by
  obtain ⟨s, t, hmain, hst, hlocals, hroutines, htglobals, hexe, hconstants, hglobals⟩ :=
    LabelCode.assemble_eq_ok h
  have hlabels : ∀ f ∈ code.functions.toList, f.block.labelIds.Nodup := fun f hf =>
    hd f.block (List.mem_cons_of_mem _ (List.mem_map_of_mem hf))
  refine ⟨?_, ?_, hglobals, hconstants⟩
  · have hmain' := (Block.assemble_spec hmain (hd code.main List.mem_cons_self)).1
    refine hmain'.mono ⟨fun hk => ?_, fun hk => ?_, fun hk => ?_⟩
    · exact hexe ▸ hst.constants hk
    · exact htglobals ▸ hst.globals hk
    · rw [hlocals] at hk
      cases hk
  · have hall :=
      (List.forall₂_and_left _ _).2 ⟨hlabels, (LabelFunction.assembleAll_eq_ok hroutines).1⟩
    rw [hexe, ← htglobals]
    exact hall.imp fun f r ⟨hf, s₁, t₁, hr, hext⟩ => LabelFunction.assemble_spec hr hext hf

end Stackscript
