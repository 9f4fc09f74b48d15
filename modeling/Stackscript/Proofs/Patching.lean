import Stackscript.Proofs.Layout

/-!
# Filling in addresses later

The chunk of a block can also be written in one pass: a jump gets a zero address, and the hole and
its label are kept. When all labels have offsets, the holes are filled in, in the order in which
they were left. There is always room at a hole, and the result is that of resolving the drafts
first: the same chunk and tables, or the same fault.

* `HoledChunk`: `emit`, `start`, `emitLabels`; `fill`; `Block.assemblePatched`;
* `Chunk.insertAddress?_append`: an address is written over four bytes, and nothing else changes;
* `HoledChunk.foldl_emit`, `fill_holes`: what one pass leaves, and what filling makes of it;
* **`Block.assemblePatched_eq`**.
-/

namespace Stackscript

/-- A chunk in which addresses are still open. -/
structure HoledChunk where
  chunk : Chunk
  /-- The offsets of the open addresses, each with its label, in order. -/
  holes : List (Nat × LabelId)
  /-- The offsets at which labels start, the last label first. -/
  offsets : List (LabelId × Nat)

namespace HoledChunk

def empty (order : ByteOrder) : HoledChunk := ⟨.empty order, [], []⟩

/-- Adds a jump, with a hole for its address. -/
def jump (h : HoledChunk) (opcode : Opcode) (target : LabelId) : HoledChunk :=
  let (hole, chunk) := (h.chunk.pushByte opcode.byte).reserveAddress
  { h with chunk, holes := h.holes ++ [(hole, target)] }

/-- Adds an instruction. -/
def emit (h : HoledChunk) : Draft → HoledChunk
  | .plain op => { h with chunk := h.chunk.push op }
  | .goto l => h.jump .goto l
  | .popJumpIfZero l => h.jump .popJumpIfZero l
  | .popJumpIfNonzero l => h.jump .popJumpIfNonzero l

/-- A label starts where the chunk ends. -/
def start (h : HoledChunk) (l : LabelId) : HoledChunk :=
  { h with offsets := (l, h.chunk.size) :: h.offsets }

/-- Drafts and adds a list of instructions in order. -/
def emitAll (vars : Array Variable) :
    List Instr → HoledChunk → Slots → Except AssemblyFault (HoledChunk × Slots)
  | [], h, s => .ok (h, s)
  | i :: is, h, s => do
    let (d, s) ← draft vars i s
    emitAll vars is (h.emit d) s

/-- Drafts and adds labels in order. -/
def emitLabels (vars : Array Variable) :
    List (LabelId × List Instr) → HoledChunk → Slots → Except AssemblyFault (HoledChunk × Slots)
  | [], h, s => .ok (h, s)
  | (l, code) :: ls, h, s => do
    let (h, s) ← emitAll vars code (h.start l) s
    emitLabels vars ls h s

end HoledChunk

/-- Fills in holes in order. There is no result if a hole does not have room for an address. -/
def fill (offsets : List (LabelId × Nat)) :
    List (Nat × LabelId) → Chunk → Option (Except AssemblyFault Chunk)
  | [], c => some (.ok c)
  | (hole, l) :: holes, c =>
    match offsets.lookup l with
    | none => some (.error (.unboundLabel l))
    | some offset => (c.insertAddress? hole (UInt32.ofNat offset)).bind (fill offsets holes)

/-- The chunk of a block by filling in addresses, and the tables after drafting it. -/
def Block.assemblePatched (vars : Array Variable) (order : ByteOrder) (b : Block) (s : Slots) :
    Option (Except AssemblyFault (Chunk × Slots)) :=
  match HoledChunk.emitLabels vars (layout b.labels.toList) (.empty order) s with
  | .error e => some (.error e)
  | .ok (h, s) => (fill h.offsets h.holes h.chunk).map fun r => r.map fun c => (c, s)

/-! ## Chunks -/

namespace Chunk

theorem size_append (c : Chunk) (bytes : List UInt8) :
    (c.append bytes).size = c.size + bytes.length := by
  rw [size, size, ← Array.length_toList, toList_append, List.length_append, Array.length_toList]

/-- Bytes that are written one by one stand in place of as many bytes. -/
theorem foldl_setIfInBounds {start k : Nat} {bytes pre old post : List UInt8} {code : Array UInt8}
    (hcode : code.toList = pre ++ (old ++ post)) (hpre : pre.length = start + k)
    (hold : old.length = bytes.length) :
    ((bytes.zipIdx k).foldl (fun code (b, i) => code.setIfInBounds (start + i) b) code).toList =
      pre ++ (bytes ++ post) := by
  induction bytes generalizing k pre old code with
  | nil =>
    rw [List.length_eq_zero_iff.1 hold] at hcode
    exact hcode
  | cons b bytes ih =>
    obtain ⟨o, old, rfl⟩ := List.exists_cons_of_length_eq_add_one hold
    have hset : (code.setIfInBounds (start + k) b).toList = pre ++ [b] ++ (old ++ post) := by
      rw [Array.toList_setIfInBounds, hcode, ← hpre, List.set_append_right _ _ (Nat.le_refl _),
        Nat.sub_self]
      simp
    rw [List.zipIdx_cons, List.foldl_cons, ih hset (by simp [hpre]; omega) (by simpa using hold)]
    simp

/-- **An address is written over the four bytes at its offset**, and nothing else changes. -/
theorem insertAddress?_append (c : Chunk) {old post : List UInt8} (h : old.length = 4)
    (address : UInt32) : (c.append (old ++ post)).insertAddress? c.size address =
      some (c.append (c.order.split 4 address.toNat ++ post)) := by
  have hold : old.length = (c.order.split 4 address.toNat).length := by
    rw [h, ByteOrder.length_split]
  rw [insertAddress?, if_pos (by rw [size_append, List.length_append]; omega)]
  refine congrArg (fun code => some (Chunk.mk c.order code)) (Array.toList_inj.1 ?_)
  exact (foldl_setIfInBounds (c.toList_append _) rfl hold).trans (c.toList_append _).symm

end Chunk

/-! ## What one pass leaves -/

namespace Draft

/-- The instruction with a zero for an open address. -/
def blank : Draft → Op
  | .plain op => op
  | .goto _ => .goto 0
  | .popJumpIfZero _ => .popJumpIfZero 0
  | .popJumpIfNonzero _ => .popJumpIfNonzero 0

/-- The open address of an instruction at an offset. -/
def hole? (offset : Nat) : Draft → Option (Nat × LabelId)
  | .plain _ => none
  | .goto l | .popJumpIfZero l | .popJumpIfNonzero l => some (offset + 1, l)

/-- The open addresses of instructions from an offset on. -/
def holes (offset : Nat) : List Draft → List (Nat × LabelId)
  | [] => []
  | d :: ds => (d.hole? offset).toList ++ holes (offset + d.size) ds

/-- The bytes of instructions with zeros for open addresses. -/
def blanks (order : ByteOrder) (ds : List Draft) : List UInt8 :=
  ds.flatMap fun d => d.blank.encode order

theorem size_blank (d : Draft) : d.blank.size = d.size := by cases d <;> rfl

theorem size_push_blank (c : Chunk) (d : Draft) : (c.push d.blank).size = c.size + d.size := by
  rw [Chunk.push, Chunk.size_append, Op.length_encode, size_blank]

theorem holes_append (offset : Nat) (ds ds' : List Draft) :
    holes offset (ds ++ ds') = holes offset ds ++ holes (offset + draftsSize ds) ds' := by
  induction ds generalizing offset with
  | nil => rfl
  | cons d ds ih =>
    rw [List.cons_append, holes, holes, ih, draftsSize, List.append_assoc, Nat.add_assoc]

theorem blanks_append (order : ByteOrder) (ds ds' : List Draft) :
    blanks order (ds ++ ds') = blanks order ds ++ blanks order ds' := List.flatMap_append

theorem length_blanks (order : ByteOrder) (ds : List Draft) :
    (blanks order ds).length = draftsSize ds := by
  induction ds with
  | nil => rfl
  | cons d ds ih =>
    rw [draftsSize, ← ih, ← size_blank, ← Op.length_encode order]
    exact List.length_append

end Draft

namespace HoledChunk

theorem jump_eq (h : HoledChunk) (opcode : Opcode) (target : LabelId) : h.jump opcode target =
    ⟨h.chunk.append (opcode.byte :: h.chunk.order.split 4 0),
      h.holes ++ [(h.chunk.size + 1, target)], h.offsets⟩ := by
  rw [jump, Chunk.pushByte, Chunk.reserveAddress, Chunk.pushWord, Chunk.append_append,
    Chunk.size_append]
  rfl

theorem emit_eq (h : HoledChunk) (d : Draft) : h.emit d =
    ⟨h.chunk.push d.blank, h.holes ++ (d.hole? h.chunk.size).toList, h.offsets⟩ := by
  cases d with
  | plain op => rw [emit, Draft.hole?, Option.toList_none, List.append_nil]; rfl
  | goto l | popJumpIfZero l | popJumpIfNonzero l => exact h.jump_eq _ l

/-- **What is left of instructions that are added**: their bytes, with zeros in the holes. -/
theorem foldl_emit (ds : List Draft) (h : HoledChunk) : ds.foldl emit h =
    ⟨h.chunk.append (Draft.blanks h.chunk.order ds), h.holes ++ Draft.holes h.chunk.size ds,
      h.offsets⟩ := by
  induction ds generalizing h with
  | nil => simp [Draft.blanks, Draft.holes, Chunk.append_nil]
  | cons d ds ih =>
    rw [List.foldl_cons, ih, emit_eq]
    simp only [Draft.size_push_blank, Draft.blanks, List.flatMap_cons, ← Chunk.append_append,
      Draft.holes, List.append_assoc]
    rfl

theorem emitAll_eq (vars : Array Variable) (is : List Instr) (h : HoledChunk) (s : Slots) :
    emitAll vars is h s = (draftAll vars is s).map fun (ds, s) => (ds.foldl emit h, s) := by
  induction is generalizing h s with
  | nil => rfl
  | cons i is ih =>
    rw [emitAll, draftAll]
    cases draft vars i s with
    | error e => rfl
    | ok r =>
      refine (ih (h.emit r.1) r.2).trans ?_
      show _ = Except.map _ (do let r' ← draftAll vars is r.2; return (r.1 :: r'.1, r'.2))
      cases draftAll vars is r.2 <;> rfl

/-- Adds labels whose instructions have been drafted. -/
def addLabels (h : HoledChunk) (drafts : List (LabelId × List Draft)) : HoledChunk :=
  drafts.foldl (fun h (l, ds) => ds.foldl emit (h.start l)) h

theorem emitLabels_eq (vars : Array Variable) (ls : List (LabelId × List Instr)) (h : HoledChunk)
    (s : Slots) :
    emitLabels vars ls h s = (draftLabels vars ls s).map fun (ds, s) => (h.addLabels ds, s) := by
  induction ls generalizing h s with
  | nil => rfl
  | cons l ls ih =>
    rw [emitLabels, draftLabels, emitAll_eq]
    cases draftAll vars l.2 s with
    | error e => rfl
    | ok r =>
      refine (ih (r.1.foldl emit (h.start l.1)) r.2).trans ?_
      show _ = Except.map _ (do let r' ← draftLabels vars ls r.2; return ((l.1, r.1) :: r'.1, r'.2))
      cases draftLabels vars ls r.2 <;> rfl

/-- **What is left of labels that are added**; each has the offset at which it starts. -/
theorem addLabels_eq (drafts : List (LabelId × List Draft)) (h : HoledChunk) :
    h.addLabels drafts =
      ⟨h.chunk.append (Draft.blanks h.chunk.order (drafts.flatMap (·.2))),
        h.holes ++ Draft.holes h.chunk.size (drafts.flatMap (·.2)),
        labelOffsets h.chunk.size h.offsets drafts⟩ := by
  induction drafts generalizing h with
  | nil => simp [addLabels, Draft.blanks, Draft.holes, labelOffsets, Chunk.append_nil]
  | cons d drafts ih =>
    refine (ih _).trans ?_
    simp only [foldl_emit, start, List.flatMap_cons, Draft.holes_append, Draft.length_blanks,
      Chunk.size_append, Draft.blanks_append, Chunk.append_append, List.append_assoc]
    rfl

end HoledChunk

/-! ## Filling in -/

theorem Draft.size_of_resolve {offsets : List (LabelId × Nat)} {d : Draft} {op : Op}
    (h : d.resolve offsets = .ok op) : op.size = d.size := by
  cases d with
  | plain _ =>
    cases h
    rfl
  | goto l | popJumpIfZero l | popJumpIfNonzero l =>
    obtain ⟨offset, -, rfl⟩ := address_eq_ok h
    rfl

variable (offsets : List (LabelId × Nat))

theorem fill_jump {c : Chunk} {make : UInt32 → Op} {b : UInt8}
    (hmake : ∀ w, (make w).encode c.order = b :: c.order.split 4 w.toNat) (l : LabelId)
    (holes : List (Nat × LabelId)) (post : List UInt8) :
    fill offsets ((c.size + 1, l) :: holes) (c.append ((make 0).encode c.order ++ post)) =
      match Draft.address offsets l make with
      | .error e => some (.error e)
      | .ok op => fill offsets holes (c.append (op.encode c.order ++ post)) := by
  have hencode (w : UInt32) : c.append ((make w).encode c.order ++ post) =
      (c.append [b]).append (c.order.split 4 w.toNat ++ post) := by
    rw [hmake, Chunk.append_append]
    rfl
  rw [fill, Draft.address]
  cases offsets.lookup l with
  | none => rfl
  | some offset =>
    have hzero : (c.order.split 4 (0 : UInt32).toNat).length = 4 := ByteOrder.length_split ..
    have hsize : (c.append [b]).size = c.size + 1 := c.size_append [b]
    simp only
    rw [hencode, ← hsize, Chunk.insertAddress?_append _ hzero, hencode]
    rfl

/-- Filling in the hole of an instruction, if it has one, resolves the instruction. -/
theorem fill_hole (d : Draft) (c : Chunk) (holes : List (Nat × LabelId)) (post : List UInt8) :
    fill offsets ((d.hole? c.size).toList ++ holes) (c.append (d.blank.encode c.order ++ post)) =
      match d.resolve offsets with
      | .error e => some (.error e)
      | .ok op => fill offsets holes (c.append (op.encode c.order ++ post)) := by
  cases d with
  | plain op => rfl
  | goto l | popJumpIfZero l | popJumpIfNonzero l =>
    exact fill_jump offsets (fun _ => rfl) l holes post

/-- **Filling in the holes of instructions resolves them**, or fails at the same label. -/
theorem fill_holes (ds : List Draft) (c : Chunk) :
    fill offsets (Draft.holes c.size ds) (c.append (Draft.blanks c.order ds)) =
      some ((ds.mapM (Draft.resolve offsets)).map fun ops =>
        c.append (ops.flatMap (Op.encode c.order))) := by
  induction ds generalizing c with
  | nil => rfl
  | cons d ds ih =>
    rw [Draft.holes, Draft.blanks, List.flatMap_cons, fill_hole, List.mapM_cons]
    cases hop : d.resolve offsets with
    | error e => rfl
    | ok op =>
      have hsize : (c.push op).size = c.size + d.size := by
        rw [Chunk.push, Chunk.size_append, Op.length_encode, Draft.size_of_resolve hop]
      simp only
      rw [← Chunk.append_append, ← hsize]
      refine (ih (c.push op)).trans ?_
      cases ds.mapM (Draft.resolve offsets) with
      | error e => rfl
      | ok ops => exact congrArg (fun c => some (Except.ok c)) (Chunk.append_append ..)

/-- **A block is assembled by filling in its addresses.** There is room at every hole, and the
chunk, the tables and the fault are those of `Block.assemble`. -/
theorem Block.assemblePatched_eq (vars : Array Variable) (order : ByteOrder) (b : Block)
    (s : Slots) : b.assemblePatched vars order s = some (b.assemble vars order s) := by
  rw [assemblePatched, assemble, HoledChunk.emitLabels_eq]
  cases draftLabels vars (layout b.labels.toList) s with
  | error e => rfl
  | ok r =>
    obtain ⟨drafts, s'⟩ := r
    have hfill := fill_holes (labelOffsets 0 [] drafts) (drafts.flatMap (·.2)) (.empty order)
    simp only [Except.map, HoledChunk.addLabels_eq]
    refine (congrArg (Option.map _) hfill).trans (congrArg some ?_)
    show _ = ((drafts.flatMap Prod.snd).mapM (Draft.resolve (labelOffsets 0 [] drafts))).bind
      fun ops => .ok (Chunk.ofOps order ops, s')
    cases (drafts.flatMap Prod.snd).mapM (Draft.resolve (labelOffsets 0 [] drafts)) with
    | error e => rfl
    | ok ops => exact congrArg (fun c => Except.ok (c, s')) (Chunk.foldl_push ops _).symm

end Stackscript
