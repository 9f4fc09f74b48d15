import Stackscript.Proofs.CodecInverse
import Stackscript.Proofs.Levels
import Stackscript.Proofs.MachineSteps
import Stackscript.Proofs.ShortChunks

/-!
# Operands at every offset of a chunk

The numbers of operands at the instructions of a block are laid out as the instructions are. A jump
that is left out led to the label that follows, with the same number, so at every offset where a
byte instruction stands there is one number, whichever way the offset is reached.

* `levelsFrom`, `Block.levels`, with **`Block.Leveled.levels_spec`**, `Block.Leveled.levels_label`;
* `Op.Graded`, `Chunk.Graded`, **`Block.AssembledTo.graded`**;
* `Executable.Graded`, **`LabelCode.Lowers.graded`**.
-/

namespace Stackscript

/-! ## Laid-out code -/

/-- The numbers of operands at instructions that are reached one after the other. -/
def levelsFrom : Nat → List Instr → List Nat
  | _, [] => []
  | k, i :: code => k :: levelsFrom (k + i.gives - i.takes) code

/-- The numbers of operands at all laid-out instructions of labels. -/
def layoutLevels (ds : List Nat) (ls : List Label) : List Nat :=
  (layout ls).flatMap fun x => levelsFrom (ds[x.1]?.getD 0) x.2

theorem length_levelsFrom (k : Nat) (code : List Instr) :
    (levelsFrom k code).length = code.length := by
  induction code generalizing k with
  | nil => rfl
  | cons i code ih => rw [levelsFrom, List.length_cons, List.length_cons, ih]

theorem layoutLevels_cons (ds : List Nat) (l : Label) (ls : List Label) :
    layoutLevels ds (l :: ls) =
      levelsFrom (ds[l.id]?.getD 0) (l.laidOut (ls.head?.map (·.id))) ++ layoutLevels ds ls := rfl

theorem CodeShifts.getElem?_levels {inCall : Bool} {T : LabelId → Nat → Prop} {code : List Instr}
    {k₀ k₂ n : Nat} {i : Instr} (h : CodeShifts inCall T code k₀ k₂) (hi : code[n]? = some i) :
    ∃ k k', (levelsFrom k₀ code)[n]? = some k ∧ i.Shifts inCall T k k' ∧
      (levelsFrom k₀ code ++ [k₂])[n + 1]? = some k' := by
  induction h generalizing n with
  | nil => simp at hi
  | @cons j code k k₁ k₂ hj hcode ih =>
    have hbalance := hj.balance
    have hk₁ : k + j.gives - j.takes = k₁ := by omega
    rw [levelsFrom, hk₁]
    cases n with
    | zero =>
      cases hi
      refine ⟨k, k₁, rfl, hj, ?_⟩
      cases hcode <;> rfl
    | succ n => exact ih hi

variable {inCall : Bool} {ds : List Nat}

/-- What is laid out of a label ends in an instruction that leaves, or runs into the next label with
the number of operands of that one. -/
theorem Label.Leveled.laidOut {l : Label} {k : Nat} (h : l.Leveled inCall (ds[·]? = some ·) k)
    (hl : l.Closed) (next : Option LabelId) :
    ∃ d k', ds[l.id]? = some d ∧ CodeShifts inCall (ds[·]? = some ·) (l.laidOut next) d k' ∧
      ((∃ i, (l.laidOut next).getLast? = some i ∧ i.leaves = true) ∨
        ∃ target, next = some target ∧ ds[target]? = some k') := by
  obtain ⟨d, hd, hcode⟩ := h
  obtain hsame | ⟨target, hnext, hgoto⟩ := l.laidOut_cases next
  · obtain ⟨i, hi, hleaves⟩ := hl
    rw [hsame]
    exact ⟨d, k, hd, hcode, .inl ⟨i, by rw [Array.getLast?_toList, hi], hleaves⟩⟩
  · rw [hgoto] at hcode
    obtain ⟨k', hcode, hjump⟩ := hcode.of_concat
    refine ⟨d, k', hd, hcode, .inr ⟨target, hnext, ?_⟩⟩
    cases hjump with
    | plain hi => cases hi
    | jump ht hk => cases ht; exact hk

/-- The first laid-out instruction of a label has the number of operands of the label; if there is
none, the label that follows has this number too. -/
theorem layoutLevels_cases {l : Label} (h : (∃ k, l.Leveled inCall (ds[·]? = some ·) k) ∧ l.Closed)
    (ls : List Label) :
    (layoutLevels ds (l :: ls)).head? = ds[l.id]? ∨
      ∃ l' ls', ls = l' :: ls' ∧ ds[l'.id]? = ds[l.id]? ∧
        layoutLevels ds (l :: ls) = layoutLevels ds ls := by
  obtain ⟨⟨k, hl⟩, hclosed⟩ := h
  obtain ⟨d, k', hd, hcode, hend⟩ := hl.laidOut hclosed (ls.head?.map (·.id))
  rw [layoutLevels_cons, hd, Option.getD_some]
  generalize l.laidOut (ls.head?.map (·.id)) = code at hcode hend
  cases code with
  | cons i code => exact .inl rfl
  | nil =>
    obtain ⟨j, hj, -⟩ | ⟨target, hnext, htarget⟩ := hend
    · cases hj
    · cases hcode
      cases ls with
      | nil => cases hnext
      | cons l' ls => cases hnext; exact .inr ⟨l', ls, rfl, htarget, rfl⟩

/-- **The first laid-out instruction of some labels has the number of operands of the first
label.** -/
theorem head?_layoutLevels {l : Label} {ls : List Label}
    (h : ∀ m ∈ l :: ls, (∃ k, m.Leveled inCall (ds[·]? = some ·) k) ∧ m.Closed) :
    (layoutLevels ds (l :: ls)).head? = ds[l.id]? := by
  induction ls generalizing l with
  | nil =>
    obtain h | ⟨l', ls', hls, -⟩ := layoutLevels_cases (h l (by simp)) []
    · exact h
    · cases hls
  | cons l' ls ih =>
    obtain ⟨hl, hls⟩ := List.forall_mem_cons.1 h
    obtain h | ⟨_, _, he, hsame, hlevels⟩ := layoutLevels_cases hl (l' :: ls)
    · exact h
    · cases he
      rw [hlevels, ih hls, hsame]

/-- **At every laid-out instruction** stands its number of operands, and the number that it leads to
stands at the next one, unless it leaves. -/
theorem layoutLevels_spec {ls : List Label} {n : Nat} {i : Instr}
    (h : ∀ m ∈ ls, (∃ k, m.Leveled inCall (ds[·]? = some ·) k) ∧ m.Closed)
    (hi : ((layout ls).flatMap (·.2))[n]? = some i) :
    ∃ k k', (layoutLevels ds ls)[n]? = some k ∧ i.Shifts inCall (ds[·]? = some ·) k k' ∧
      (i.leaves = false → (layoutLevels ds ls)[n + 1]? = some k') := by
  induction ls generalizing n with
  | nil => simp [layout] at hi
  | cons l ls ih =>
    obtain ⟨⟨⟨kl, hl⟩, hclosed⟩, hls⟩ := List.forall_mem_cons.1 h
    obtain ⟨d, k₂, hd, hcode, hend⟩ := hl.laidOut hclosed (ls.head?.map (·.id))
    rw [layoutLevels_cons, hd, Option.getD_some]
    rw [layout, List.flatMap_cons] at hi
    simp only at hi
    generalize l.laidOut (ls.head?.map (·.id)) = code at hi hcode hend
    have hlen := length_levelsFrom d code
    by_cases hn : n < code.length
    · rw [List.getElem?_append_left hn] at hi
      obtain ⟨k, k', hk, hshifts, hk'⟩ := hcode.getElem?_levels hi
      refine ⟨k, k', by rw [List.getElem?_append_left (by omega), hk], hshifts, fun hstay => ?_⟩
      by_cases hn' : n + 1 < code.length
      · rw [List.getElem?_append_left (by omega)] at hk' ⊢
        exact hk'
      · -- the last of the label does not leave, so the jump behind it has been left out
        have hlast : code.getLast? = some i := by
          rw [List.getLast?_eq_getElem?, show code.length - 1 = n by omega, hi]
        obtain ⟨j, hj, hleaves⟩ | ⟨target, hnext, htarget⟩ := hend
        · cases hlast.symm.trans hj
          cases hstay.symm.trans hleaves
        · rw [List.getElem?_append_right (by omega),
            show n + 1 - (levelsFrom d code).length = 0 by omega] at hk' ⊢
          cases hk'
          cases ls with
          | nil => cases hnext
          | cons l' ls =>
            cases hnext
            rw [← List.head?_eq_getElem?, head?_layoutLevels hls]
            exact htarget
    · rw [List.getElem?_append_right (by omega)] at hi
      obtain ⟨k, k', hk, hshifts, hk'⟩ := ih hls hi
      refine ⟨k, k', ?_, hshifts, fun hstay => ?_⟩
      · rw [List.getElem?_append_right (by omega), hlen]
        exact hk
      · rw [List.getElem?_append_right (by omega), hlen, show n + 1 - code.length =
          n - code.length + 1 by omega]
        exact hk' hstay

theorem getElem?_layoutLevels_label (ds : List Nat) (ls : List Label) (k : Nat) :
    (layoutLevels ds ls)[(((layout ls).map (·.2)).take k).flatten.length]? =
      (layoutLevels ds (ls.drop k)).head? := by
  induction ls generalizing k with
  | nil => simp [layout, layoutLevels]
  | cons l ls ih =>
    cases k with
    | zero => simp [List.head?_eq_getElem?]
    | succ k =>
      rw [layoutLevels_cons, layout, List.map_cons, List.take_succ_cons, List.flatten_cons,
        List.length_append,
        List.getElem?_append_right (by rw [length_levelsFrom]; exact Nat.le_add_right _ _),
        length_levelsFrom, Nat.add_sub_cancel_left]
      exact ih k

namespace Block

variable {b : Block}

/-- The numbers of operands at all laid-out instructions. -/
def levels (ds : List Nat) (b : Block) : List Nat := layoutLevels ds b.labels.toList

theorem length_levels (ds : List Nat) (b : Block) : (b.levels ds).length = b.laidOut.length := by
  simp [levels, layoutLevels, laidOut, segments, List.length_flatMap, List.length_flatten,
    length_levelsFrom, Function.comp_def]

theorem Leveled.levels_spec (h : b.Leveled inCall ds) {n : Nat} {i : Instr}
    (hi : b.laidOut[n]? = some i) :
    ∃ k k', (b.levels ds)[n]? = some k ∧ i.Shifts inCall (ds[·]? = some ·) k k' ∧
      (i.leaves = false → (b.levels ds)[n + 1]? = some k') := by
  rw [laidOut, segments, ← List.flatMap_def] at hi
  exact layoutLevels_spec h.labels hi

theorem Leveled.levels_label (h : b.Leveled inCall ds) {k : Nat} {l : LabelId}
    (hl : b.labelIds[k]? = some l) : (b.levels ds)[b.before ⟨k, 0⟩]? = ds[l]? := by
  obtain ⟨m, hm, rfl⟩ : ∃ m, b.labels.toList[k]? = some m ∧ m.id = l := by
    simpa [labelIds] using hl
  have hdrop : b.labels.toList.drop k = m :: b.labels.toList.drop (k + 1) := by
    obtain ⟨hk, rfl⟩ := List.getElem?_eq_some_iff.1 hm
    exact List.drop_eq_getElem_cons hk
  have hlabels : ∀ l ∈ b.labels.toList.drop k, (∃ n, l.Leveled inCall (ds[·]? = some ·) n) ∧
      l.Closed :=
    fun l hl => h.labels l (List.mem_of_mem_drop hl)
  rw [hdrop] at hlabels
  rw [levels, before, segments, Nat.add_zero, getElem?_layoutLevels_label, hdrop]
  exact head?_layoutLevels hlabels

end Block

/-! ## Byte instructions -/

/-- A byte instruction finds its operands, and wherever it leads in its chunk, as many operands as
it leaves are accounted for; a return finds its result alone, and an exit nothing. -/
structure Op.Graded (inCall : Bool) (d : Nat → Option Nat) (next : Nat) (op : Op) (k : Nat) :
    Prop where
  takes : op.takes ≤ k
  goes : ∀ address, op.GoesTo next address → d address = some (k - op.takes + op.gives)
  ret : op = .ret → inCall = true ∧ k = 1
  exit : op = .exit → inCall = false ∧ k = 0

/-- **The numbers of operands at the offsets of a chunk.** There is one at the start and one
wherever a byte instruction leads; and there is one at exactly the byte instructions of the
listing. -/
structure Chunk.Graded (inCall : Bool) (d : Nat → Option Nat) (chunk : Chunk) : Prop where
  start : d 0 = some 0
  step : ∀ {offset k}, d offset = some k → ∃ op, offset < chunk.size ∧
    chunk.decode offset = .ok op ∧ op.Graded inCall d (offset + op.size) k
  listed : ∃ ops, chunk.instructions = .ok ops ∧
    ∀ offset op, (offset, op) ∈ ops ↔ (∃ k, d offset = some k) ∧ chunk.decode offset = .ok op

theorem Instr.Shifts.takes_le {T : LabelId → Nat → Prop} {i : Instr} {k k' : Nat}
    (h : i.Shifts inCall T k k') : i.takes ≤ k := by
  cases h with
  | plain | jump => omega
  | ret | exit => decide

/-- The byte instruction of an instruction that is no jump does the same to the number of
operands. -/
theorem Instr.DraftedAs.plain_cases {vars : Array Variable} {t : Slots} {i : Instr} {op : Op}
    (h : i.DraftedAs vars t (.plain op)) :
    (op = .ret ∧ i = .ret) ∨ (op = .exit ∧ i = .exit) ∨
      (op.takes = i.takes ∧ op.gives = i.gives ∧ i.leaves = false ∧ op ≠ .ret ∧ op ≠ .exit ∧
        ∀ next address, op.GoesTo next address → address = next) := by
  cases h with
  | plain h =>
    cases i with
    | ret => cases h; exact .inl ⟨rfl, rfl⟩
    | exit => cases h; exact .inr (.inl ⟨rfl, rfl⟩)
    | _ => cases h <;> exact .inr (.inr ⟨rfl, rfl, rfl, nofun, nofun, fun _ _ h => h⟩)
  | _ => exact .inr (.inr ⟨rfl, rfl, rfl, nofun, nofun, fun _ _ h => h⟩)

theorem Instr.AssembledAs.graded {vars : Array Variable} {t : Slots} {b : Block} {i : Instr}
    {op : Op} {k k' next : Nat}
    {d : Nat → Option Nat} (h : i.AssembledAs vars t b op)
    (hi : i.Shifts inCall (ds[·]? = some ·) k k') (hnext : i.leaves = false → d next = some k')
    (hlabel : ∀ l n, b.labelIds.idxOf? l = some n → d (UInt32.ofNat (b.address ⟨n, 0⟩)).toNat =
    ds[l]?) : op.Graded inCall d next k := by
  have htakes := hi.takes_le
  have hbalance := hi.balance
  cases h with
  | plain hd =>
    obtain ⟨rfl, rfl⟩ | ⟨rfl, rfl⟩ | ⟨ht, hg, hstay, hret, hexit, hgoes⟩ := hd.plain_cases
    · cases hi with
      | plain hi => cases hi
      | jump hl => cases hl
      | ret hc => exact ⟨Nat.le_refl 1, nofun, fun _ => ⟨hc, rfl⟩, nofun⟩
    · cases hi with
      | plain hi => cases hi
      | jump hl => cases hl
      | exit hc => exact ⟨Nat.le_refl 0, nofun, nofun, fun _ => ⟨hc, rfl⟩⟩
    · refine ⟨ht ▸ htakes, fun address ha => ?_, fun h => absurd h hret, fun h => absurd h hexit⟩
      rw [hgoes next address ha, hnext hstay, ht, hg]
      exact congrArg some (by omega)
  | goto hn =>
    cases hi with
    | plain hi => cases hi
    | jump hl hk =>
      cases hl
      refine ⟨Nat.zero_le _, fun address ha => ?_, nofun, nofun⟩
      cases ha
      exact (hlabel _ _ hn).trans hk
  | popJumpIfZero hn =>
    cases hi with
    | plain hi => cases hi
    | jump hl hk =>
      cases hl
      refine ⟨Nat.le_add_left 1 _, fun address ha => ?_, nofun, nofun⟩
      rcases ha with rfl | rfl
      · exact hnext rfl
      · exact (hlabel _ _ hn).trans hk
  | popJumpIfNonzero hn =>
    cases hi with
    | plain hi => cases hi
    | jump hl hk =>
      cases hl
      refine ⟨Nat.le_add_left 1 _, fun address ha => ?_, nofun, nofun⟩
      rcases ha with rfl | rfl
      · exact hnext rfl
      · exact (hlabel _ _ hn).trans hk

/-! ## Chunks -/

/-- The number of operands at an offset: that of the byte instruction that starts there. -/
def levelAt : List Op → List Nat → Nat → Option Nat
  | op :: ops, k :: ks, offset =>
    if offset = 0 then some k else if op.size ≤ offset then levelAt ops ks (offset - op.size)
      else none
  | _, _, _ => none

theorem levelAt_opsSize {ops : List Op} {ks : List Nat} (h : ks.length = ops.length) (n : Nat) :
    levelAt ops ks (Chunk.opsSize (ops.take n)) = ks[n]? := by
  induction ops generalizing ks n with
  | nil =>
    obtain rfl : ks = [] := List.length_eq_zero_iff.1 h
    rfl
  | cons op ops ih =>
    cases ks with
    | nil => cases h
    | cons k ks =>
      cases n with
      | zero => rfl
      | succ n =>
        have hpos := op.size_pos
        rw [List.take_succ_cons, Chunk.opsSize_cons, levelAt, if_neg (by omega), if_pos (by omega),
          Nat.add_sub_cancel_left, ih (Nat.succ.inj h), List.getElem?_cons_succ]

theorem exists_of_levelAt {ops : List Op} {ks : List Nat} {offset k : Nat}
    (h : levelAt ops ks offset = some k) :
    ∃ n op, offset = Chunk.opsSize (ops.take n) ∧ ops[n]? = some op ∧ ks[n]? = some k := by
  induction ops generalizing ks offset with
  | nil => cases h
  | cons op ops ih =>
    cases ks with
    | nil => cases h
    | cons k₀ ks =>
      rw [levelAt] at h
      split at h
      case isTrue h₀ => cases h; exact ⟨0, op, h₀, rfl, rfl⟩
      case isFalse =>
        split at h
        case isTrue hle =>
          obtain ⟨n, op', hn, hop, hk⟩ := ih h
          refine ⟨n + 1, op', ?_, hop, hk⟩
          rw [List.take_succ_cons, Chunk.opsSize_cons, ← hn]
          omega
        case isFalse => cases h

/-- **The chunk of a block has a number of operands at every offset that is reached.** -/
theorem Block.AssembledTo.graded {vars : Array Variable} {t : Slots} {b : Block} {chunk : Chunk}
    (h : b.AssembledTo vars t chunk) (hb : b.Leveled inCall ds) (hs : chunk.size < UInt32.size) :
    ∃ d, chunk.Graded inCall d := by
  have hsize := h.size_eq
  obtain ⟨order, ops, rfl, hops⟩ := h
  have hlength : (b.levels ds).length = ops.length := by rw [b.length_levels, hops.length_eq]
  have haddress : ∀ n, Chunk.opsSize (ops.take n) = codeSize (b.laidOut.take n) := fun n =>
    opsSize_eq_codeSize (List.forall₂_take n hops)
  have hlabel : ∀ l n, b.labelIds.idxOf? l = some n →
      levelAt ops (b.levels ds) (UInt32.ofNat (b.address ⟨n, 0⟩)).toNat = ds[l]? := by
    intro l n hn
    have hle := b.address_le ⟨n, 0⟩
    rw [UInt32.toNat_ofNat_of_lt' (by omega), Block.address, ← haddress, levelAt_opsSize hlength]
    obtain ⟨hlt, rfl, -⟩ := List.idxOf?_eq_some_iff.1 hn
    exact hb.levels_label (List.getElem?_eq_getElem hlt)
  have hinstr : ∀ {n : Nat} {op : Op}, ops[n]? = some op → ∃ k, (b.levels ds)[n]? = some k ∧
      op.Graded inCall (levelAt ops (b.levels ds)) (Chunk.opsSize (ops.take n) + op.size) k := by
    intro n op hop
    obtain ⟨-, hnone⟩ | ⟨i, op', hi, hop', hassembled⟩ := getElem?_of_forall₂ hops n
    · cases hop.symm.trans hnone
    cases hop.symm.trans hop'
    obtain ⟨k, k', hk, hshifts, hk'⟩ := hb.levels_spec hi
    refine ⟨k, hk, hassembled.graded hshifts (fun hstay => ?_) hlabel⟩
    rw [← Chunk.opsSize_take_succ hop, levelAt_opsSize hlength, hk' hstay]
  refine ⟨levelAt ops (b.levels ds), ?_, fun {offset k} hk => ?_, ?_⟩
  · obtain ⟨l, hl, h₀⟩ := hb.first
    rw [List.head?_eq_getElem?] at hl
    exact (levelAt_opsSize hlength 0).trans ((hb.levels_label hl).trans h₀)
  · obtain ⟨n, op, rfl, hop, hk⟩ := exists_of_levelAt hk
    obtain ⟨k', hk', hgraded⟩ := hinstr hop
    cases hk.symm.trans hk'
    refine ⟨op, ?_, Chunk.decode_ofOps hop, hgraded⟩
    rw [Chunk.size_ofOps]
    exact Chunk.opsSize_take_lt hop
  · refine ⟨_, Chunk.instructions_eq_located order ops, fun offset op =>
      Chunk.mem_located.trans ⟨?_, ?_⟩⟩
    · rintro ⟨n, rfl, hop⟩
      obtain ⟨k, hk, -⟩ := hinstr hop
      exact ⟨⟨k, by rw [levelAt_opsSize hlength, hk]⟩, Chunk.decode_ofOps hop⟩
    · rintro ⟨⟨k, hk⟩, hdecode⟩
      obtain ⟨n, op', rfl, hop, -⟩ := exists_of_levelAt hk
      cases (Chunk.decode_ofOps hop).symm.trans hdecode
      exact ⟨n, rfl, hop⟩

/-! ## Executables -/

/-- The chunk of the top level, or that of a routine. -/
def Executable.chunkOf (exe : Executable) : Option Nat → Option Chunk
  | none => some exe.main
  | some index => exe.routines[index]?.map (·.chunk)

/-- **The numbers of operands at the offsets of all chunks of an executable.** -/
def Executable.Graded (exe : Executable) (d : Option Nat → Nat → Option Nat) : Prop :=
  ∀ c chunk, exe.chunkOf c = some chunk → chunk.Graded c.isSome (d c)

theorem Block.Leveled.foldIf {b : Block} (h : b.Leveled inCall ds) (folding : Bool) :
    (b.foldIf folding).Leveled inCall ds := by
  cases folding with
  | true => exact h.fold
  | false => exact h

theorem Block.Finished.graded {vars : Array Variable} {t : Slots} {b : Block} {chunk : Chunk}
    {final : Instr}
    {fits : Prop} {folding : Bool} (h : b.Finished vars inCall final fits)
    (hfinal : final.leaves = true)
    (ha : (b.foldIf folding).AssembledTo vars t chunk) (hs : chunk.size < UInt32.size) :
    ∃ d, chunk.Graded inCall d := by
  have hweight := Nat.le_trans (b.foldedWeight_le_foldIf folding) ha.weight_le
  obtain ⟨ds, hds⟩ := h.leveled hfinal (Nat.lt_of_le_of_lt hweight hs)
  exact ha.graded (hds.foldIf folding) hs

/-- **A program with short chunks has a number of operands at every offset.** -/
theorem LabelCode.Lowers.graded {code : LabelCode} {p : Program} {exe : Executable} {folding : Bool}
    (hl : code.Lowers p) (ha : (code.foldIf folding).AssembledTo exe) (hs : exe.Short) :
    ∃ d, exe.Graded d := by
  have hchunk : ∀ c, ∃ d, ∀ chunk, exe.chunkOf c = some chunk → chunk.Graded c.isSome d := by
    intro c
    cases c with
    | none =>
      have hmain := ha.main
      rw [LabelCode.main_foldIf, LabelCode.vars_foldIf, hl.main] at hmain
      obtain ⟨d, hd⟩ := (p.finished_main hl.top).graded rfl hmain hs.main
      exact ⟨d, fun chunk hc => by cases hc; exact hd⟩
    | some index =>
      obtain ⟨-, hnone⟩ | ⟨f, r, hf, hr, hfr⟩ := getElem?_of_forall₂ (hl.forall₂_routines ha) index
      · refine ⟨fun _ => none, fun chunk hc => ?_⟩
        rw [Executable.chunkOf, ← Array.getElem?_toList, hnone] at hc
        cases hc
      · have hshort := hs.routines r (List.mem_of_getElem? hr)
        have hfinished := f.finished_block (hl.accepted f (List.mem_of_getElem? hf))
        obtain ⟨d, hd⟩ := hfinished.graded rfl hfr.chunk hshort
        refine ⟨d, fun chunk hc => ?_⟩
        rw [Executable.chunkOf, ← Array.getElem?_toList, hr] at hc
        cases hc
        exact hd
  choose d hd using hchunk
  exact ⟨d, hd⟩

end Stackscript
