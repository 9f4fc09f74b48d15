import Mathlib.Data.List.Perm.Subperm
import Stackscript.Proofs.AssemblyRefinement
import Stackscript.Proofs.CallSimulation
import Stackscript.Proofs.CodeBounds
import Stackscript.Session

/-!
# Programs with short chunks

Addresses in chunks are words. Where all chunks are short enough for that, so are the other things
that a program counts: the items of its array literals, and its variables, each of which is named by
an instruction.

* `Executable.Short`, `LabelCode.foldIf`;
* **`LabelCode.Lowers.fits`**, **`LabelCode.Lowers.addressable`**;
* `Settings.executable_of_labelCode`: how the executable of a text comes about;
  `Settings.exists_short_executable`, for a given text.
-/

namespace Stackscript

/-- Every byte of every chunk has an address. -/
structure Executable.Short (exe : Executable) : Prop where
  main : exe.main.size < UInt32.size
  routines : ∀ r ∈ exe.routines.toList, r.chunk.size < UInt32.size

instance (exe : Executable) : Decidable exe.Short :=
  decidable_of_iff (exe.main.size < UInt32.size ∧ ∀ r ∈ exe.routines.toList, r.chunk.size <
    UInt32.size) ⟨fun h => ⟨h.1, h.2⟩, fun h => ⟨h.main, h.routines⟩⟩

/-- The block, folded if so chosen. -/
def Block.foldIf (folding : Bool) (b : Block) : Block := if folding then b.fold else b

/-- The function, folded if so chosen. -/
def LabelFunction.foldIf (folding : Bool) (f : LabelFunction) : LabelFunction :=
  { f with block := f.block.foldIf folding }

/-- The program, folded if so chosen. -/
def LabelCode.foldIf (folding : Bool) (code : LabelCode) : LabelCode :=
  if folding then code.fold else code

section FoldIf

variable (folding : Bool) (code : LabelCode) (b : Block)

theorem Block.mentions_foldIf : (b.foldIf folding).mentions = b.mentions := by
  cases folding with
  | true => exact b.mentions_fold
  | false => rfl

theorem Block.foldedWeight_le_foldIf : b.foldedWeight ≤ codeWeight (b.foldIf folding).instrs := by
  cases folding with
  | true => exact Nat.le_of_eq b.foldedWeight_eq
  | false => exact b.foldedWeight_le

theorem LabelCode.main_foldIf : (code.foldIf folding).main = code.main.foldIf folding := by
  cases folding <;> rfl

theorem LabelCode.vars_foldIf : (code.foldIf folding).vars = code.vars := by cases folding <;> rfl

theorem LabelCode.functions_foldIf :
    (code.foldIf folding).functions = code.functions.map (LabelFunction.foldIf folding) := by
  cases folding with
  | true => rfl
  | false => exact (Array.map_id _).symm

theorem LabelCode.globalVars_foldIf : (code.foldIf folding).globalVars = code.globalVars := by
  cases folding with
  | true => exact globalVars_fold code
  | false => rfl

theorem LabelFunction.frameVars_foldIf (vars : Array Variable) (f : LabelFunction) :
    (f.foldIf folding).frameVars vars = f.frameVars vars := by
  cases folding with
  | true => exact frameVars_fold vars f
  | false => rfl

end FoldIf

theorem LabelCode.ControlSound.foldIf {code : LabelCode} (h : code.ControlSound) (folding : Bool) :
    (code.foldIf folding).ControlSound := by
  cases folding with
  | true => exact h.fold
  | false => exact h

theorem LabelCode.Assembles.foldIf {code : LabelCode} (h : code.Assembles) (folding : Bool) :
    (code.foldIf folding).Assembles := by
  cases folding with
  | true => exact h.fold
  | false => exact h

/-! ## Counting -/

theorem length_le_of_subset {ids named : List VarId} (hn : ids.Nodup) (hs : ids ⊆ named) :
    ids.length ≤ named.length := (hn.subperm hs).length_le

/-- Every instruction that names a variable takes five bytes. -/
theorem five_mul_mentions_le (code : List Instr) :
    5 * (code.filterMap Instr.mention?).length ≤ codeSize code := by
  induction code with
  | nil => exact Nat.le_refl 0
  | cons i code ih =>
    have hcons : codeSize (i :: code) = i.byteSize + codeSize code := rfl
    rw [hcons, List.filterMap_cons]
    cases i with
    | load | store => simp only [Instr.mention?, Instr.byteSize, List.length_cons]; omega
    | _ => simp only [Instr.mention?]; omega

theorem Block.AssembledTo.mentions_le {vars : Array Variable} {t : Slots} {b : Block}
    {chunk : Chunk} (h : b.AssembledTo vars t chunk) : 5 * b.mentions.length ≤ chunk.size := by
  rw [← b.variables_laidOut, h.size_eq]
  exact five_mul_mentions_le _

theorem Block.Finished.fits_of_short {vars : Array Variable} {t : Slots} {b : Block} {chunk : Chunk}
    {inCall : Bool}
    {final : Instr} {fits : Prop} {folding : Bool} (h : b.Finished vars inCall final fits)
    (ha : (b.foldIf folding).AssembledTo vars t chunk) (hs : chunk.size < UInt32.size) : fits :=
  h.fits (Nat.lt_of_le_of_lt (Nat.le_trans (b.foldedWeight_le_foldIf folding) ha.weight_le) hs)

section Programs

variable {code : LabelCode} {p : Program} {exe : Executable} {folding : Bool}

/-- The functions of a lowered program and the routines that they are assembled to. -/
theorem LabelCode.Lowers.forall₂_routines (hl : code.Lowers p)
    (ha : (code.foldIf folding).AssembledTo exe) :
    List.Forall₂ (fun f r =>
      LabelFunction.AssembledTo code.vars exe.constants code.globalVars.toArray
      (f.lowered.foldIf folding) r) p.functions exe.routines.toList := by
  have h := ha.routines
  rw [LabelCode.vars_foldIf, LabelCode.globalVars_foldIf, LabelCode.functions_foldIf,
    Array.toList_map, hl.functions, List.map_map, List.forall₂_map_left_iff] at h
  exact h

/-- A function has few variables: besides the parameters, one for every fifth byte. -/
theorem FunctionDef.cells_le {f : FunctionDef} {r : Routine} {vars : Array Variable}
    {constants : Array Value} {globals : Array VarId} (hf : f.Accepted vars) (ho : f.names.Ordered)
    (ha : LabelFunction.AssembledTo vars constants globals (f.lowered.foldIf folding) r) :
    r.locals = f.cells ∧ 5 * r.locals ≤ 5 * maxArguments + r.chunk.size := by
  have hlocals : r.locals = (f.lowered.frameVars vars).length := by
    rw [ha.locals, LabelFunction.frameVars_foldIf]
  have hmentions := ha.chunk.mentions_le
  rw [show (f.lowered.foldIf folding).block = f.block.foldIf folding from rfl,
    Block.mentions_foldIf] at hmentions
  have hle : (f.lowered.frameVars vars).length ≤ (f.paramIds ++ f.block.mentions).length := by
    refine length_le_of_subset (frameVars_nodup vars _) fun id hid => ?_
    rw [LabelFunction.frameVars, List.mem_eraseDups, List.mem_append] at hid
    exact List.mem_append.2 (hid.imp_right fun h => (List.mem_filter.1 h).1)
  have hparams : f.paramIds.length = f.params.length := List.length_range'
  have hcount := hf.params
  rw [List.length_append, hparams, ← hlocals] at hle
  refine ⟨by rw [hlocals, f.length_frameVars hf ho], ?_⟩
  omega

/-- The variables of a call can be counted. -/
theorem LabelCode.Lowers.fits_locals (hl : code.Lowers p)
    (ha : (code.foldIf folding).AssembledTo exe) (hs : exe.Short)
    {r : Routine} (hr : r ∈ exe.routines.toList) : Frame.fits r.locals = true := by
  obtain ⟨f, hf, hfr⟩ := exists_mem_of_forall₂ (hl.forall₂_routines ha).flip hr
  have hshort := hs.routines r hr
  have hcells := f.cells_le (hl.accepted f hf) (hl.ordered hf).1 hfr
  have : 5 * maxArguments + UInt32.size < 2 ^ 33 := by decide
  rw [Frame.fits, decide_eq_true_eq]
  show 40 * r.locals < 2 ^ 63
  omega

/-- **What a program with short chunks counts can be counted**: the items of its array literals, and
the variables of its calls. -/
theorem LabelCode.Lowers.fits (hl : code.Lowers p) (ha : (code.foldIf folding).AssembledTo exe)
    (hs : exe.Short) : p.Fits := by
  have hmain := ha.main
  rw [LabelCode.main_foldIf, LabelCode.vars_foldIf, hl.main] at hmain
  refine ⟨(p.finished_main hl.top).fits_of_short hmain hs.main, fun f hf => ?_⟩
  obtain ⟨r, hr, hfr⟩ := exists_mem_of_forall₂ (hl.forall₂_routines ha) hf
  refine ⟨?_, (f.finished_block (hl.accepted f hf)).fits_of_short hfr.chunk (hs.routines r hr)⟩
  rw [← (f.cells_le (hl.accepted f hf) (hl.ordered hf).1 hfr).1]
  exact hl.fits_locals ha hs hr

/-- What is declared outside all functions is named at the top level. -/
theorem LabelCode.Lowers.globals_subset (hl : code.Lowers p) :
    p.globals.map (·.2) ⊆ p.main.mentions := by
  have h := (Stmt.introducesAll p hl.top ⟨List.nodup_nil, nofun, nofun⟩).1
  intro id hid
  have hid : id ∈ [] ++ (Stmt.declaredAll .top p).map (·.2) := hid
  rw [← h, List.mem_eraseDups, List.nil_append, List.mem_filter] at hid
  rw [p.mentions_main]
  exact hid.1

/-- **The operands of a program with short chunks reach all that they name**, if they reach the
constants, which all chunks share. -/
theorem LabelCode.Lowers.addressable (hl : code.Lowers p)
    (ha : (code.foldIf folding).AssembledTo exe)
    (hs : exe.Short) (hc : exe.constants.size ≤ UInt32.size) : exe.Addressable where
  main := hs.main
  routines r hr := by
    obtain ⟨f, hf, hfr⟩ := exists_mem_of_forall₂ (hl.forall₂_routines ha).flip hr
    have hshort := hs.routines r hr
    have hcells := f.cells_le (hl.accepted f hf) (hl.ordered hf).1 hfr
    refine ⟨hshort, ?_⟩
    have : 5 * maxArguments ≤ 4 * UInt32.size := by decide
    omega
  constants := hc
  globals := by
    have hmain := ha.main.mentions_le
    rw [LabelCode.main_foldIf, Block.mentions_foldIf, hl.main] at hmain
    have hsize : exe.globals.size = (p.globals.map (·.2)).length := by
      rw [← Array.length_toList, ha.globals, List.length_map,
        LabelCode.globalVars_foldIf, hl.globalVars]
    have hle := length_le_of_subset (hl.globalVars ▸ globalVars_nodup code) hl.globals_subset
    have := hs.main
    omega

end Programs

/-! ## Sessions -/

theorem mapError_eq_ok {ε ε' α : Type} {f : ε → ε'} {x : Except ε α} {a : α} :
    x.mapError f = .ok a ↔ x = .ok a := by
  cases x <;> simp [Except.mapError]

/-- The label code of a text is that of the program that it stands for, folded if so chosen. -/
theorem Settings.labelCode_spec {s : Settings} {source : String} {code : LabelCode}
    (h : s.labelCode source = .ok code) :
    ∃ p lowered, LabelCode.Lowers lowered p ∧ code = lowered.foldIf s.folding := by
  simp only [Settings.labelCode, except_bind_eq_ok, mapError_eq_ok] at h
  obtain ⟨p, -, lowered, hlowered, h⟩ := h
  cases h
  exact ⟨p, lowered, LabelCode.ofProgram_spec hlowered, rfl⟩

/-- **A text without errors has an executable**, assembled from the label code of a program, folded
if so chosen. -/
theorem Settings.executable_of_labelCode {s : Settings} {source : String} {code : LabelCode}
    (h : s.labelCode source = .ok code) (order : ByteOrder) :
    ∃ exe p lowered, s.executable order source = .ok exe ∧ LabelCode.Lowers lowered p ∧
      (lowered.foldIf s.folding).AssembledTo exe := by
  obtain ⟨p, lowered, hl, rfl⟩ := s.labelCode_spec h
  obtain ⟨exe, hexe⟩ : ∃ exe, (lowered.foldIf s.folding).assemble order = .ok exe :=
    LabelCode.assemble_ok_iff.2 (hl.assembles.foldIf s.folding)
  refine ⟨exe, p, lowered, ?_, hl,
    LabelCode.assemble_spec hexe (hl.controlSound.foldIf s.folding).distinctLabels⟩
  simp only [Settings.executable, except_bind_eq_ok, mapError_eq_ok]
  exact ⟨_, h, hexe⟩

/-- A text whose executable can be computed and passes a test has label code, and its chunks are
short. -/
theorem Settings.exists_short_executable {s : Settings} {order : ByteOrder} {source : String}
    {test : Executable → Bool}
    (h : ((s.executable order source).toOption.map fun exe => decide exe.Short && test exe) =
    some true) :
    ∃ code exe, s.labelCode source = .ok code ∧ s.executable order source = .ok exe ∧
      exe.Short ∧ test exe = true := by
  obtain ⟨exe, hexe, htest⟩ := Option.map_eq_some_iff.1 h
  have hexe := toOption_eq_some.1 hexe
  obtain ⟨code, hcode, -⟩ := except_bind_eq_ok.1 hexe
  obtain ⟨hshort, htest⟩ := Bool.and_eq_true_iff.1 htest
  exact ⟨code, exe, mapError_eq_ok.1 hcode, hexe, of_decide_eq_true hshort, htest⟩

end Stackscript
