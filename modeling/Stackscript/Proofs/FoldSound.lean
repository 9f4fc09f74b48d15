import Stackscript.Proofs.AssemblyRefinement
import Stackscript.Proofs.FoldSimulation
import Stackscript.Session

/-!
# Folding is sound

The executables of a program and of the folded program run alike: each run ends exactly if the other
does, with the same output and the same result, and in machines that differ only in the references
of arrays.

* `Machine.Alike`, `RunsEndAlike`;
* **`LabelCode.fold_sound`**.
-/

namespace Stackscript

/-- Two machines are the same up to a renaming of arrays, as far as operands, arrays, output,
globals and active calls go. -/
structure Machine.Alike (R : Renaming) (v v' : Machine) : Prop where
  core : v.core.Renamed R v'.core
  globals : List.Forall₂ (Value.Renamed R) v.globals.toList v'.globals.toList
  frames : v'.frames.length = v.frames.length
  charged : v'.charged = v.charged

/-- Two runs end alike: what can be seen of the sessions is the same, and the machines are the same
up to a renaming of arrays. -/
structure RunsEndAlike (exe exe' : Executable) (halt halt' : Halt) (v v' : Machine) : Prop where
  session : Session.ofOutcome exe' (halt'.outcome v') = Session.ofOutcome exe (halt.outcome v)
  machines : ∃ R, v.Alike R v' ∧ halt.Alike R v.core.world.heap v'.core.world.heap halt'

theorem LabelMachine.Alike.machine {code code' : LabelCode} {R : Renaming} {m m' : LabelMachine}
    {v v' : Machine} (h : m.Alike code code' R m') (hglobals : code'.globalVars = code.globalVars)
    (hv : m.RepresentedBy code v) (hv' : m'.RepresentedBy code' v') : v.Alike R v' where
  core := by rw [hv.core, hv'.core]; exact h.core
  globals := by
    rw [hv.globals, hv'.globals, hglobals, List.forall₂_map_left_iff, List.forall₂_map_right_iff,
      List.forall₂_same]
    exact fun id _ => h.globals id
  frames := by
    have hlength := congrArg List.length h.activeNames
    simp only [LabelMachine.activeNames, List.length_map] at hlength
    rw [← hv.frames.length_eq, ← hv'.frames.length_eq, hlength]
  charged := by rw [hv.charged, hv'.charged, h.charged]

/-- What can be seen of sessions that end alike is the same. -/
theorem Halt.Alike.session_eq {R : Renaming} {exe exe' : Executable} {halt halt' : Halt}
    {v v' : Machine}
    (h : halt.Alike R v.core.world.heap v'.core.world.heap halt') (hc : v.core.Renamed R v'.core)
    (hnames : v'.activeNames exe' = v.activeNames exe) :
    Session.ofOutcome exe' (halt'.outcome v') = Session.ofOutcome exe (halt.outcome v) := by
  cases h with
  | finished =>
    simp only [Session.ofOutcome, Halt.outcome, Outcome.machine, Ending.ofOutcome, hc.world.output,
      hc.stack.length_eq]
  | failed hm =>
    simp only [Session.ofOutcome, Halt.outcome, Outcome.machine, Ending.ofOutcome,
      Machine.runtimeError, hc.world.output, hm, hnames]
  | fault hf =>
    simp only [Session.ofOutcome, Halt.outcome, Outcome.machine, Ending.ofOutcome, hc.world.output,
      hf.message?_eq hc.world.heap]

theorem EndsAlike.runsEndAlike {code : LabelCode} {exe exe' : Executable} {halt halt' : Halt}
    {m m' : LabelMachine} {v v' : Machine} (h : EndsAlike code code.fold (halt, m) (halt', m'))
    (ha : code.AssembledTo exe) (ha' : code.fold.AssembledTo exe') (hv : m.RepresentedBy code v)
    (hv' : m'.RepresentedBy code.fold v') : RunsEndAlike exe exe' halt halt' v v' := by
  obtain ⟨R, halike, hhalt⟩ := h
  have hmachine := halike.machine (globalVars_fold code) hv hv'
  have hhalt' : halt.Alike R v.core.world.heap v'.core.world.heap halt' := by
    rw [hv.core, hv'.core]
    exact hhalt
  refine ⟨hhalt'.session_eq hmachine.core ?_, R, hmachine, hhalt'⟩
  rw [hv.activeNames ha, hv'.activeNames ha', halike.activeNames]

/-- **Folding is sound.** A program that can be assembled can be assembled after folding; the
globals have the same names and slots, and the two runs end alike or not at all. Both executables
have to be addressable, as folding can also lengthen a chunk: `true + true` takes four bytes, and
the number it is folded to nine. -/
theorem LabelCode.fold_sound {code : LabelCode} {order : ByteOrder} {exe : Executable}
    (hd : code.DistinctLabels) (h : code.assemble order = .ok exe) :
    ∃ exe', code.fold.assemble order = .ok exe' ∧ exe'.globals = exe.globals ∧
      (exe.Addressable → exe'.Addressable → ∀ host : Host,
        (∀ halt v, exe.Ends host halt v →
          ∃ halt' v', exe'.Ends host halt' v' ∧ RunsEndAlike exe exe' halt halt' v v') ∧
        ∀ halt' v', exe'.Ends host halt' v' →
          ∃ halt v, exe.Ends host halt v ∧ RunsEndAlike exe exe' halt halt' v v') := by
  obtain ⟨exe', h'⟩ := LabelCode.assemble_ok_iff.2 (LabelCode.assemble_ok_iff.1 ⟨exe, h⟩).fold
  have ha := LabelCode.assemble_spec h hd
  have ha' := LabelCode.assemble_spec h' hd.fold
  refine ⟨exe', h', ?_, fun hx hx' host => ⟨fun halt v hv => ?_, fun halt' v' hv' => ?_⟩⟩
  · apply Array.toList_inj.1
    rw [ha.globals, ha'.globals, globalVars_fold]
    rfl
  · obtain ⟨m, hm, hrep⟩ := ha.reflects hd hx hv
    obtain ⟨⟨halt', m'⟩, hm', halike⟩ :=
      (fold_simulates code host).ends (LabelMachine.ahead_load code) hm
    obtain ⟨v', hv', hrep'⟩ := ha'.ends hd.fold hx' hm'
    exact ⟨halt', v', hv', halike.runsEndAlike ha ha' hrep hrep'⟩
  · obtain ⟨m', hm', hrep'⟩ := ha'.reflects hd.fold hx' hv'
    obtain ⟨⟨halt, m⟩, hm, halike⟩ :=
      (fold_simulates code host).reflects (LabelMachine.ahead_load code) hm'
    obtain ⟨v, hv, hrep⟩ := ha.ends hd hx hm
    exact ⟨halt, v, hv, halike.runsEndAlike ha ha' hrep hrep'⟩

/-- A program in which folding compares two new arrays, and drops a jump and takes another. -/
def foldable : LabelCode where
  main := ⟨#[⟨0, #[.makeArray 0, .makeArray 0, .binary .equal, .popJumpIfNonzero 1, .makeArray 0,
    .store 0, .pushTrue, .unary .not, .popJumpIfZero 1]⟩, ⟨1, #[.load 0, .exit]⟩], 2⟩
  functions := #[]
  vars := #[⟨"x", .globalMutable, 0, none⟩]

/-- Its executable. -/
def foldableAssembled : Executable where
  main := ⟨.little, #[11, 0, 0, 0, 0, 11, 0, 0, 0, 0, 4, 10, 3, 35, 0, 0, 0, 11, 0, 0, 0, 0, 18, 0,
    0, 0, 0, 6, 5, 1, 2, 35, 0, 0, 0, 17, 0, 0, 0, 0, 22]⟩
  routines := #[]
  constants := #[]
  globals := #["x"]

/-- The executable of the folded program. -/
def foldableFolded : Executable where
  main := ⟨.little, #[11, 0, 0, 0, 0, 18, 0, 0, 0, 0, 17, 0, 0, 0, 0, 22]⟩
  routines := #[]
  constants := #[]
  globals := #["x"]

theorem fold_sound_foldable :
    foldable.DistinctLabels ∧ foldable.assemble .little = .ok foldableAssembled ∧
      foldable.fold.assemble .little = .ok foldableFolded ∧ foldableAssembled.Addressable ∧
      foldableFolded.Addressable ∧ ∃ halt' v v',
        foldableAssembled.Ends ⟨fun _ => .zero, .accepting, 1024⟩ .finished v ∧
        v.core.world.heap.size = 3 ∧
        foldableFolded.Ends ⟨fun _ => .zero, .accepting, 1024⟩ halt' v' ∧
        RunsEndAlike foldableAssembled foldableFolded .finished halt' v v' := by
  have hd : foldable.DistinctLabels := by
    simp [LabelCode.DistinctLabels, LabelCode.blocks, foldable, Block.labelIds]
  have hasm : foldable.assemble .little = .ok foldableAssembled := by decide +kernel
  have hfold : foldable.fold.assemble .little = .ok foldableFolded := by decide +kernel
  have hx : foldableAssembled.Addressable :=
    ⟨by decide, List.forall_mem_nil _, by decide, by decide⟩
  have hx' : foldableFolded.Addressable := ⟨by decide, List.forall_mem_nil _, by decide, by decide⟩
  have hv : foldableAssembled.Ends ⟨fun _ => .zero, .accepting, 1024⟩ .finished
      ⟨⟨[.array 2], ⟨⟨#[#[], #[], #[]]⟩, "", 0⟩⟩, #[.array 2], 41, [], 0⟩ := ⟨20, by decide +kernel⟩
  obtain ⟨exe', h', -, hruns⟩ := LabelCode.fold_sound hd hasm
  cases hfold.symm.trans h'
  obtain ⟨halt', v', hv', halike⟩ := (hruns hx hx' _).1 _ _ hv
  exact ⟨hd, hasm, hfold, hx, hx', halt', _, v', hv, rfl, hv', halike⟩

end Stackscript
