import Stackscript.Proofs.ShortChunks

/-!
# Lowered programs do what their trees do

The evaluation of a program and the run of its executable end together, and what is observed of them
then is the same: how they end, the calls that were active, the arrays and the output, and the
values of all variables of the program.

* `LabelMachine.observe`, with `LabelMachine.RepresentedBy.observe`;
* `LabelCode.Lowers.follows_main`: the whole evaluation is followed;
* `LabelCode.Lowers.ends_of_evaluate`, `LabelCode.Lowers.steps_of_evaluate`;
* **`LabelCode.Lowers.ends_iff`**, **`lowering_correct`**.
-/

namespace Stackscript

/-! ## Observations -/

/-- What is observed when the run of a program in label code ends in a machine. -/
def LabelMachine.observe (code : LabelCode) (p : Program) (halt : Halt) (m : LabelMachine) :
    Observation :=
  ⟨halt, m.activeNames code, m.core.world, p.globals.map fun (name, id) => (name, m.globals id)⟩

section Programs

variable {code : LabelCode} {p : Program} {exe : Executable} {host : Host}

/-- The globals of an executable have the names that the program gives them. -/
theorem LabelCode.Lowers.globals_names (hl : code.Lowers p) (ha : code.AssembledTo exe) :
    exe.globals.toList = p.globals.map (·.1) := by
  rw [ha.globals, hl.globalVars, List.map_map]
  refine List.map_congr_left fun d hd => ?_
  show (code.vars[d.2]?.map (·.name)).getD "" = d.1
  rw [Stmt.name_of_declaredAll p hl.top d hd]
  rfl

/-- Of a machine the same is observed as of one that stands for it. -/
theorem LabelMachine.RepresentedBy.observe {m : LabelMachine} {v : Machine}
    (h : m.RepresentedBy code v) (hl : code.Lowers p) (ha : code.AssembledTo exe) (halt : Halt) :
    v.observe exe halt = m.observe code p halt := by
  have hglobals : exe.globals.toList.zip v.globals.toList = p.globals.map fun (name, id) =>
      (name, m.globals id) := by
    rw [hl.globals_names ha, h.globals, hl.globalVars, List.map_map, List.zip_map']
    rfl
  rw [Machine.observe, LabelMachine.observe, h.activeNames ha, h.core, hglobals]

/-! ## Whole programs -/

/-- The code of the top level is followed up to its end. -/
theorem LabelCode.Lowers.follows_main (hl : code.Lowers p) (hfits : p.Fits) (host : Host)
    (fuel : Nat) :
    Follows code host fuel [] .load
      (fun _ s m => Stackscript.Ends (LabelMachine.step code host) m
        (.atEnd host s.world, Site.top.machine p.main.tip [] s))
      (Eval.stmts (Eval.invoke p.functions host fuel 0) fuel .top p .fresh) := by
  have hB : Site.top.block? code = some p.main := congrArg some hl.main
  have hruns := hl.runs hfits host fuel hB
  have hexit : ((Stmt.emitAll .top none p .empty).fresh.2.add .exit).PartOf p.main := .refl _
  have hfresh := (Block.partOf_add _ _).trans hexit
  have hbody := (Block.partOf_fresh _).trans hfresh
  have hsize : (Stmt.afterAll .top p).nextFunction ≤ code.functions.size :=
    Nat.le_of_eq hl.size_functions.symm
  have hloop : p.main.HasLoop false none := fun h => by cases h
  refine (Stmt.followsAll hruns p .top rfl hsize hl.top hfits.top hloop hbody [] .fresh).weaken
    fun signal s m hm => ?_
  cases signal with
  | normal =>
    cases hm
    obtain ⟨k, hk⟩ : ∃ k, Steps (LabelMachine.step code host) k
        (Site.top.machine (Stmt.emitAll .top none p .empty).reserve.2.tip [] s)
        (Site.top.machine (Stmt.emitAll .top none p .empty).fresh.2.tip [] s) :=
      Site.steps_bind hB hruns.distinct hfresh
    refine .ok (Stackscript.Ends.of_steps hk
      (.of_done ((Site.step_instr hB hexit.instr?_tip).trans ?_)))
    rw [Program.main, (Block.add_spec _ _).2]
    rfl
  | broken | continued => obtain ⟨_, _, hnone, -⟩ := hm; cases hnone
  | returned v => obtain ⟨_, _, _, _, _, hcall, -⟩ := hm; cases hcall

/-- **An evaluation that ends is a run of label code**, of which the same is observed. -/
theorem LabelCode.Lowers.ends_of_evaluate (hl : code.Lowers p) (hfits : p.Fits) {fuel : Nat}
    {o : Observation}
    (h : p.evaluate host fuel = some o) : ∃ halt m, code.Ends host halt m ∧
      m.observe code p halt = o := by
  have hfollows := hl.follows_main hfits host fuel
  unfold Program.evaluate at h
  generalize Eval.stmts (Eval.invoke p.functions host fuel 0) fuel .top p .fresh = r at h hfollows
  match r, hfollows with
  | .ok signal s, ⟨k, m, hk, hends⟩ =>
    cases h
    exact ⟨_, _, hends.of_steps hk, rfl⟩
  | .error (.halted halt calls) s, ⟨m, hends, hworld, hglobals, hactive⟩ =>
    cases h
    refine ⟨halt, m, hends, ?_⟩
    rw [LabelMachine.observe, hworld, hglobals, hactive, List.append_nil]
    rfl
  | .error .outOfFuel s, _ => cases h

/-- An evaluation that runs out of fuel is a run of label code that is not over yet. -/
theorem LabelCode.Lowers.steps_of_evaluate (hl : code.Lowers p) (hfits : p.Fits) {fuel : Nat}
    (h : p.evaluate host fuel = none) :
    ∃ k m, Steps (LabelMachine.step code host) k .load m ∧ fuel ≤ k := by
  have hfollows := hl.follows_main hfits host fuel
  unfold Program.evaluate at h
  generalize Eval.stmts (Eval.invoke p.functions host fuel 0) fuel .top p .fresh = r at h hfollows
  match r, hfollows with
  | .ok signal s, _ => cases h
  | .error (.halted halt calls) s, _ => cases h
  | .error .outOfFuel s, hsteps => exact hsteps

/-- **The evaluation of a program and the run of its label code end together.** -/
theorem LabelCode.Lowers.ends_iff (hl : code.Lowers p) (hfits : p.Fits) {o : Observation} :
    p.Ends host o ↔ ∃ halt m, code.Ends host halt m ∧ m.observe code p halt = o := by
  constructor
  · rintro ⟨fuel, h⟩
    exact hl.ends_of_evaluate hfits h
  · rintro ⟨halt, m, ⟨n, hn⟩, rfl⟩
    -- with more fuel than the run has steps the evaluation cannot run out of it
    cases he : p.evaluate host (n + 1) with
    | none =>
      obtain ⟨k, m', hk, hle⟩ := hl.steps_of_evaluate hfits he
      obtain ⟨j, hj, -⟩ := hn.after_steps hk
      omega
    | some o =>
      obtain ⟨halt', m', hends, rfl⟩ := hl.ends_of_evaluate hfits he
      cases hends.unique ⟨n, hn⟩
      exact ⟨n + 1, he⟩

/-- **Lowering is correct.** A program that is free of static errors has an executable; and its
evaluation ends, with enough fuel, in an observation exactly if the run of the executable does,
whatever the budget, the sink and the clock. Chunks are to be short enough for their addresses, and
the constants that they share few enough for the operands that name them. If variables, labels and
functions are numbered by words, there have to be fewer than `2 ^ 32` of them. -/
theorem lowering_correct {p : Program} {code : LabelCode} (h : LabelCode.ofProgram p = .ok code)
    (order : ByteOrder) :
    ∃ exe, code.assemble order = .ok exe ∧
      (exe.Short → exe.constants.size ≤ UInt32.size → ∀ (host : Host) (o : Observation),
        p.Ends host o ↔ ∃ halt v, exe.Ends host halt v ∧ v.observe exe halt = o) := by
  have hl := LabelCode.ofProgram_spec h
  have hd := hl.controlSound.distinctLabels
  obtain ⟨exe, hexe⟩ : ∃ exe, code.assemble order = .ok exe :=
    LabelCode.assemble_ok_iff.2 hl.assembles
  have ha := LabelCode.assemble_spec hexe hd
  have ha' : (code.foldIf false).AssembledTo exe := ha
  refine ⟨exe, hexe, fun hshort hconstants host o => ?_⟩
  have hx := hl.addressable ha' hshort hconstants
  rw [hl.ends_iff (hl.fits ha' hshort)]
  constructor
  · rintro ⟨halt, m, hm, rfl⟩
    obtain ⟨v, hv, hr⟩ := ha.ends hd hx hm
    exact ⟨halt, v, hv, hr.observe hl ha halt⟩
  · rintro ⟨halt, v, hv, rfl⟩
    obtain ⟨m, hm, hr⟩ := ha.reflects hd hx hv
    exact ⟨halt, m, hm, (hr.observe hl ha halt).symm⟩

end Programs

/-- A call that assigns to a variable of the program in a loop and fails there. -/
def failingSource : String :=
  "var a = [1]; function f(x) \x7b while (true) \x7b if (x) a = 2; return x - 1; \x7d \x7d f(a);"

theorem lowering_correct_failing :
    ∃ p code exe o halt v, Program.parse failingSource = .ok p ∧ LabelCode.ofProgram p = .ok code ∧
      code.assemble .little = .ok exe ∧ exe.Short ∧ exe.constants.size ≤ UInt32.size ∧
      p.Ends ⟨fun _ => .zero, .accepting, 1024⟩ o ∧ o.calls = ["f"] ∧
      exe.Ends ⟨fun _ => .zero, .accepting, 1024⟩ halt v ∧ v.observe exe halt = o := by
  have hexe : ((Program.parse failingSource).toOption.bind fun p =>
      (LabelCode.ofProgram p).toOption.bind fun code =>
      (code.assemble .little).toOption.map fun exe =>
        decide (exe.Short ∧ exe.constants.size ≤ UInt32.size)) = some true := by decide +kernel
  have hends : ((Program.parse failingSource).toOption.bind fun p =>
      (p.evaluate ⟨fun _ => .zero, .accepting, 1024⟩ 10).map (·.calls)) =
      some ["f"] := by decide +kernel
  obtain ⟨p, hp, hexe⟩ := Option.bind_eq_some_iff.1 hexe
  obtain ⟨code, hcode, hexe⟩ := Option.bind_eq_some_iff.1 hexe
  obtain ⟨exe, hexe, hsmall⟩ := Option.map_eq_some_iff.1 hexe
  rw [hp, Option.bind_some] at hends
  obtain ⟨o, ho, hcalls⟩ := Option.map_eq_some_iff.1 hends
  have hcode := toOption_eq_some.1 hcode
  obtain ⟨hshort, hconstants⟩ := of_decide_eq_true hsmall
  obtain ⟨exe', hexe', hcorrect⟩ := lowering_correct hcode .little
  cases (toOption_eq_some.1 hexe).symm.trans hexe'
  obtain ⟨halt, v, hv, hobserve⟩ := (hcorrect hshort hconstants _ o).1 ⟨10, ho⟩
  exact ⟨p, code, exe, o, halt, v, toOption_eq_some.1 hp, hcode, hexe', hshort, hconstants,
    ⟨10, ho⟩, hcalls, hv, hobserve⟩

end Stackscript
