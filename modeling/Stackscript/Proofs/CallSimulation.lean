import Stackscript.Proofs.ControlFlow
import Stackscript.Proofs.LoweringSimulation

/-!
# Calls of lowered functions

A call enters the code of a function with a frame for its cells, and the return goes on behind the
call. By induction on the depth to which calls may be nested, the label machine follows all of them.

* `Site.callee`, the site of a call; `Site.Returned.pushed`, the return from it;
* `Program.Fits`: frames can be addressed and array literals counted;
* `Site.enter_machine`, **`FunctionDef.follows`**, **`LabelCode.Lowers.runs`**.
-/

namespace Stackscript

/-! ## Calls -/

section Calls

variable {code : LabelCode} {host : Host} {p : Program} {c : Site} {B b : Block} {fuel : Nat}
  {stack : List Value} {s : Memory}

theorem Store.ofArgs_append (ids more : List VarId) {args : List Value}
    (h : ids.length = args.length) : Store.ofArgs (ids ++ more) args = Store.ofArgs ids args := by
  funext id
  have hzip : (ids ++ more).zip args = ids.zip args := by
    have happend : (ids ++ more).zip (args ++ []) = ids.zip args ++ more.zip [] := List.zip_append h
    rwa [List.append_nil, List.zip_nil_right, List.append_nil] at happend
  rw [Store.ofArgs, Store.ofArgs, hzip]

/-- A body that ends in a return is not left normally. -/
theorem Eval.stmts_ne_normal {call : Value → List Value → Eval Value} {ss : List Stmt} {n : Names}
    {s s' : Memory}
    (hr : ss.getLast?.any Lower.isReturn = true) :
    Eval.stmts call fuel n ss s ≠ .ok .normal s' := by
  induction ss generalizing n s with
  | nil => cases hr
  | cons st ss ih =>
    intro h
    obtain ⟨signal, s₁, hs, h⟩ := bind_eq_ok.1 h
    cases ss with
    | nil =>
      cases st with
      | «return» value span =>
        obtain ⟨v, s₂, -, hv⟩ := bind_eq_ok.1 hs
        cases hv
        cases h
      | _ => cases hr
    | cons st' ss =>
      cases signal with
      | normal => exact ih hr h
      | broken | continued | returned v => cases h

/-- The evaluation of a body is followed in the call. -/
theorem Follows.inCall {fuel : Nat} {active : List String} {m : LabelMachine} {name : String}
    {own : Store} {body : Eval Signal} {target : Signal → Memory → LabelMachine → Prop}
    {target' : Value → Memory → LabelMachine → Prop}
    (h : Follows code host fuel (name :: active) m target (body { s with own }))
    (ht : ∀ signal s' m', target signal s' m' → target' signal.value { s' with own := s.own } m') :
    Follows code host fuel active m target' (Eval.inCall name own body s) := by
  unfold Eval.inCall
  match body { s with own }, h with
  | .ok signal s', ⟨k, m', hk, hm⟩ => exact ⟨k, m', hk, ht signal s' m' hm⟩
  | .error (.halted halt calls) s', ⟨m', he, hworld, hglobals, hactive⟩ =>
    exact ⟨m', he, hworld, hglobals, by rw [hactive, List.append_assoc]; rfl⟩
  | .error .outOfFuel s', h => exact h

/-- The site of a call that is made at a place of another site. -/
def Site.callee (c : Site) (q : Place) (s : Memory) (function charged : Nat) : Site :=
  .call function (c.machine q [] s).place (c.machine q [] s).frames charged

/-- The frames of calls can be addressed, and the items of array literals can be counted. -/
structure Program.Fits (p : Program) : Prop where
  top : Stmt.AllArraysFit p
  functions : ∀ f ∈ p.functions, Frame.fits f.cells = true ∧ Stmt.AllArraysFit f.body

/-- **The call of a function** is checked as the evaluation checks it, and enters the code of the
body. -/
theorem Site.enter_machine (hl : code.Lowers p) (hfits : p.Fits) {i : Nat} {f : FunctionDef}
    (hf : p.functions[i]? = some f) (q : Place) (args : List Value) :
    (c.machine q (args.reverse ++ stack) s).enter code host i args.length =
      if f.params.length ≠ args.length then
        .done (.failed (.routineArity args.length f.name f.params.length),
          c.machine q (args.reverse ++ stack) s)
      else if byteLimit ≤ c.charged + Frame.cost f.cells then
        .done (.fault .frameSize, c.machine q (args.reverse ++ stack) s)
      else if host.budget < c.charged + Frame.cost f.cells then
        .done (.failed (.callStack (c.charged + Frame.cost f.cells) host.budget),
          c.machine q (args.reverse ++ stack) s)
      else
        .next ((c.callee q s i (c.charged + Frame.cost f.cells)).machine .start stack
          { s with own := .ofArgs f.paramIds args }) := by
  have hmem := List.mem_of_getElem? hf
  have hordered := (hl.ordered hmem).1
  have haccepted := hl.accepted f hmem
  have hget : code.functions[i]? = some f.lowered := by rw [hl.function?, hf]; rfl
  have hparams : f.paramIds.length = f.params.length := List.length_range'
  have harity : f.lowered.arity = f.params.length := by
    rw [LabelFunction.arity, FunctionDef.lowered, hparams]
    exact Nat.mod_eq_of_lt (Nat.lt_succ_of_le haccepted.params)
  have hlength := f.length_frameVars haccepted hordered
  simp only [LabelMachine.enter, hget, harity, hlength, charged_machine, core_machine,
    splitTop_pushed, (hfits.functions f hmem).1, if_true]
  by_cases hargs : f.params.length = args.length
  · rw [if_neg (not_not_intro hargs), if_neg (not_not_intro hargs),
      f.frameVars_lowered haccepted hordered, Store.ofArgs_append _ _ (hparams.trans hargs)]
    cases c <;> rfl
  · rw [if_pos hargs, if_pos hargs]
    rfl

theorem Site.active_callee {i : Nat} {fn : LabelFunction} (hf : code.functions[i]? = some fn)
    (q : Place)
    (charged : Nat) : (c.callee q s i charged).active code = fn.name :: c.active code := by
  rw [← c.activeNames_machine q [] s]
  show (code.functions[i]?.map (·.name)).getD "" :: _ = _
  rw [hf]
  rfl

/-- A call that has been left goes on behind the place where it was made. -/
theorem Site.Returned.pushed {i : Nat} {fn : LabelFunction} {q : Place} {s' : Memory} {v : Value}
    {m : LabelMachine} (hf : code.functions[i]? = some fn)
    (h : (c.callee q s i (c.charged + Frame.cost (fn.frameVars code.vars).length)).Returned code
    stack v s' m) : m = c.machine q (v :: stack) { s' with own := s.own } := by
  obtain ⟨g, outer, frames, charged, fn', hc, hf', rfl⟩ := h
  cases hc
  cases hf.symm.trans hf'
  rw [Nat.add_sub_cancel]
  cases c <;> rfl

/-- **The body of a function** is followed up to the return from the call. -/
theorem FunctionDef.follows {call : Value → List Value → Eval Value} (hl : code.Lowers p)
    (hfits : p.Fits)
    {f : FunctionDef} (hmem : f ∈ p.functions) (h : c.Runs code host fuel call f.block)
    (hc : c.inCall = true) (stack : List Value) (s : Memory) :
    Follows code host fuel (c.active code) (c.machine .start stack s)
      (fun signal s' m => c.Returned code stack signal.value s' m)
        (Eval.stmts call fuel f.inner f.body s) := by
  have hfun : f.inner.function = some f.names.nextFunction := Names.function_declareAll _ _
  have hn : f.inner.function.isSome = c.inCall := by rw [hfun, hc]; rfl
  have hloop : f.block.HasLoop false none := nofun
  have hbody : (Stmt.emitAll f.inner none f.body .empty).PartOf f.block →
      Follows code host fuel (c.active code) (c.machine .start stack s) _ _ := fun hpart =>
    (Stmt.followsAll h f.body f.inner hn (hl.ordered hmem).2 (hl.accepted f hmem).body
      (hfits.functions f hmem).2 hloop hpart stack s).with_result
  by_cases hr : f.body.getLast?.any Lower.isReturn = true
  · have hblock : f.block = Stmt.emitAll f.inner none f.body .empty := if_pos hr
    refine (hbody (hblock ▸ .refl _)).weaken fun signal s' m hm => ?_
    obtain ⟨hm, hresult⟩ := hm
    cases signal with
    | normal => exact absurd hresult (Eval.stmts_ne_normal hr)
    | broken | continued => obtain ⟨_, _, hnone, -⟩ := hm; cases hnone
    | returned v => exact .ok hm
  · have hblock : f.block = ((Stmt.emitAll f.inner none f.body .empty).add .pushNull).add .ret :=
      if_neg hr
    have hret : (((Stmt.emitAll f.inner none f.body .empty).add .pushNull).add .ret).PartOf
        f.block :=
      hblock ▸ .refl _
    have hnull := (Block.partOf_add _ _).trans hret
    refine (hbody ((Block.partOf_add _ _).trans hnull)).weaken fun signal s' m hm => ?_
    obtain ⟨hm, -⟩ := hm
    cases signal with
    | normal =>
      cases hm
      obtain ⟨k, m', hk, hm'⟩ : Follows code host fuel (c.active code) (c.machine _ stack s') _ _ :=
        h.push (v := .null) hnull fun _ => rfl
      cases hm'
      exact (h.ret hc hret .null).steps hk
    | broken | continued => obtain ⟨_, _, hnone, -⟩ := hm; cases hnone
    | returned v => exact .ok hm

/-- A native is called as the evaluation calls it. -/
theorem Site.callNative_follows (hB : c.block? code = some B) {count : UInt8} {args : List Value}
    (hpart : (b.add (.call count)).PartOf B) (hcount : count.toNat = args.length) (f : Native)
    (stack : List Value) (s : Memory) :
    Follows code host fuel (c.active code)
      (c.machine b.tip (.native f :: (args.reverse ++ stack)) s)
      (c.Pushed (b.add (.call count)) stack) (Eval.callNative host f args s) := by
  have hstep : (c.machine b.tip (.native f :: (args.reverse ++ stack)) s).step code host =
      (c.machine b.tip.next (args.reverse ++ stack) s).onCore
      (Core.callNative host f args.length) := by
    rw [Site.step_instr hB hpart.instr?_tip, ← hcount]
    cases c <;> rfl
  unfold Eval.callNative
  by_cases harity : f.arity = args.length
  · rw [if_neg (not_not_intro harity)]
    match hcall : f.call host args s.world with
    | (.ok v, world) =>
      have heffect : Core.callNative host f args.length ⟨args.reverse ++ stack, s.world⟩ =
          .done ⟨v :: stack, world⟩ := by
        simp only [Core.callNative, harity, ne_eq, not_true_eq_false,
          if_false, splitTop_pushed, hcall]
      refine .step (hstep.trans (Site.onCore_done heffect)) (.ok ?_)
      rw [Site.Pushed, (b.add_spec _).2]
    | (.error e, world) =>
      have heffect : Core.callNative host f args.length ⟨args.reverse ++ stack, s.world⟩ =
          .failed (.native e) ⟨args.reverse ++ stack, world⟩ := by
        simp only [Core.callNative, harity, ne_eq, not_true_eq_false,
          if_false, splitTop_pushed, hcall]
      exact .ended (hstep.trans (Site.onCore_failed heffect))
  · rw [if_pos harity]
    have heffect : Core.callNative host f args.length ⟨args.reverse ++ stack, s.world⟩ =
        .failed (.nativeArity args.length f.arity) ⟨args.reverse ++ stack, s.world⟩ := if_pos harity
    exact .ended (hstep.trans (Site.onCore_failed heffect))

theorem LabelCode.Lowers.distinct (hl : code.Lowers p) (hB : c.block? code = some B) :
    B.labelIds.Nodup := by
  cases c with
  | top =>
    cases hB
    exact hl.controlSound.main.nodup
  | call i outer frames charged =>
    obtain ⟨fn, hf, rfl⟩ := Option.map_eq_some_iff.1 hB
    exact (hl.controlSound.functions fn (Array.mem_toList_iff.2 (Array.mem_of_getElem? hf))).nodup

/-- **A function is called as the evaluation calls it**, if the calls in its body are followed. The
call itself is a step, so it may use more fuel than the body. -/
theorem Site.invoke_follows (hl : code.Lowers p) (hfits : p.Fits) (hB : c.block? code = some B)
    {count : UInt8}
    {args : List Value} (hpart : (b.add (.call count)).PartOf B)
    (hcount : count.toNat = args.length) {i : Nat} {f : FunctionDef} (hf : p.functions[i]? = some f)
    (hbody : ∀ {c : Site}, c.block? code = some f.block →
      c.Runs code host fuel (Eval.invoke p.functions host fuel c.charged) f.block) :
    Follows code host (fuel + 1) (c.active code)
      (c.machine b.tip (.function i :: (args.reverse ++ stack)) s)
      (c.Pushed (b.add (.call count)) stack)
      (Eval.invoke p.functions host (fuel + 1) c.charged (.function i) args s) := by
  have hmem := List.mem_of_getElem? hf
  have hget : code.functions[i]? = some f.lowered := by rw [hl.function?, hf]; rfl
  have hstep : (c.machine b.tip (.function i :: (args.reverse ++ stack)) s).step code host =
      (c.machine b.tip.next (args.reverse ++ stack) s).enter code host i args.length := by
    rw [Site.step_instr hB hpart.instr?_tip, ← hcount]
    cases c <;> rfl
  rw [Site.enter_machine hl hfits hf] at hstep
  simp only [Eval.invoke, hf]
  by_cases hargs : f.params.length = args.length
  · rw [if_neg (not_not_intro hargs)] at hstep ⊢
    by_cases hlimit : byteLimit ≤ c.charged + Frame.cost f.cells
    · rw [if_pos hlimit] at hstep ⊢
      exact .ended hstep
    · rw [if_neg hlimit] at hstep ⊢
      by_cases hbudget : host.budget < c.charged + Frame.cost f.cells
      · rw [if_pos hbudget] at hstep ⊢
        exact .ended hstep
      · rw [if_neg hbudget] at hstep ⊢
        rw [Nat.add_comm fuel 1]
        refine .of_steps (.one hstep) ?_
        have hblock : (c.callee b.tip.next s i (c.charged + Frame.cost f.cells)).block? code =
            some f.block := by
          rw [Site.callee, Site.block?, hget]
          rfl
        have hfollows :=
          f.follows hl hfits hmem (hbody hblock) rfl stack { s with own := .ofArgs f.paramIds args }
        rw [Site.active_callee hget] at hfollows
        refine hfollows.inCall fun signal s' m hm => ?_
        rw [← f.length_frameVars (hl.accepted f hmem) (hl.ordered hmem).1] at hm
        rw [Site.Pushed, (b.add_spec _).2, hm.pushed hget]
  · rw [if_pos hargs] at hstep ⊢
    exact .ended hstep

/-- **Calls are followed at every site**, by induction on the depth to which they may be nested. -/
theorem LabelCode.Lowers.runs (hl : code.Lowers p) (hfits : p.Fits) (host : Host) (fuel : Nat)
    {c : Site} {B : Block} (hB : c.block? code = some B) :
    c.Runs code host fuel (Eval.invoke p.functions host fuel c.charged) B := by
  induction fuel generalizing c B with
  | zero => exact ⟨hB, hl.distinct hB, fun _ _ _ _ _ => ⟨0, _, .zero _, Nat.le_refl 0⟩⟩
  | succ fuel ih =>
    refine ⟨hB, hl.distinct hB, ?_⟩
    intro b count args hpart hcount callee stack s
    cases callee with
    | native f => exact Site.callNative_follows hB hpart hcount f stack s
    | function i =>
      cases hf : p.functions[i]? with
      | some f => exact Site.invoke_follows hl hfits hB hpart hcount hf ih
      | none =>
        have hget : code.functions[i]? = none := by rw [hl.function?, hf]; rfl
        simp only [Eval.invoke, hf]
        refine .ended (?_ : _ = Progress.done (_, c.machine b.tip.next (args.reverse ++ stack) s))
        rw [Site.step_instr hB hpart.instr?_tip]
        cases c <;> simp only [Site.machine, LabelMachine.execute, LabelMachine.call,
          LabelMachine.enter, hget] <;> rfl
    | null | boolean x | number x | string x | array r =>
      refine .ended (?_ : _ = Progress.done (_, c.machine b.tip.next (args.reverse ++ stack) s))
      rw [Site.step_instr hB hpart.instr?_tip]
      cases c <;> rfl

end Calls

end Stackscript
