import Stackscript.Proofs.ArrayGraph
import Stackscript.Proofs.FoldSound
import Stackscript.Proofs.LoweringCorrect
import Stackscript.Proofs.MachineSafety

/-!
# Accepted programs are safe

A text without errors has an executable, and its run meets no fault: operands, instructions,
variables, constants and routines are always there. The one exception is a write to an array at an
index that is itself an array through which the written one can be reached. What else remains lies
where words can no longer count: frames of almost as many bytes as there are addresses, and more
constants than operands can name.

* `Eval.Spared`, with **`Eval.stmts_spared`**: what declares a function never finds anything else;
* **`no_internal_errors`**.
-/

namespace Stackscript

open Relation

/-! ## Declarations of functions -/

namespace Eval

/-- An evaluation never ends because something else stands where a function is declared. -/
def Spared {α : Type} (x : Eval α) : Prop :=
  ∀ s halt calls s', x s = .error (.halted halt calls) s' → ∀ top, halt ≠ .fault (.notFunction top)

variable {α β : Type} {call : Value → List Value → Eval Value}

theorem spared_of_ok {x : Eval α} (h : ∀ s, ∃ a s', x s = .ok a s') : x.Spared := by
  intro s halt calls s' hx
  obtain ⟨a, t, ht⟩ := h s
  cases ht.symm.trans hx

theorem spared_pure (a : α) : Spared (pure a) := spared_of_ok fun s => ⟨a, s, rfl⟩

theorem spared_halt (halt : Halt) (h : ∀ top, halt ≠ .fault (.notFunction top)) :
    Spared (Eval.halt halt : Eval α) := by
  intro s halt' calls s' hx
  cases hx
  exact h

theorem spared_fail (e : Failure) : Spared (fail e : Eval α) := spared_halt (.failed e) nofun

theorem spared_outOfFuel : Spared (throw .outOfFuel : Eval α) := by
  intro s halt calls s' hx
  cases hx

theorem Spared.bind {x : Eval α} {f : α → Eval β} (hx : x.Spared) (hf : ∀ a, (f a).Spared) :
    (x >>= f).Spared := by
  intro s halt calls s' h
  change EStateM.bind x f s = _ at h
  unfold EStateM.bind at h
  split at h
  case h_1 a t _ => exact hf a t halt calls s' h
  case h_2 e t he => cases h; exact hx s halt calls s' he

theorem Spared.ite {c : Prop} [Decidable c] {x y : Eval α} (hx : x.Spared) (hy : y.Spared) :
    (if c then x else y).Spared := by
  split
  · exact hx
  · exact hy

theorem resolve_spared (n : Names) (name : String) : (resolve n name).Spared := by
  unfold resolve
  split
  · exact spared_pure _
  · exact spared_halt (.fault .outOfRange) nofun

theorem operation_spared (r : Heap → Except OperationError Value) : (operation r).Spared := by
  intro s halt calls s' h
  unfold operation at h
  split at h
  · cases h
  · exact spared_fail _ s halt calls s' h

theorem writeElement_spared (target index value : Value) :
    (writeElement target index value).Spared := by
  intro s halt calls s' h
  unfold writeElement at h
  split at h
  · cases h
  · exact spared_fail _ s halt calls s' h
  · exact spared_halt (.fault .overlap) nofun s halt calls s' h

theorem callNative_spared (host : Host) (f : Native) (args : List Value) :
    (callNative host f args).Spared := by
  intro s halt calls s' h
  unfold callNative at h
  split at h
  · exact spared_fail _ s halt calls s' h
  · split at h
    · cases h
    · exact spared_fail _ _ halt calls s' h

theorem Spared.inCall {body : Eval Signal} (h : body.Spared) (name : String) (own : Store) :
    (inCall name own body).Spared := by
  intro s halt calls s' hx
  unfold Eval.inCall at hx
  split at hx
  · cases hx
  case h_2 halt' calls' t ht => cases hx; exact h _ _ _ _ ht
  · cases hx

theorem Spared.truth {x : Eval Value} (h : x.Spared) : (x >>= Eval.truth).Spared :=
  h.bind fun _ => spared_of_ok fun _ => ⟨_, _, rfl⟩

theorem Spared.loop {test : Eval Bool} {body : Eval Signal} (ht : test.Spared) (hb : body.Spared)
    (fuel : Nat) : (loop test body fuel).Spared := by
  induction fuel with
  | zero => exact spared_outOfFuel
  | succ fuel ih =>
    refine ht.bind fun again => ?_
    cases again with
    | false => exact spared_pure _
    | true =>
      refine hb.bind fun signal => ?_
      cases signal with
      | normal | continued => exact ih
      | broken | returned => exact spared_pure _

mutual

theorem expr_spared (hcall : ∀ v args, (call v args).Spared) (n : Names) : ∀ e :
    Expr, (expr call n e).Spared
  | .number .. | .string .. | .boolean .. | .null _ => spared_pure _
  | .array _ items => (exprs_spared hcall n items).bind fun _ => spared_of_ok fun _ => ⟨_, _, rfl⟩
  | .ident _ name => (resolve_spared n name).bind fun _ => spared_of_ok fun _ => ⟨_, _, rfl⟩
  | .binary _ _ left right =>
    (expr_spared hcall n left).bind fun _ => (expr_spared hcall n right).bind fun _ =>
      operation_spared _
  | .unary _ _ arg => (expr_spared hcall n arg).bind fun _ => operation_spared _
  | .cond _ test yes no => (expr_spared hcall n test).bind fun _ =>
      (spared_of_ok fun _ => ⟨_, _, rfl⟩).bind fun _ =>
        (expr_spared hcall n yes).ite (expr_spared hcall n no)
  | .assign _ target value =>
    (resolve_spared n target.val).bind fun _ => (expr_spared hcall n value).bind fun _ =>
      (spared_of_ok fun _ => ⟨_, _, rfl⟩).bind fun _ => spared_pure _
  | .assignAt _ _ object position value => (expr_spared hcall n object).bind fun _ =>
      (expr_spared hcall n position).bind fun _ => (expr_spared hcall n value).bind fun _ =>
        writeElement_spared _ _ _
  | .index _ object position =>
    (expr_spared hcall n object).bind fun _ => (expr_spared hcall n position).bind fun _ =>
      operation_spared _
  | .call _ callee args =>
    (exprs_spared hcall n args).bind fun _ => (expr_spared hcall n callee).bind fun _ => hcall _ _

theorem exprs_spared (hcall : ∀ v args, (call v args).Spared) (n : Names) :
    ∀ es : List Expr, (exprs call n es).Spared
  | [] => spared_pure _
  | e :: es =>
    (expr_spared hcall n e).bind fun _ => (exprs_spared hcall n es).bind fun _ => spared_pure _

end

theorem optional_spared (hcall : ∀ v args, (call v args).Spared) (n : Names) :
    ∀ e : Option Expr, (optional call n e).Spared
  | some e => expr_spared hcall n e
  | none => spared_pure _

theorem Spared.normal {x : Eval α} (h : x.Spared) :
    (do let _ ← x; return Signal.normal : Eval Signal).Spared :=
  h.bind fun _ => spared_pure _

mutual

theorem stmt_spared (hcall : ∀ v args, (call v args).Spared) (fuel : Nat) :
    ∀ (n : Names) (s : Stmt), (stmt call fuel n s).Spared
  | n, .var _ init =>
    (optional_spared hcall n init).bind fun _ => (spared_of_ok fun _ => ⟨_, _, rfl⟩).normal
  | n, .const _ init =>
    (expr_spared hcall n init).bind fun _ => (spared_of_ok fun _ => ⟨_, _, rfl⟩).normal
  | _, .function .. => (spared_of_ok fun _ => ⟨_, _, rfl⟩).normal
  | n, .expr e => (expr_spared hcall n e).normal
  | n, .block body => stmts_spared hcall fuel n body
  | n, .ifThen test yes =>
    (expr_spared hcall n test).bind fun _ => (spared_of_ok fun _ => ⟨_, _, rfl⟩).bind fun _ =>
      (stmt_spared hcall fuel n yes).ite (spared_pure _)
  | n, .ifElse test yes no => (expr_spared hcall n test).bind fun _ =>
      (spared_of_ok fun _ => ⟨_, _, rfl⟩).bind fun _ =>
        (stmt_spared hcall fuel n yes).ite (stmt_spared hcall fuel (yes.after n) no)
  | n, .while test body =>
    (expr_spared hcall n test).truth.loop (stmt_spared hcall fuel n body) fuel
  | n, .return value _ => (optional_spared hcall n value).bind fun _ => spared_pure _
  | _, .break _ | _, .continue _ | _, .empty => spared_pure _

/-- **What declares a function never finds anything else.** -/
theorem stmts_spared (hcall : ∀ v args, (call v args).Spared) (fuel : Nat) :
    ∀ (n : Names) (ss : List Stmt), (stmts call fuel n ss).Spared
  | _, [] => spared_pure _
  | n, s :: ss => (stmt_spared hcall fuel n s).bind fun signal => by
      cases signal with
      | normal => exact stmts_spared hcall fuel (s.after n) ss
      | _ => exact spared_pure _

end

theorem invoke_spared (functions : List FunctionDef) (host : Host) (fuel charged : Nat) (v : Value)
    (args : List Value) : (invoke functions host fuel charged v args).Spared := by
  induction fuel generalizing charged v args with
  | zero => exact spared_outOfFuel
  | succ fuel ih =>
    cases v with
    | native f => exact callNative_spared host f args
    | function i =>
      simp only [invoke]
      split
      · exact spared_halt (.fault .outOfRange) fun _ h => by cases h
      · exact (spared_fail _).ite ((spared_halt (.fault .frameSize) fun _ h => by cases h).ite
          ((spared_fail _).ite ((stmts_spared (ih _) fuel _ _).inCall _ _)))
    | _ => exact spared_fail _

end Eval

section Programs

variable {code : LabelCode} {p : Program} {exe : Executable} {folding : Bool} {host : Host}

/-- The evaluation of a program never ends because something else stands where a function is
declared. -/
theorem Program.Ends.spared {o : Observation} (h : p.Ends host o) (top : Option Value) :
    o.halt ≠ .fault (.notFunction top) := by
  obtain ⟨fuel, h⟩ := h
  have hspared := Eval.stmts_spared (Eval.invoke_spared p.functions host fuel 0) fuel .top p .fresh
  unfold Program.evaluate at h
  split at h
  case h_1 s hs =>
    cases h
    exact Halt.atEnd_ne_fault host s.world _
  case h_2 halt calls s hs =>
    cases h
    exact hspared halt calls s hs top
  case h_3 => cases h

/-- Folding, a run meets what should be a function and is none only if it does without. -/
theorem LabelCode.Ends.of_foldIf {m : LabelMachine} {top : Option Value}
    (h : (code.foldIf folding).Ends host (.fault (.notFunction top)) m) :
    ∃ top' m', code.Ends host (.fault (.notFunction top')) m' := by
  cases folding with
  | false => exact ⟨top, m, h⟩
  | true =>
    obtain ⟨⟨halt, m'⟩, hm', R, -, halike⟩ :=
      (fold_simulates code host).reflects (LabelMachine.ahead_load code) h
    generalize hh : Halt.fault (.notFunction top) = halt' at halike
    cases halike with
    | fault hf =>
      cases hh
      cases hf with
      | same => exact ⟨top, m', hm'⟩
      | notFunction => exact ⟨_, m', hm'⟩
    | _ => cases hh

/-- **Where operands name all constants, a function is found wherever one is declared.** -/
theorem LabelCode.Lowers.ends_spared (hl : code.Lowers p)
    (ha : (code.foldIf folding).AssembledTo exe)
    (hs : exe.Short) (hc : exe.constants.size ≤ UInt32.size) (top : Option Value) (v : Machine) :
    ¬ exe.Ends host (.fault (.notFunction top)) v := by
  intro hv
  have hd := (hl.controlSound.foldIf folding).distinctLabels
  obtain ⟨m, hm, -⟩ := ha.reflects hd (hl.addressable ha hs hc) hv
  obtain ⟨top', m', hm'⟩ := LabelCode.Ends.of_foldIf hm
  exact ((hl.ends_iff (hl.fits ha hs)).2 ⟨_, m', hm', rfl⟩).spared top' rfl

/-- The run of an executable that ends with a fault has met it. -/
theorem Executable.Ends.fault {f : Fault} {v' : Machine} (h : exe.Ends host (.fault f) v') :
    ∃ v bases, exe.Reaches host v bases ∧ v.step exe host = .fault f v' := by
  obtain ⟨v, bases, hv, hdone⟩ := h.last
  refine ⟨v, bases, hv, ?_⟩
  unfold Machine.advance at hdone
  cases hs : v.step exe host with
  | fault f' w => rw [hs] at hdone; cases hdone; rfl
  | exit w =>
    rw [hs] at hdone
    exact absurd (Prod.ext_iff.1 (Progress.done.inj hdone)).1 (Halt.atEnd_ne_fault host _ f)
  | _ => rw [hs] at hdone; cases hdone

end Programs

/-! ## Runs -/

/-- The faults that the run of an accepted program can meet, and where. -/
inductive Machine.Excepted (exe : Executable) (host : Host) (w : Machine) : Fault → Prop where
  /-- The index of a write is an array, and the array that is written to can be reached from it. -/
  | overlap {value : Value} {q r : Ref} {rest : List Value} :
      w.core.stack = value :: .array q :: .array r :: rest →
      ReflTransGen w.core.world.heap.Holds q r → Excepted exe host w .overlap
  /-- The active calls have been charged, within the budget, almost as many bytes as can be
  counted. -/
  | frameSize {r : Routine} : r ∈ exe.routines.toList → w.charged ≤ host.budget →
      byteLimit ≤ w.charged + Frame.cost r.locals → Excepted exe host w .frameSize
  /-- There are more constants than operands can name. -/
  | notFunction (top : Option Value) : UInt32.size < exe.constants.size →
      Excepted exe host w (.notFunction top)

/-- **Accepted programs meet no internal errors.** A text without errors has an executable; if its
chunks are short, its run, whatever the budget, the sink and the clock, meets no fault but the
excepted ones, where they are excepted. -/
theorem no_internal_errors {s : Settings} {source : String} {code : LabelCode}
    (h : s.labelCode source = .ok code) (order : ByteOrder) :
    ∃ exe, s.executable order source = .ok exe ∧
      (exe.Short → ∀ (host : Host) (f : Fault) (v : Machine), exe.Ends host (.fault f) v →
        ∃ w bases, exe.Reaches host w bases ∧ w.step exe host = .fault f v ∧
          w.Excepted exe host f) := by
  obtain ⟨exe, p, lowered, hexe, hl, ha⟩ := Settings.executable_of_labelCode h order
  refine ⟨exe, hexe, fun hshort host f v hv => ?_⟩
  obtain ⟨d, hd⟩ := hl.regular ha hshort
  obtain ⟨w, bases, hw, hstep⟩ := Executable.Ends.fault hv
  have hsound := hd.sound hw
  refine ⟨w, bases, hw, hstep, ?_⟩
  cases hsound.rare hd hstep with
  | core hrare =>
    cases hrare with
    | overlap hstack hmeets =>
      obtain ⟨q, rfl, hreach⟩ := Heap.reaches_of_meets hmeets
      exact .overlap hstack hreach
    | notFunction top =>
      exact .notFunction top (Nat.lt_of_not_le fun hc => hl.ends_spared ha hshort hc top v hv)
  | frameSize hr hsize =>
    rw [hl.fits_locals ha hshort hr] at hsize
    exact .frameSize hr hsound.charged (hsize.resolve_right nofun)

/-- An array that is written to at an index that holds it. -/
def overlappingSource : String :=
  "function f(a, i) \x7b return a[i] = 1; \x7d var a = [0]; f(a, [2, [a]]);"

theorem no_internal_errors_overlapping :
    ∃ code exe v w bases, Settings.standard.labelCode overlappingSource = .ok code ∧
      Settings.standard.executable .big overlappingSource = .ok exe ∧ exe.Short ∧
      exe.Ends ⟨fun _ => .zero, .accepting, 1024⟩ (.fault .overlap) v ∧
      exe.Reaches ⟨fun _ => .zero, .accepting, 1024⟩ w bases ∧
      w.Excepted exe ⟨fun _ => .zero, .accepting, 1024⟩ .overlap := by
  have hrun : ((Settings.standard.executable .big overlappingSource).toOption.map fun exe =>
      decide exe.Short && (match (Machine.load exe .empty).run exe ⟨fun _ => .zero,
      .accepting, 1024⟩ 200 with
        | .fault .overlap _ => true
        | _ => false)) = some true := by decide +kernel
  obtain ⟨code, exe, hcode, hexe, hshort, hrun⟩ := Settings.exists_short_executable hrun
  obtain ⟨exe', hexe', hsafe⟩ := no_internal_errors hcode .big
  cases hexe.symm.trans hexe'
  split at hrun
  case h_1 v hv =>
    have hends : exe.Ends ⟨fun _ => .zero, .accepting, 1024⟩ (.fault .overlap) v := ⟨200, hv⟩
    obtain ⟨w, bases, hw, -, hexcepted⟩ := hsafe hshort _ _ v hends
    exact ⟨code, exe, v, w, bases, hcode, hexe, hshort, hends, hw, hexcepted⟩
  case h_2 => cases hrun

end Stackscript
