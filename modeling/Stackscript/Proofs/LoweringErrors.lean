import Stackscript.Proofs.Emission
import Stackscript.Proofs.LoweringFrame

/-!
# Errors of lowering

The lowering of a program goes on after an error, so that all errors can be reported. No action
forgets an error, so if none is reported, then no action has failed.

* `Lower.stable_errors`: single actions forget no error;
* `Lower.KeepsErrors`, for every action, expression and statement;
* **`Lower.KeepsErrors.clean`**: a builder that is left without errors had none before.
-/

namespace Stackscript

namespace Lower

variable {α β : Type}

/-- An action forgets no error that was recorded. -/
def KeepsErrors (x : Lower α) : Prop := ∀ b, b.errors.length ≤ (leaves x b).errors.length

theorem stable_errors : Stable fun b b' => b.errors.length ≤ b'.errors.length where
  refl _ := Nat.le_refl _
  trans := Nat.le_trans
  add _ _ := Nat.le_refl _
  reserve _ := Nat.le_refl _
  start _ _ := Nat.le_refl _
  record _ _ := Nat.le_succ _
  declare _ := Nat.le_refl _
  markClosed _ _ := Nat.le_refl _
  inScope _ h := h
  inFunction _ _ h := h

theorem keepsErrors_pure (a : α) : KeepsErrors (pure a) := along_pure stable_errors a

theorem keepsErrors_fail (span : Span) (e : StaticError) : KeepsErrors (fail span e : Lower α) :=
  along_fail stable_errors span e

theorem keepsErrors_get : KeepsErrors (get : Lower Builder) := along_get stable_errors

theorem keepsErrors_emit (i : Instr) : KeepsErrors (emit i) := along_emit stable_errors i

theorem keepsErrors_reserve : KeepsErrors reserve := along_reserve stable_errors

theorem keepsErrors_fresh : KeepsErrors fresh := along_fresh stable_errors

theorem keepsErrors_bindLabel (l : LabelId) : KeepsErrors (bind l) :=
  along_bindLabel stable_errors l

theorem KeepsErrors.bind {x : Lower α} {f : α → Lower β} (hx : KeepsErrors x)
    (hf : ∀ a, KeepsErrors (f a)) :
    KeepsErrors (x >>= f) := Along.bind stable_errors hx hf

theorem KeepsErrors.inScope {x : Lower α} (hx : KeepsErrors x) (kind : ScopeKind) :
    KeepsErrors (inScope kind x) :=
  Along.inScope stable_errors hx kind

theorem KeepsErrors.recording {x : Lower Unit} (hx : KeepsErrors x) : KeepsErrors (recording x) :=
  Along.recording stable_errors hx

theorem keepsErrors_checkIndexable (object : Expr) : KeepsErrors (checkIndexable object) :=
  along_checkIndexable stable_errors object

theorem keepsErrors_checkCall (span : Span) (callee : Expr) (args : List Expr) :
    KeepsErrors (checkCall span callee args) := along_checkCall stable_errors span callee args

theorem keepsErrors_expr (e : Expr) : KeepsErrors (expr e) := along_expr stable_errors e

theorem keepsErrors_declareAndStore (name : Located String) (constant : Bool) :
    KeepsErrors (declareAndStore name constant) := along_declareAndStore stable_errors name constant

theorem keepsErrors_parameters (owner : Nat) (ps : List (Located String)) :
    KeepsErrors (parameters owner ps) :=
  along_parameters stable_errors owner ps

theorem keepsErrors_stmt (s : Stmt) : KeepsErrors (stmt s) := along_stmt stable_errors s

theorem keepsErrors_stmts (ss : List Stmt) : KeepsErrors (stmts ss) := along_stmts stable_errors ss

/-- An action that leaves no error found none. -/
theorem KeepsErrors.clean {x : Lower α} (hx : KeepsErrors x) {a : α} {b b' : Builder}
    (h : x b = .ok a b') (hb' : b'.errors = []) : b.errors = [] := by
  have hb := hx b
  rw [leaves, h, hb'] at hb
  exact List.length_eq_zero_iff.1 (Nat.le_zero.1 hb)

end Lower

end Stackscript
