import Stackscript.Label.OfTree
import Stackscript.Proofs.Evaluator

/-!
# What programs are lowered to

The label code of a program that is free of static errors, as a function of the tree and of the
names that are known at each point. A block is handed through the tree, and what is emitted goes to
its end.

* `Expr.emit`, `Stmt.emit`, `FunctionDef.lowered`, `Program.main`;
* `Expr.ArraysFit`, `Stmt.ArraysFit`: the items of array literals can be counted by an instruction;
* `Cell.Declared`, the entry of a cell in a table of variables;
* `Expr.Accepted`, `Stmt.Accepted`, `FunctionDef.Accepted`: the rules on names, assignments, calls
  and jumps that a program keeps;
* `LabelCode.Lowers`.
-/

namespace Stackscript

/-- The number of the variable that a name stands for. -/
def Names.idOf (n : Names) (name : String) : VarId := ((n.lookup? name).map Cell.id).getD 0

/-! ## Code -/

mutual

/-- The block after an expression has been emitted. -/
def Expr.emit (n : Names) : Expr → Block → Block
  | .number _ x, b => b.add (.number x)
  | .string _ s, b => b.add (.string s)
  | .boolean _ true, b => b.add .pushTrue
  | .boolean _ false, b => b.add .pushFalse
  | .null _, b => b.add .pushNull
  | .array _ items, b => (Expr.emitAll n items b).add (.makeArray (UInt32.ofNat items.length))
  | .ident _ name, b => b.add (.load (n.idOf name))
  | .binary _ op left right, b => (right.emit n (left.emit n b)).add (.binary op)
  | .unary _ op arg, b => (arg.emit n b).add (.unary op)
  | .cond _ test yes no, b =>
    let tested := test.emit n b
    let otherwise := tested.nextLabel
    let stop := tested.nextLabel + 1
    let jumped := (tested.reserve.2.reserve.2.add (.popJumpIfZero otherwise)).fresh.2
    let taken := ((yes.emit n jumped).add (.goto stop)).bind otherwise
    (no.emit n taken).bind stop
  | .assign _ target value, b =>
    ((value.emit n b).add (.store (n.idOf target.val))).add (.load (n.idOf target.val))
  | .assignAt _ _ object position value, b =>
    (value.emit n (position.emit n (object.emit n b))).add .setIndex
  | .index _ object position, b => (position.emit n (object.emit n b)).add .getIndex
  | .call _ callee args, b =>
    (callee.emit n (Expr.emitAll n args b)).add (.call (UInt8.ofNat args.length))

/-- The block after expressions have been emitted from left to right. -/
def Expr.emitAll (n : Names) : List Expr → Block → Block
  | [], b => b
  | e :: es, b => Expr.emitAll n es (e.emit n b)

end

/-- The block after an expression has been emitted, the push of null if there is none. -/
def Expr.emitOptional (n : Names) : Option Expr → Block → Block
  | some e, b => e.emit n b
  | none, b => b.add .pushNull

mutual

/-- The block after a statement has been emitted. `loop` holds the labels of the condition and of
the end of the nearest loop. -/
def Stmt.emit (n : Names) (loop : Option (LabelId × LabelId)) : Stmt → Block → Block
  | .var _ init, b => (Expr.emitOptional n init b).add (.store n.nextVar)
  | .const _ init, b => (init.emit n b).add (.store n.nextVar)
  | .function .., b =>
    ((b.add (.functionRef n.nextFunction)).add .makeFunction).add (.store n.nextVar)
  | .expr e, b => (e.emit n b).add .pop
  | .block body, b => Stmt.emitAll n loop body b
  | .ifThen test yes, b =>
    let tested := test.emit n b
    let otherwise := tested.nextLabel
    let jumped := (tested.reserve.2.add (.popJumpIfZero otherwise)).fresh.2
    (yes.emit n loop jumped).bind otherwise
  | .ifElse test yes no, b =>
    let tested := test.emit n b
    let otherwise := tested.nextLabel
    let jumped := (tested.reserve.2.add (.popJumpIfZero otherwise)).fresh.2
    let taken := yes.emit n loop jumped
    let stop := taken.nextLabel
    let other := (taken.reserve.2.add (.goto stop)).bind otherwise
    (no.emit (yes.after n) loop other).bind stop
  | .while test body, b =>
    let stop := b.nextLabel
    let condition := b.nextLabel + 1
    let started := b.reserve.2.fresh.2
    let jumped := ((test.emit n started).add (.popJumpIfZero stop)).fresh.2
    ((body.emit n (some (condition, stop)) jumped).add (.goto condition)).bind stop
  | .return value _, b => (Expr.emitOptional n value b).add .ret
  | .break _, b =>
    match loop with
    | some (_, stop) => b.add (.goto stop)
    | none => b
  | .continue _, b =>
    match loop with
    | some (condition, _) => b.add (.goto condition)
    | none => b
  | .empty, b => b

/-- The block after statements have been emitted in order. -/
def Stmt.emitAll (n : Names) (loop : Option (LabelId × LabelId)) : List Stmt → Block → Block
  | [], b => b
  | s :: ss, b => Stmt.emitAll (s.after n) loop ss (s.emit n loop b)

end

namespace FunctionDef

/-- The block of a function: null is returned at the end of a body that does not end in a return. -/
def block (f : FunctionDef) : Block :=
  let b := Stmt.emitAll f.inner none f.body .empty
  if f.body.getLast?.any Lower.isReturn then b else (b.add .pushNull).add .ret

/-- The label code of a function. -/
def lowered (f : FunctionDef) : LabelFunction := ⟨f.name, f.paramIds, f.block⟩

end FunctionDef

/-- The block of the top level. -/
def Program.main (p : Program) : Block := (Stmt.emitAll .top none p .empty).fresh.2.add .exit

/-! ## Array literals -/

mutual

/-- The items of every array literal can be counted by an instruction. -/
def Expr.ArraysFit : Expr → Prop
  | .number .. | .string .. | .boolean .. | .null _ | .ident .. => True
  | .array _ items => items.length < UInt32.size ∧ Expr.AllArraysFit items
  | .binary _ _ left right => left.ArraysFit ∧ right.ArraysFit
  | .unary _ _ arg => arg.ArraysFit
  | .cond _ test yes no => test.ArraysFit ∧ yes.ArraysFit ∧ no.ArraysFit
  | .assign _ _ value => value.ArraysFit
  | .assignAt _ _ object position value => object.ArraysFit ∧ position.ArraysFit ∧ value.ArraysFit
  | .index _ object position => object.ArraysFit ∧ position.ArraysFit
  | .call _ callee args => Expr.AllArraysFit args ∧ callee.ArraysFit

/-- The items of every array literal of expressions can be counted. -/
def Expr.AllArraysFit : List Expr → Prop
  | [] => True
  | e :: es => e.ArraysFit ∧ Expr.AllArraysFit es

end

/-- The items of every array literal can be counted, if there is an expression. -/
def Expr.OptionalArraysFit : Option Expr → Prop
  | some e => e.ArraysFit
  | none => True

mutual

/-- The items of every array literal can be counted; the bodies of inner functions are left out. -/
def Stmt.ArraysFit : Stmt → Prop
  | .var _ init => Expr.OptionalArraysFit init
  | .const _ init => init.ArraysFit
  | .expr e => e.ArraysFit
  | .block body => Stmt.AllArraysFit body
  | .ifThen test yes => test.ArraysFit ∧ yes.ArraysFit
  | .ifElse test yes no => test.ArraysFit ∧ yes.ArraysFit ∧ no.ArraysFit
  | .while test body => test.ArraysFit ∧ body.ArraysFit
  | .return value _ => Expr.OptionalArraysFit value
  | .function .. | .break _ | .continue _ | .empty => True

/-- The items of every array literal of statements can be counted. -/
def Stmt.AllArraysFit : List Stmt → Prop
  | [] => True
  | s :: ss => s.ArraysFit ∧ Stmt.AllArraysFit ss

end

/-! ## Rules -/

/-- The function in whose calls a cell is kept. -/
def Cell.owner : Cell → Option Nat
  | .own f _ => some f
  | _ => none

/-- The storage of the variable of a cell. -/
def Cell.StoredAs (v : Variable) : Cell → Prop
  | .native slot => v.storage = .native ∧ NativeEntry.slot? v.name = some slot
  | .shared _ => v.storage.isGlobal = true
  | .own _ _ => v.storage.isGlobal = false ∧ v.storage ≠ .native

/-- The variable of a cell stands in a table under its name. -/
def Cell.Declared (vars : Array Variable) (name : String) (c : Cell) : Prop :=
  ∃ v, vars[c.id]? = some v ∧ v.name = name ∧ v.owner = c.owner ∧ c.StoredAs v

/-- A name stands for a cell, and not for one of an outer function. -/
structure Names.Finds (vars : Array Variable) (n : Names) (name : String) (c : Cell) : Prop where
  lookup : n.lookup? name = some c
  declared : c.Declared vars name
  current : ∀ f, c.owner = some f → n.function = some f

theorem Names.Finds.idOf {vars : Array Variable} {n : Names} {name : String} {c : Cell}
    (h : n.Finds vars name c) : n.idOf name = c.id := by
  rw [Names.idOf, h.lookup]
  rfl

/-- A name is in scope, or is that of a native. -/
theorem Names.lookup?_cases {n : Names} {name : String} {c : Cell} (h : n.lookup? name = some c) :
    (name, c) ∈ n.bound ∨ ∃ slot, NativeEntry.slot? name = some slot ∧ c = .native slot := by
  unfold Names.lookup? at h
  cases hl : n.bound.lookup name with
  | some c' =>
    rw [hl] at h
    cases h
    obtain ⟨l₁, l₂, hbound, -⟩ := List.lookup_eq_some_iff.1 hl
    exact .inl (by rw [hbound]; simp)
  | none =>
    rw [hl, Option.none_or] at h
    obtain ⟨slot, hslot, rfl⟩ := Option.map_eq_some_iff.1 h
    exact .inr ⟨slot, hslot, rfl⟩

mutual

/-- An expression keeps the rules. -/
def Expr.Accepted (vars : Array Variable) (n : Names) : Expr → Prop
  | .number .. | .string .. | .boolean .. | .null _ => True
  | .array _ items => Expr.AcceptedAll vars n items
  | .ident _ name => ∃ c, n.Finds vars name c
  | .binary _ _ left right => left.Accepted vars n ∧ right.Accepted vars n
  | .unary _ _ arg => arg.Accepted vars n
  | .cond _ test yes no => test.Accepted vars n ∧ yes.Accepted vars n ∧ no.Accepted vars n
  | .assign _ target value =>
    (∃ c, n.Finds vars target.val c ∧ ∀ slot, c ≠ .native slot) ∧ value.Accepted vars n
  | .assignAt _ _ object position value =>
    object.Accepted vars n ∧ position.Accepted vars n ∧ value.Accepted vars n
  | .index _ object position => object.Accepted vars n ∧ position.Accepted vars n
  | .call _ callee args =>
    args.length ≤ maxArguments ∧ Expr.AcceptedAll vars n args ∧ callee.Accepted vars n

/-- Expressions keep the rules. -/
def Expr.AcceptedAll (vars : Array Variable) (n : Names) : List Expr → Prop
  | [] => True
  | e :: es => e.Accepted vars n ∧ Expr.AcceptedAll vars n es

end

/-- An expression keeps the rules, if there is one. -/
def Expr.AcceptedOptional (vars : Array Variable) (n : Names) : Option Expr → Prop
  | some e => e.Accepted vars n
  | none => True

mutual

/-- A statement keeps the rules; the bodies of inner functions are left out. -/
def Stmt.Accepted (vars : Array Variable) (n : Names) (inLoop : Bool) : Stmt → Prop
  | .var name init => Expr.AcceptedOptional vars n init ∧ n.cell.Declared vars name.val
  | .const name init => init.Accepted vars n ∧ n.cell.Declared vars name.val
  | .function name _ _ => n.cell.Declared vars name.val
  | .expr e => e.Accepted vars n
  | .block body => Stmt.AcceptedAll vars n inLoop body
  | .ifThen test yes => test.Accepted vars n ∧ yes.Accepted vars n inLoop
  | .ifElse test yes no =>
    test.Accepted vars n ∧ yes.Accepted vars n inLoop ∧ no.Accepted vars (yes.after n) inLoop
  | .while test body => test.Accepted vars n ∧ body.Accepted vars n true
  | .return value _ => n.function.isSome = true ∧ Expr.AcceptedOptional vars n value
  | .break _ | .continue _ => inLoop = true
  | .empty => True

/-- Statements keep the rules. -/
def Stmt.AcceptedAll (vars : Array Variable) (n : Names) (inLoop : Bool) : List Stmt → Prop
  | [] => True
  | s :: ss => s.Accepted vars n inLoop ∧ Stmt.AcceptedAll vars (s.after n) inLoop ss

end

/-- A function keeps the rules; the bodies of inner functions are left out. -/
structure FunctionDef.Accepted (vars : Array Variable) (f : FunctionDef) : Prop where
  params : f.params.length ≤ maxArguments
  body : Stmt.AcceptedAll vars f.inner false f.body
  declared : List.Forall₂ (fun param id =>
    (Cell.own f.names.nextFunction id).Declared vars param.val) f.params f.paramIds

/-- **Label code is what a program is lowered to**, and the program keeps the rules. -/
structure LabelCode.Lowers (code : LabelCode) (p : Program) : Prop where
  main : code.main = p.main
  functions : code.functions.toList = p.functions.map FunctionDef.lowered
  top : Stmt.AcceptedAll code.vars .top false p
  accepted : ∀ f ∈ p.functions, f.Accepted code.vars

end Stackscript
