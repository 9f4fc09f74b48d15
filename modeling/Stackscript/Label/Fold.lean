import Stackscript.Label.Code
import Stackscript.Value.Operation

/-!
# Constant folding

Inside each label, operators on constants are replaced by their results, conditional jumps on
constants by unconditional ones or by nothing, and constants that are dropped at once are left out.
The results are those of running the code; an operation that fails is left to fail at run time.

* `fold?`, one replacement against the instructions kept so far;
* `foldLabel`, `Block.fold`, `LabelCode.fold`.
-/

namespace Stackscript

/-- The constant that a unary operator makes of a constant. -/
def foldUnary? (op : UnaryOperator) (value : Instr) : Option Instr := do
  let (v, h) ← value.constant? .empty
  match h.unary op v with
  | .ok result => Instr.ofValue? result
  | .error _ => none

/-- The constant that a binary operator makes of two constants. -/
def foldBinary? (op : BinaryOperator) (left right : Instr) : Option Instr := do
  let (l, h) ← left.constant? .empty
  let (r, _) ← right.constant? h
  match l.binary op r with
  | .ok result => Instr.ofValue? result
  | .error _ => none

/-- The instructions kept, newest first, once an instruction has been folded into them; `none` if
it cannot be folded. -/
def fold? (kept : List Instr) (i : Instr) : Option (List Instr) :=
  match i, kept with
  | .popJumpIfZero target, last :: rest =>
    last.truth?.map fun truth => if truth then rest else .goto target :: rest
  | .popJumpIfNonzero target, last :: rest =>
    last.truth?.map fun truth => if truth then .goto target :: rest else rest
  | .binary op, right :: left :: rest => (foldBinary? op left right).map (· :: rest)
  | .unary op, last :: rest => (foldUnary? op last).map (· :: rest)
  | .pop, last :: rest => if last.isConstant then some rest else none
  | _, _ => none

/-- The instructions kept, newest first, after one more instruction. -/
def foldStep (kept : List Instr) (i : Instr) : List Instr := (fold? kept i).getD (i :: kept)

/-- The folded instructions of a label. -/
def foldLabel (code : List Instr) : List Instr := (code.foldl foldStep []).reverse

/-- The block with every label folded. -/
def Block.fold {C : Type} (b : Block C) : Block C := b.mapCode foldLabel

/-- The program with every block folded. -/
def LabelCode.fold (code : LabelCode) : LabelCode :=
  { code with
    main := code.main.fold
    functions := code.functions.map fun f => { f with block := f.block.fold } }

end Stackscript
