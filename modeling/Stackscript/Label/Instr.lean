import Stackscript.Operator
import Stackscript.Value.Text

/-!
# Label code: instructions and variables

Label code is what programs are lowered to: straight-line instructions that name variables by
number and jump targets by label. Where a variable lives is its storage.

Variables, labels and functions are numbered without a bound here. Where the numbers are words of
32 bits, results about lowering are about programs with fewer than `2 ^ 32` variables and functions,
and fewer than `2 ^ 32` labels in each function; up to there a counter of 32 bits gives out the same
names (`Block.agrees_run`).

* `Storage`: `isConstant`, `isGlobal`, `closed`;
* `Variable`;
* `Instr`: `jumpTarget?`, `text`;
* constants: `Instr.truth?`, `Instr.isConstant`, `Instr.constant?`, `Instr.ofValue?`.
-/

namespace Stackscript

/-- The number of a variable, below `2 ^ 32` if it has to fit in a word. -/
abbrev VarId := Nat

/-- The name of a jump target, below `2 ^ 32` if it has to fit in a word. -/
abbrev LabelId := Nat

/-- The text of a jump target. -/
def LabelId.text (l : LabelId) : String := ".L" ++ toString l

/-- How and where a variable is kept. -/
inductive Storage where
  | globalConstant
  | globalMutable
  | functionConstant
  | functionMutable
  /-- A constant that an inner function refers to. -/
  | closedConstant
  /-- A variable that an inner function refers to. -/
  | closedMutable
  /-- An entry of the native table. -/
  | native
deriving DecidableEq, Inhabited

namespace Storage

/-- Nothing may be assigned to the variable. -/
def isConstant : Storage → Bool
  | .globalConstant | .functionConstant | .closedConstant | .native => true
  | .globalMutable | .functionMutable | .closedMutable => false

/-- The variable is kept once for the whole program. -/
def isGlobal : Storage → Bool
  | .globalConstant | .globalMutable => true
  | _ => false

/-- The storage that a variable moves to when an inner function refers to it. -/
def closed : Storage → Storage
  | .globalConstant | .functionConstant | .closedConstant => .closedConstant
  | .globalMutable | .functionMutable | .closedMutable => .closedMutable
  | .native => .native

end Storage

/-- A declared variable. -/
structure Variable where
  name : String
  storage : Storage
  /-- The depth of the declaring scope: zero for the top level, minus one for natives. -/
  scopeIndex : Int
  /-- The function whose body declares it, if one does. -/
  owner : Option Nat
deriving DecidableEq, Inhabited

/-- An instruction of label code. -/
inductive Instr where
  | pop
  | pushTrue
  | pushFalse
  | pushNull
  | ret
  | exit
  | goto (target : LabelId)
  | popJumpIfZero (target : LabelId)
  | popJumpIfNonzero (target : LabelId)
  | binary (op : BinaryOperator)
  | unary (op : UnaryOperator)
  | number (n : Number)
  | string (s : String)
  | makeArray (count : UInt32)
  | functionRef (index : Nat)
  | load (id : VarId)
  | store (id : VarId)
  | call (count : UInt8)
  | makeFunction
  | getIndex
  | setIndex
deriving DecidableEq, Inhabited

namespace Instr

/-- The label that a jump names. -/
def jumpTarget? : Instr → Option LabelId
  | .goto l | .popJumpIfZero l | .popJumpIfNonzero l => some l
  | _ => none

/-- The text of an instruction, with variables by number. -/
def text : Instr → String
  | .pop => "Pop"
  | .pushTrue => "True"
  | .pushFalse => "False"
  | .pushNull => "Null"
  | .ret => "Return"
  | .exit => "Exit"
  | .goto l => "Goto " ++ LabelId.text l
  | .popJumpIfZero l => "PopJumpIfZero " ++ LabelId.text l
  | .popJumpIfNonzero l => "PopJumpIfNonzero " ++ LabelId.text l
  | .binary op => "BinaryOp " ++ op.symbol
  | .unary op => "UnaryOp " ++ op.symbol
  | .number n => "Number " ++ n.listing
  | .string s => "String " ++ Text.quoted s
  | .makeArray n => "MakeArray " ++ toString n.toNat
  | .functionRef i => "GetFunctionReference " ++ toString i
  | .load id => "Load v" ++ toString id
  | .store id => "Store v" ++ toString id
  | .call n => "Call " ++ toString n.toNat
  | .makeFunction => "MakeFunction"
  | .getIndex => "GetIndex"
  | .setIndex => "SetIndex"

/-! ## Constants -/

/-- The truth value of what a constant instruction pushes. Of the array instructions only that of
the empty array is constant. -/
def truth? : Instr → Option Bool
  | .pushTrue => some true
  | .pushFalse => some false
  | .pushNull => some false
  | .number n => some (!n.isNaN && !n.isZero)
  | .string s => some !s.isEmpty
  | .makeArray n => if n = 0 then some false else none
  | .functionRef _ => some true
  | _ => none

/-- The instruction pushes a known value and does nothing else. -/
def isConstant (i : Instr) : Bool := i.truth?.isSome

/-- The value that a constant instruction pushes, in a heap that may have grown by a new array. -/
def constant? (h : Heap) : Instr → Option (Value × Heap)
  | .pushTrue => some (.boolean true, h)
  | .pushFalse => some (.boolean false, h)
  | .pushNull => some (.null, h)
  | .number n => some (.number n, h)
  | .string s => some (.string s, h)
  | .makeArray n =>
    if n = 0 then
      let (r, h) := h.alloc #[]
      some (.array r, h)
    else none
  | .functionRef i => some (.function i, h)
  | _ => none

/-- The constant instruction that pushes a value, if there is one. -/
def ofValue? : Value → Option Instr
  | .boolean true => some .pushTrue
  | .boolean false => some .pushFalse
  | .null => some .pushNull
  | .number n => some (.number n)
  | .string s => some (.string s)
  | .function i => some (.functionRef i)
  | .array _ | .native _ => none

end Instr

end Stackscript
