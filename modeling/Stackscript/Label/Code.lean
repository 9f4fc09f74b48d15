import Stackscript.Label.Block

/-!
# Programs in label code

A program is a block for the top level, a block for every function, and the table of its variables.

* `LabelFunction`, `LabelCode`;
* `LabelCode.text?`, the text of a program with variables by name.
-/

namespace Stackscript

/-- A function in label code. -/
structure LabelFunction where
  name : String
  /-- The parameters in order. -/
  parameters : List VarId
  block : Block
deriving DecidableEq, Inhabited

/-- The number of parameters, as the byte that calls carry. -/
def LabelFunction.arity (f : LabelFunction) : Nat := f.parameters.length % 256

/-- A program in label code. -/
structure LabelCode where
  main : Block
  functions : Array LabelFunction
  /-- The variables by number. -/
  vars : Array Variable
deriving DecidableEq, Inhabited

namespace LabelCode

/-- The text of an instruction with variables by name; there is none if a variable is unknown. -/
def instrText? (vars : Array Variable) : Instr → Option String
  | .load id => vars[id]?.map fun v => "Load " ++ v.name
  | .store id => vars[id]?.map fun v => "Store " ++ v.name
  | i => some i.text

/-- The text of a label. -/
def labelText? (vars : Array Variable) (l : Label) : Option String := do
  let lines ← l.code.toList.mapM (instrText? vars)
  return LabelId.text l.id ++ ":\n" ++ String.join (lines.map fun line => "    " ++ line ++ "\n")

/-- The text of a block. -/
def blockText? (vars : Array Variable) (b : Block) : Option String := do
  return String.join (← b.labels.toList.mapM (labelText? vars))

/-- The text of a function with its index. -/
def functionText? (vars : Array Variable) : LabelFunction × Nat → Option String
  | (f, i) => do
    let body ← blockText? vars f.block
    return "\nfunction #" ++ toString i ++ " " ++ f.name ++ "(" ++
      toString f.arity ++ "):\n" ++ body

/-- The text of a program; there is none if an instruction names an unknown variable. -/
def text? (code : LabelCode) : Option String := do
  let main ← blockText? code.vars code.main
  let functions ← code.functions.toList.zipIdx.mapM (functionText? code.vars)
  return "main:\n" ++ main ++ String.join functions

end LabelCode

end Stackscript
