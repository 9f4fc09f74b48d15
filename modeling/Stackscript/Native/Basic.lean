/-!
# Native functions

The functions that the host provides. A native is known to programs by its name and is called with
exactly as many arguments as its arity says.
-/

namespace Stackscript

/-- The functions that the host provides. -/
inductive Native where
  | print
  | println
  | clock
  | len
  | append
  | includes
  | sqrt
  | floor
  | abs
  | pow
deriving DecidableEq, Inhabited

namespace Native

def name : Native → String
  | .print => "print"
  | .println => "println"
  | .clock => "clock"
  | .len => "len"
  | .append => "append"
  | .includes => "includes"
  | .sqrt => "sqrt"
  | .floor => "floor"
  | .abs => "abs"
  | .pow => "pow"

/-- The number of arguments that a call passes. -/
def arity : Native → Nat
  | .print => 1
  | .println => 1
  | .clock => 0
  | .len => 1
  | .append => 2
  | .includes => 2
  | .sqrt => 1
  | .floor => 1
  | .abs => 1
  | .pow => 2

end Native

end Stackscript
