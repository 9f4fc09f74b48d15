/-!
# Operators

The operators of the language with the symbols by which they are written and the tags by which
bytecode names them.
-/

namespace Stackscript

/-- The operators with two operands. -/
inductive BinaryOperator where
  | add
  | subtract
  | multiply
  | divide
  | modulo
  | less
  | greater
  | lessEqual
  | greaterEqual
  | notEqual
  | equal
deriving DecidableEq, Inhabited

namespace BinaryOperator

/-- Every binary operator, in the order of the tags. -/
def all : List BinaryOperator :=
  [.add, .subtract, .multiply, .divide, .modulo, .less, .greater, .lessEqual, .greaterEqual,
    .notEqual, .equal]

def symbol : BinaryOperator → String
  | .add => "+"
  | .subtract => "-"
  | .multiply => "*"
  | .divide => "/"
  | .modulo => "%"
  | .less => "<"
  | .greater => ">"
  | .lessEqual => "<="
  | .greaterEqual => ">="
  | .notEqual => "!="
  | .equal => "=="

/-- The byte that names the operator in bytecode. -/
def tag : BinaryOperator → UInt8
  | .add => 0
  | .subtract => 1
  | .multiply => 2
  | .divide => 3
  | .modulo => 4
  | .less => 5
  | .greater => 6
  | .lessEqual => 7
  | .greaterEqual => 8
  | .notEqual => 9
  | .equal => 10

/-- The operator that a byte names. -/
def ofTag? (t : UInt8) : Option BinaryOperator := all[t.toNat]?

end BinaryOperator

/-- The operators with one operand. -/
inductive UnaryOperator where
  | negate
  | not
deriving DecidableEq, Inhabited

namespace UnaryOperator

/-- Every unary operator, in the order of the tags. -/
def all : List UnaryOperator := [.negate, .not]

def symbol : UnaryOperator → String
  | .negate => "-"
  | .not => "!"

/-- The byte that names the operator in bytecode. -/
def tag : UnaryOperator → UInt8
  | .negate => 0
  | .not => 1

/-- The operator that a byte names. -/
def ofTag? (t : UInt8) : Option UnaryOperator := all[t.toNat]?

end UnaryOperator

end Stackscript
