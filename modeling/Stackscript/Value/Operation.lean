import Stackscript.Operator
import Stackscript.Value.Text

/-!
# Operations on values

What the operators and the index forms compute. The folder and the machine both use these
functions, so a folded expression is what running it would have given.

* `OperationError`, `OperationError.message`;
* `Value.binary`, `Heap.unary`;
* `Value.toIndex`, `Heap.getIndex`, `Heap.setIndex`.
-/

namespace Stackscript

/-- Why an operation has no result. -/
inductive OperationError where
  /-- The operands are not of kinds that the operator takes. -/
  | operands (op : BinaryOperator) (left right : Value)
  | divisionByZero
  /-- The operand is not of a kind that the operator takes. -/
  | operand (op : UnaryOperator) (value : Value)
  | indexKind (index : Value)
  | indexRange (index : Number) (length : Nat)
  | notIndexable (target : Value)
  | stringElement
deriving DecidableEq

/-- The wording of an operation error; values are quoted as they stand in the heap. -/
def OperationError.message (h : Heap) : OperationError → String
  | .operands op left right =>
    "Cannot perform binary operation " ++ op.symbol ++ " on values " ++ h.quote left ++ " and " ++
      h.quote right
  | .divisionByZero => "Division by zero"
  | .operand op value =>
    "Cannot perform unary operation " ++ op.symbol ++ " on value " ++ h.quote value
  | .indexKind index => "Index must be a number, got " ++ h.quote index
  | .indexRange index length =>
    "Index " ++ index.text ++ " out of bounds for length " ++ toString length
  | .notIndexable target =>
    "Cannot index " ++ target.typeName ++ " value " ++ h.quote target
  | .stringElement => "Cannot assign to an index of a string"

namespace Value

/-- The result of an arithmetic or ordering operator on two numbers. -/
def arithmetic (op : BinaryOperator) (a b : Number) : Except OperationError Value :=
  match op with
  | .add => .ok (.number (a.add b))
  | .subtract => .ok (.number (a.sub b))
  | .multiply => .ok (.number (a.mul b))
  | .divide => if b.isZero then .error .divisionByZero else .ok (.number (a.div b))
  | .modulo => if b.isZero then .error .divisionByZero else .ok (.number (a.modulo b))
  | .less => .ok (.boolean (a.lt b))
  | .greater => .ok (.boolean (b.lt a))
  | .lessEqual => .ok (.boolean (a.le b))
  | .greaterEqual => .ok (.boolean (b.le a))
  | .notEqual => .ok (.boolean (!a.eq b))
  | .equal => .ok (.boolean (a.eq b))

/-- The result of a binary operator. Equality takes all values, addition takes two strings, and
everything else takes what counts as a number. -/
def binary (op : BinaryOperator) (left right : Value) : Except OperationError Value :=
  match op, left, right with
  | .equal, _, _ => .ok (.boolean (left.equals right))
  | .notEqual, _, _ => .ok (.boolean (!left.equals right))
  | .add, .string a, .string b => .ok (.string (a ++ b))
  | op, _, _ =>
    match left.asNumber?, right.asNumber? with
    | some a, some b => arithmetic op a b
    | _, _ => .error (.operands op left right)

/-- The position that a value names in a sequence of the given length. -/
def toIndex (index : Value) (length : Nat) : Except OperationError Nat :=
  match index with
  | .number n =>
    match n.toNat? with
    | some i => if i < length then .ok i else .error (.indexRange n length)
    | none => .error (.indexRange n length)
  | v => .error (.indexKind v)

end Value

/-- What became of a write to an element. -/
inductive Written where
  | done (h : Heap)
  | failed (e : OperationError)
  /-- The message about the index would have to show the array that is being written to. -/
  | overlap

namespace Heap

/-- The result of a unary operator. -/
def unary (h : Heap) (op : UnaryOperator) (value : Value) : Except OperationError Value :=
  match op with
  | .not => .ok (.boolean (!h.truthy value))
  | .negate =>
    match value.asNumber? with
    | some n => .ok (.number n.neg)
    | none => .error (.operand op value)

/-- The element of an array, or the character of a string, at an index. -/
def getIndex (h : Heap) (target index : Value) : Except OperationError Value :=
  match target with
  | .array r => do
    let i ← index.toIndex (h.items r).size
    return (h.items r).getD i .null
  | .string s => do
    let i ← index.toIndex s.length
    return .string (String.singleton (s.toList.getD i '\x00'))
  | v => .error (.notIndexable v)

/-- The write of an element of an array. -/
def setIndex (h : Heap) (target index value : Value) : Written :=
  match target with
  | .array r =>
    match index.toIndex (h.items r).size with
    | .ok i => .done (h.replace r i value)
    | .error e => if h.meets r [] index then .overlap else .failed e
  | .string _ => .failed .stringElement
  | v => .failed (.notIndexable v)

end Heap

end Stackscript
