import Stackscript.Tree.Basic
import Stackscript.Tree.Cursor

/-!
# Reading expressions

Expressions are read by precedence climbing: an operand, then as many operators as bind at least as
tightly as asked for, each with its right operand.

The readers call each other under a bound on the nesting of calls. `Reading.expression` chooses it
from the number of tokens left.

* `Precedence`: `level`, `next`, `ofToken?`;
* `Reading.climb`, `operand`, `operators`, `operator`, `list`, `items`, from any source of tokens;
* `Reading.expression`, `Parser.expression`.
-/

namespace Stackscript

/-- How tightly an operator binds. -/
inductive Precedence where
  | assignment
  | conditional
  | equality
  | comparison
  | term
  | factor
  | unary
  | suffix
deriving DecidableEq, Inhabited

namespace Precedence

/-- The rank of a precedence, loosest first. -/
def level : Precedence → Nat
  | .assignment => 0
  | .conditional => 1
  | .equality => 2
  | .comparison => 3
  | .term => 4
  | .factor => 5
  | .unary => 6
  | .suffix => 7

/-- The next tighter precedence. -/
def next : Precedence → Precedence
  | .assignment => .conditional
  | .conditional => .equality
  | .equality => .comparison
  | .comparison => .term
  | .term => .factor
  | .factor => .unary
  | .unary => .suffix
  | .suffix => .suffix

end Precedence

/-- The binary operator that a symbol writes, with its precedence. -/
def Symbol.binaryOperator? : Symbol → Option (BinaryOperator × Precedence)
  | .plus => some (.add, .term)
  | .minus => some (.subtract, .term)
  | .star => some (.multiply, .factor)
  | .slash => some (.divide, .factor)
  | .percent => some (.modulo, .factor)
  | .less => some (.less, .comparison)
  | .greater => some (.greater, .comparison)
  | .lessEqual => some (.lessEqual, .comparison)
  | .greaterEqual => some (.greaterEqual, .comparison)
  | .equalEqual => some (.equal, .equality)
  | .bangEqual => some (.notEqual, .equality)
  | _ => none

/-- What a token behind an operand continues it to. -/
inductive Continuation where
  | assignment
  | conditional
  | binary (op : BinaryOperator) (precedence : Precedence)
  | call
  | index
deriving DecidableEq

namespace Continuation

/-- The continuation that a token announces, if it announces one. -/
def ofToken? : Token → Option Continuation
  | .symbol .equal => some .assignment
  | .symbol .question => some .conditional
  | .symbol .leftParen => some .call
  | .symbol .leftBracket => some .index
  | .symbol s => s.binaryOperator?.map fun (op, p) => .binary op p
  | _ => none

def precedence : Continuation → Precedence
  | .assignment => .assignment
  | .conditional => .conditional
  | .binary _ p => p
  | .call => .suffix
  | .index => .suffix

end Continuation

namespace Reading

variable {m : Type → Type} [Reading m]

mutual

/-- Reads an expression whose operators bind at least as tightly as `min`. -/
def climb : Nat → Precedence → m Expr
  | 0, _ => stop .outOfFuel
  | fuel + 1, min => do
    let token ← next
    let left ← operand fuel token
    operators fuel min left

/-- Reads the operand that starts with a token just passed over. -/
def operand : Nat → Located Token → m Expr
  | 0, _ => stop .outOfFuel
  | fuel + 1, ⟨span, token⟩ =>
    match token with
    | .number n => return .number span n
    | .string s => return .string span s
    | .keyword .true => return .boolean span true
    | .keyword .false => return .boolean span false
    | .keyword .null => return .null span
    | .identifier name => return .ident span name
    | .symbol .leftParen => do
      let inner ← climb fuel .assignment
      expect .rightParen
      return inner.withSpan (span.join (← lastSpan))
    | .symbol .leftBracket => do
      let elements ← list fuel .rightBracket
      return .array (span.join (← lastSpan)) elements
    | .symbol .minus => do
      let arg ← climb fuel .unary
      return .unary (span.join arg.span) .negate arg
    | .symbol .bang => do
      let arg ← climb fuel .unary
      return .unary (span.join arg.span) .not arg
    | found => fail span (.expectedExpression found)

/-- Reads the operators behind `left` that bind at least as tightly as `min`. -/
def operators : Nat → Precedence → Expr → m Expr
  | 0, _, _ => stop .outOfFuel
  | fuel + 1, min, left => do
    match Continuation.ofToken? (← current).val with
    | none => return left
    | some k =>
      if k.precedence.level < min.level then return left
      else
        let _ ← next
        let e ← operator fuel k left
        operators fuel min e

/-- Reads what follows an operator behind `left` that was just passed over. -/
def operator : Nat → Continuation → Expr → m Expr
  | 0, _, _ => stop .outOfFuel
  | fuel + 1, k, left => do
    match k with
    | .assignment =>
      match left with
      | .ident target name =>
        let value ← climb fuel .assignment
        return .assign (left.span.join (← lastSpan)) ⟨target, name⟩ value
      | .index target object index =>
        let value ← climb fuel .assignment
        return .assignAt (left.span.join (← lastSpan)) target object index value
      | _ => fail left.span .invalidTarget
    | .conditional =>
      let yes ← climb fuel .assignment
      expect .colon
      let no ← climb fuel .conditional
      return .cond (left.span.join (← lastSpan)) left yes no
    | .call =>
      let args ← list fuel .rightParen
      return .call (left.span.join (← lastSpan)) left args
    | .index =>
      let index ← climb fuel .assignment
      expect .rightBracket
      return .index (left.span.join (← lastSpan)) left index
    | .binary op p =>
      let right ← climb fuel p.next
      return .binary (left.span.join (← lastSpan)) op left right

/-- Reads expressions between commas up to and with the symbol `close`. -/
def list : Nat → Symbol → m (List Expr)
  | 0, _ => stop .outOfFuel
  | fuel + 1, close => do
    if ← check close then
      let _ ← next
      return []
    else
      let es ← items fuel
      expect close
      return es

/-- Reads one or more expressions between commas. -/
def items : Nat → m (List Expr)
  | 0 => stop .outOfFuel
  | fuel + 1 => do
    let e ← climb fuel .assignment
    if ← check .comma then
      let _ ← next
      return e :: (← items fuel)
    else return [e]

end

/-- Reads an expression. -/
def expression : m Expr := do
  climb (5 * (← ahead) + 5) .assignment

end Reading

namespace Parser

abbrev climb (fuel : Nat) (min : Precedence) : Parser Expr := Reading.climb fuel min

abbrev operand (fuel : Nat) (t : Located Token) : Parser Expr := Reading.operand fuel t

abbrev operators (fuel : Nat) (min : Precedence) (left : Expr) : Parser Expr :=
  Reading.operators fuel min left

abbrev operator (fuel : Nat) (k : Continuation) (left : Expr) : Parser Expr :=
  Reading.operator fuel k left

abbrev list (fuel : Nat) (close : Symbol) : Parser (List Expr) := Reading.list fuel close

abbrev items (fuel : Nat) : Parser (List Expr) := Reading.items fuel

abbrev expression : Parser Expr := Reading.expression

end Parser

end Stackscript
