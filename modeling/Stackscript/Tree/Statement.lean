import Stackscript.Token.Scan
import Stackscript.Tree.Expression

/-!
# Reading statements

A program is read statement by statement. Reading recovers from a syntax error, so that several
errors are found at once; the statement with the error is left out.

* `Reading.statement`, `declaration`, `body`, `statements`, from any source of tokens;
* `SyntaxFailure`, `Program.parse`, `Expr.parse`, `Stmt.parse`.
-/

namespace Stackscript

namespace Reading

variable {m : Type → Type} [Reading m]

/-- Reads the value that a declaration gives to its variable, if it gives one. -/
def initialValue : m (Option Expr) := do
  if ← check .equal then
    let _ ← next
    return some (← expression)
  else return none

/-- Reads one or more identifiers between commas. -/
def names : Nat → m (List (Located String))
  | 0 => stop .outOfFuel
  | fuel + 1 => do
    let name ← expectIdentifier
    if ← check .comma then
      let _ ← next
      return name :: (← names fuel)
    else return [name]

/-- Reads parameters in parentheses. -/
def parameters : m (List (Located String)) := do
  expect .leftParen
  let params ← if ← check .rightParen then pure [] else names ((← ahead) + 1)
  expect .rightParen
  return params

/-- Reads a condition in parentheses. -/
def condition : m Expr := do
  expect .leftParen
  let test ← expression
  expect .rightParen
  return test

mutual

/-- Reads a statement. -/
def statement : Nat → m Stmt
  | 0 => stop .outOfFuel
  | fuel + 1 => do
    let t ← current
    match t.val with
    | .keyword .var =>
      let _ ← next
      let name ← expectIdentifier
      let init ← initialValue
      expect .semicolon
      return .var name init
    | .keyword .const =>
      let _ ← next
      let name ← expectIdentifier
      match ← initialValue with
      | none => fail name.span (.missingInitializer name.val)
      | some init =>
        expect .semicolon
        return .const name init
    | .keyword .function =>
      let _ ← next
      let name ← expectIdentifier
      let params ← parameters
      expect .leftBrace
      return .function name params (← body fuel)
    | .keyword .if =>
      let _ ← next
      let test ← condition
      let yes ← statement fuel
      if (← current).val = .keyword .else then
        let _ ← next
        return .ifElse test yes (← statement fuel)
      else return .ifThen test yes
    | .keyword .while =>
      let _ ← next
      let test ← condition
      return .while test (← statement fuel)
    | .keyword .return =>
      let _ ← next
      let value ← if ← check .semicolon then pure none else (do pure (some (← expression)))
      expect .semicolon
      return .return value (t.span.join (← lastSpan))
    | .keyword .break =>
      let _ ← next
      expect .semicolon
      return .break t.span
    | .keyword .continue =>
      let _ ← next
      expect .semicolon
      return .continue t.span
    | .symbol .leftBrace =>
      let _ ← next
      return .block (← body fuel)
    | .symbol .semicolon =>
      let _ ← next
      return .empty
    | _ =>
      let e ← expression
      expect .semicolon
      return .expr e

/-- Reads a statement and recovers from an error in it; there is no statement then. -/
def declaration : Nat → m (Option Stmt)
  | 0 => stop .outOfFuel
  | fuel + 1 => recovering (statement fuel)

/-- Reads statements up to and with a closing brace. -/
def body : Nat → m (List Stmt)
  | 0 => stop .outOfFuel
  | fuel + 1 => do
    if (← check .rightBrace) || (← atEnd) then
      expect .rightBrace
      return []
    else
      let s ← declaration fuel
      return s.toList ++ (← body fuel)

end

/-- Reads statements up to the end of input. -/
def statements : Nat → m Program
  | 0 => stop .outOfFuel
  | fuel + 1 => do
    if ← atEnd then return []
    else
      let s ← declaration fuel
      return s.toList ++ (← statements fuel)

end Reading

namespace Parser

abbrev initialValue : Parser (Option Expr) := Reading.initialValue

abbrev names (fuel : Nat) : Parser (List (Located String)) := Reading.names fuel

abbrev parameters : Parser (List (Located String)) := Reading.parameters

abbrev condition : Parser Expr := Reading.condition

abbrev statement (fuel : Nat) : Parser Stmt := Reading.statement fuel

abbrev declaration (fuel : Nat) : Parser (Option Stmt) := Reading.declaration fuel

abbrev body (fuel : Nat) : Parser (List Stmt) := Reading.body fuel

abbrev statements (fuel : Nat) : Parser Program := Reading.statements fuel

/-- The bound on the nesting of calls under which statements are read. -/
def statementFuel (c : Cursor) : Nat := 4 * c.remaining + 4

end Parser

/-- Why a text is not a program: what is wrong with its characters, and what is wrong with the order
of its tokens. -/
structure SyntaxFailure where
  lexical : List (Located LexError)
  syntactic : List (Located SyntaxError)
deriving DecidableEq

/-- Reads a program. -/
def Program.parse (source : String) : Except SyntaxFailure Program :=
  let scan := Token.scan source
  let c := Cursor.ofTokens scan.tokens
  match Parser.statements (Parser.statementFuel c) c with
  | .ok program c =>
    if scan.errors.isEmpty && c.errors.isEmpty then .ok program
    else .error ⟨scan.errors, c.errors.reverse⟩
  | .error _ c => .error ⟨scan.errors, c.errors.reverse⟩

/-- Reads the expression at the start of a text. -/
def Expr.parse (source : String) : Except Stop Expr :=
  match Parser.expression (Cursor.ofTokens (Token.scan source).tokens) with
  | .ok e _ => .ok e
  | .error stop _ => .error stop

/-- Reads the statement at the start of a text. -/
def Stmt.parse (source : String) : Except Stop Stmt :=
  let c := Cursor.ofTokens (Token.scan source).tokens
  match Parser.statement (Parser.statementFuel c) c with
  | .ok s _ => .ok s
  | .error stop _ => .error stop

end Stackscript
