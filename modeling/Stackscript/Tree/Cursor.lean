import Stackscript.Token.Basic

/-!
# Reading tokens

A parser moves a cursor over the tokens of a text. The cursor shows the current token and the one
before it, and it collects the syntax errors from which reading has recovered. After a syntax error
reading goes on behind the next semicolon, or at the next token that can only begin a statement.

Readers do little with a cursor: they look at the current token and at the span of the one before,
pass over a token, ask how many there are, stop, and recover. They are written for every monad with
these operations.

* `SyntaxError`, `SyntaxError.message`;
* `Cursor`: `ofTokens`, `advance`, `remaining`, `synchronize`, `recover`;
* `Reading`: the operations; `Reading.fail`, `check`, `atEnd`, `expect`, `expectIdentifier`: the
  readers of single tokens;
* `Parser`, the readers that move a cursor.
-/

namespace Stackscript

/-- What is wrong with the order of the tokens. -/
inductive SyntaxError where
  | expectedExpression (found : Token)
  | expected (wanted : Symbol) (found : Token)
  | expectedIdentifier (found : Token)
  | invalidTarget
  | missingInitializer (name : String)
deriving DecidableEq

/-- The wording of a syntax error. -/
def SyntaxError.message : SyntaxError → String
  | .expectedExpression found => "Expected an expression, found " ++ found.text
  | .expected wanted found => "Expected " ++ (Token.symbol wanted).text ++ ", found " ++ found.text
  | .expectedIdentifier found => "Expected identifier, found " ++ found.text
  | .invalidTarget => "Invalid assignment target"
  | .missingInitializer name => "Missing initializer in const declaration of \"" ++ name ++ "\""

/-- A place among the tokens of a text. The last token is the end of input, at which a cursor
stays. -/
structure Cursor where
  /-- The token before the current one. -/
  previous : Located Token
  current : Located Token
  /-- The tokens after the current one. -/
  upcoming : List (Located Token)
  /-- The errors recovered from, latest first. -/
  errors : List (Located SyntaxError)
deriving DecidableEq

/-- The token can only begin a statement. -/
def Token.beginsStatement : Token → Bool
  | .keyword .const | .keyword .var | .keyword .while | .keyword .if => true
  | _ => false

namespace Cursor

/-- The cursor at the first of the tokens of a text. Invalid tokens are passed over. -/
def ofTokens (tokens : List (Located Token)) : Cursor :=
  let start : Located Token := ⟨⟨0, 0⟩, .endOfInput⟩
  match tokens.filter (·.val != .invalid) with
  | [] => ⟨start, start, [], []⟩
  | t :: ts => ⟨start, t, ts, []⟩

/-- The number of tokens after the current one. -/
def remaining (c : Cursor) : Nat := c.upcoming.length

/-- The cursor at the next token. -/
def advance (c : Cursor) : Cursor :=
  match c.upcoming with
  | [] => { c with previous := c.current }
  | t :: ts => { c with previous := c.current, current := t, upcoming := ts }

/-- The current token is the end of input. -/
def atEnd (c : Cursor) : Bool := c.current.val == .endOfInput

@[simp] theorem remaining_advance (c : Cursor) : c.advance.remaining = c.remaining - 1 := by
  unfold advance remaining
  split <;> simp [*]

/-- Passes over tokens until just behind a semicolon or just before a token that can only begin a
statement. -/
def synchronizeFrom (errors : List (Located SyntaxError)) (previous current : Located Token) :
    List (Located Token) → Cursor
  | [] => ⟨previous, current, [], errors⟩
  | t :: ts =>
    if previous.val = .symbol .semicolon ∨ current.val.beginsStatement then
      ⟨previous, current, t :: ts, errors⟩
    else synchronizeFrom errors current t ts

/-- The cursor at the next place where a statement may begin. -/
def synchronize (c : Cursor) : Cursor := synchronizeFrom c.errors c.previous c.current c.upcoming

/-- The cursor from which reading goes on after an error in a statement that began at `start`. At
least one token is passed over. -/
def recover (c : Cursor) (start : Span) (e : Located SyntaxError) : Cursor :=
  let c := { c with errors := e :: c.errors }.synchronize
  if c.current.span = start ∧ !c.atEnd then c.advance else c

end Cursor

/-- Why a reader stops. -/
inductive Stop where
  | error (e : Located SyntaxError)
  /-- The bound on the nesting of calls was reached. -/
  | outOfFuel
deriving DecidableEq

/-- A source of tokens, which readers look at and pass over. -/
class Reading (m : Type → Type) extends Monad m where
  stop {α : Type} : Stop → m α
  /-- The current token. -/
  current : m (Located Token)
  /-- The span of the token before the current one. -/
  lastSpan : m Span
  /-- Passes over the current token and returns it. -/
  next : m (Located Token)
  /-- At least the number of tokens after the current one. -/
  ahead : m Nat
  /-- Recovers from an error in what is read; there is no result then. -/
  recovering {α : Type} : m α → m (Option α)

namespace Reading

variable {m : Type → Type} [Reading m]

/-- Stops with a syntax error. -/
def fail {α : Type} (span : Span) (e : SyntaxError) : m α := stop (.error ⟨span, e⟩)

/-- The current token is the symbol `s`. -/
def check (s : Symbol) : m Bool := return (← current).val == .symbol s

/-- The current token is the end of input. -/
def atEnd : m Bool := return (← current).val == .endOfInput

/-- Passes over the symbol `s`, which has to be the current token. -/
def expect (s : Symbol) : m Unit := do
  let t ← current
  if t.val = .symbol s then
    let _ ← next
  else fail t.span (.expected s t.val)

/-- Passes over an identifier, which has to be the current token. -/
def expectIdentifier : m (Located String) := do
  let t ← current
  match t.val with
  | .identifier name =>
    let _ ← next
    return ⟨t.span, name⟩
  | found => fail t.span (.expectedIdentifier found)

end Reading

/-- A reader, which moves a cursor. -/
abbrev Parser := EStateM Stop Cursor

/-- Recovers from an error in what is read; there is no result then. -/
def Parser.recovering {α : Type} (x : Parser α) : Parser (Option α) := fun c =>
  match x c with
  | .ok a c => .ok (some a) c
  | .error (.error e) stopped => .ok none (stopped.recover c.current.span e)
  | .error .outOfFuel stopped => .error .outOfFuel stopped

instance : Reading Parser where
  stop := throw
  current c := .ok c.current c
  lastSpan c := .ok c.previous.span c
  next c := .ok c.current c.advance
  ahead c := .ok c.remaining c
  recovering := Parser.recovering

namespace Parser

abbrev fail {α : Type} (span : Span) (e : SyntaxError) : Parser α := Reading.fail span e

abbrev current : Parser (Located Token) := Reading.current

abbrev lastSpan : Parser Span := Reading.lastSpan

abbrev next : Parser (Located Token) := Reading.next

abbrev ahead : Parser Nat := Reading.ahead

abbrev atEnd : Parser Bool := Reading.atEnd

abbrev check (s : Symbol) : Parser Bool := Reading.check s

abbrev expect (s : Symbol) : Parser Unit := Reading.expect s

abbrev expectIdentifier : Parser (Located String) := Reading.expectIdentifier

end Parser

end Stackscript
