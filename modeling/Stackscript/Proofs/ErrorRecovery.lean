import Stackscript.Proofs.ExpressionReaders
import Stackscript.Tree.Statement

/-!
# No error is forgotten

Wherever reading recovers from an error, the error is kept: whatever a reader does, and whether or
not it succeeds, the errors that the cursor had before are still there behind it. So a cursor
without errors shows that no statement before it was left out, at any depth.

* `Cursor.errors_recover`: recovering adds the error;
* `Parser.Remembers`: a reader keeps all errors; it is closed under `bind`;
* `Parser.remembers_expressions`, **`remembers_statements`**, `remembers_program`: every reader
  does, by induction on the bound on the nesting of calls.
-/

namespace Stackscript

namespace Cursor

theorem errors_synchronizeFrom (errors : List (Located SyntaxError))
    (previous current : Located Token)
    (ts : List (Located Token)) : (synchronizeFrom errors previous current ts).errors = errors := by
  induction ts generalizing previous current with
  | nil => rfl
  | cons t ts ih =>
    rw [synchronizeFrom]
    split
    · rfl
    · exact ih current t

/-- The error recovered from is added, and no other. -/
theorem errors_recover (c : Cursor) (start : Span) (e : Located SyntaxError) :
    (c.recover start e).errors = e :: c.errors := by
  have hsynchronize : ({ c with errors := e :: c.errors } : Cursor).synchronize.errors = e ::
      c.errors :=
    errors_synchronizeFrom _ _ _ _
  simp only [recover]
  split
  · rw [errors_advance, hsynchronize]
  · exact hsynchronize

end Cursor

namespace Parser

variable {α β : Type}

/-- The cursor that a reader leaves, with or without a result. -/
def reached (x : Parser α) (c : Cursor) : Cursor :=
  match x c with
  | .ok _ c' | .error _ c' => c'

/-- **The errors from before are still there** behind the reader. -/
def Remembers (x : Parser α) : Prop := ∀ c, c.errors <:+ (x.reached c).errors

theorem Remembers.of_eq {x : Parser α} (h : ∀ c, (x.reached c).errors = c.errors) :
    x.Remembers := by
  intro c
  exact ⟨[], (h c).symm⟩

/-- If there is no error behind the reader, then there was none before it. -/
theorem Remembers.errors_eq_nil {x : Parser α} (h : x.Remembers) {c c' : Cursor} {a : α}
    (hx : x c = .ok a c') (herrors : c'.errors = []) : c.errors = [] := by
  have hsuffix := h c
  rw [reached, hx] at hsuffix
  exact List.suffix_nil.1 (herrors ▸ hsuffix)

theorem Remembers.bind {x : Parser α} {f : α → Parser β} (hx : x.Remembers)
    (hf : ∀ a, (f a).Remembers) : Remembers (x >>= f) := by
  intro c
  have hc := hx c
  have hbind : (x >>= f) c = EStateM.bind x f c := rfl
  cases hxc : x c with
  | ok a c₁ =>
    rw [reached, hxc] at hc
    have hrest : (x >>= f).reached c = (f a).reached c₁ := by
      rw [reached, hbind, EStateM.bind, hxc, reached]
    rw [hrest]
    exact hc.trans (hf a c₁)
  | error e c₁ =>
    rw [reached, hxc] at hc
    rwa [reached, hbind, EStateM.bind, hxc]

theorem remembers_pure (a : α) : Remembers (pure a : Parser α) := .of_eq fun _ => rfl

theorem remembers_throw (stop : Stop) : Remembers (throw stop : Parser α) := .of_eq fun _ => rfl

theorem remembers_ahead : ahead.Remembers := .of_eq fun _ => rfl

theorem remembers_atEnd : atEnd.Remembers := .of_eq fun _ => rfl

theorem remembers_current : current.Remembers := .of_eq fun _ => rfl

theorem remembers_lastSpan : lastSpan.Remembers := .of_eq fun _ => rfl

theorem remembers_check (s : Symbol) : (check s).Remembers := .of_eq fun _ => rfl

theorem remembers_next : next.Remembers := .of_eq Cursor.errors_advance

theorem remembers_expect (s : Symbol) : (expect s).Remembers := by
  refine .bind remembers_current fun t => ?_
  split
  · exact .bind remembers_next fun _ => remembers_pure ()
  · exact remembers_throw _

theorem remembers_expectIdentifier : expectIdentifier.Remembers := by
  refine .bind remembers_current fun t => ?_
  split
  · exact .bind remembers_next fun _ => remembers_pure _
  · exact remembers_throw _

/-- A reader that looks for a symbol first. -/
theorem Remembers.checked {x y : Parser α} (s : Symbol) (hx : x.Remembers) (hy : y.Remembers) :
    Remembers (do if ← check s then x else y) := by
  refine .bind (remembers_check s) fun found => ?_
  cases found with
  | true => exact hx
  | false => exact hy

/-- A reader whose result ends with a symbol. -/
theorem Remembers.closed {x : Parser α} {f : α → Parser β} (s : Symbol) (hx : x.Remembers)
    (hf : ∀ a, (f a).Remembers) : Remembers (do let a ← x; expect s; f a) :=
  .bind hx fun a => .bind (remembers_expect s) fun _ => hf a

theorem remembers_span (f : Span → α) : Remembers (do return f (← lastSpan)) :=
  .bind remembers_lastSpan fun _ => remembers_pure _

/-- A reader whose result has the span up to where it ends. -/
theorem Remembers.spanned {x : Parser α} {f : α → Span → β} (hx : x.Remembers) :
    Remembers (do let a ← x; return f a (← lastSpan)) :=
  .bind hx fun _ => remembers_span _

/-! ## Expressions -/

/-- The readers of expressions, with a bound on the nesting of calls. -/
structure RemembersExpressions (fuel : Nat) : Prop where
  climb (min : Precedence) : (climb fuel min).Remembers
  operand (t : Located Token) : (operand fuel t).Remembers
  operators (min : Precedence) (left : Expr) : (operators fuel min left).Remembers
  operator (k : Continuation) (left : Expr) : (operator fuel k left).Remembers
  list (close : Symbol) : (list fuel close).Remembers
  items : (items fuel).Remembers

namespace RemembersExpressions

variable {fuel : Nat} (ih : RemembersExpressions fuel)

include ih

theorem climb_succ (min : Precedence) : (Parser.climb (fuel + 1) min).Remembers :=
  .bind remembers_next fun t => .bind (ih.operand t) fun left => ih.operators min left

theorem operand_succ (t : Located Token) : (Parser.operand (fuel + 1) t).Remembers := by
  obtain ⟨span, token⟩ := t
  rw [Parser.operand, Reading.operand.eq_def]
  cases token with
  | number n | string s | identifier name => exact remembers_pure _
  | keyword k => cases k <;> first | exact remembers_pure _ | exact remembers_throw _
  | symbol s =>
    cases s with
    | leftParen => exact .closed .rightParen (ih.climb .assignment) fun _ => remembers_span _
    | leftBracket => exact .spanned (ih.list .rightBracket)
    | minus | bang => exact .bind (ih.climb .unary) fun _ => remembers_pure _
    | _ => exact remembers_throw _
  | invalid | endOfInput => exact remembers_throw _

theorem operators_succ (min : Precedence) (left : Expr) :
    (Parser.operators (fuel + 1) min left).Remembers := by
  rw [Parser.operators, Reading.operators]
  refine .bind remembers_current fun t => ?_
  split
  · exact remembers_pure left
  · next k _ =>
    split
    · exact remembers_pure left
    · exact .bind remembers_next fun _ => .bind (ih.operator k left) fun e => ih.operators min e

theorem operator_succ (k : Continuation) (left : Expr) :
    (Parser.operator (fuel + 1) k left).Remembers := by
  rw [Parser.operator, Reading.operator.eq_def]
  cases k with
  | assignment =>
    dsimp only
    split
    · exact .spanned (ih.climb .assignment)
    · exact .spanned (ih.climb .assignment)
    · exact remembers_throw _
  | conditional =>
    exact .closed .colon (ih.climb .assignment) fun _ => .spanned (ih.climb .conditional)
  | binary op p => exact .spanned (ih.climb p.next)
  | call => exact .spanned (ih.list .rightParen)
  | index => exact .closed .rightBracket (ih.climb .assignment) fun _ => remembers_span _

theorem list_succ (close : Symbol) : (Parser.list (fuel + 1) close).Remembers :=
  .checked close (.bind remembers_next fun _ => remembers_pure [])
    (.closed close ih.items fun _ => remembers_pure _)

theorem items_succ : (Parser.items (fuel + 1)).Remembers :=
  .bind (ih.climb .assignment) fun _ => .checked .comma
    (.bind remembers_next fun _ => .bind ih.items fun _ => remembers_pure _) (remembers_pure _)

end RemembersExpressions

theorem remembers_expressions (fuel : Nat) : RemembersExpressions fuel := by
  induction fuel with
  | zero =>
    exact ⟨fun _ => remembers_throw _, fun _ => remembers_throw _, fun _ _ => remembers_throw _,
      fun _ _ => remembers_throw _, fun _ => remembers_throw _, remembers_throw _⟩
  | succ fuel ih =>
    exact ⟨ih.climb_succ, ih.operand_succ, ih.operators_succ, ih.operator_succ,
      ih.list_succ, ih.items_succ⟩

theorem remembers_expression : expression.Remembers :=
  .bind remembers_ahead fun _ => (remembers_expressions _).climb .assignment

/-! ## Statements -/

theorem remembers_initialValue : initialValue.Remembers :=
  .checked .equal (.bind remembers_next fun _ => .bind remembers_expression fun _ =>
    remembers_pure _) (remembers_pure none)

theorem remembers_names (fuel : Nat) : (names fuel).Remembers := by
  induction fuel with
  | zero => exact remembers_throw _
  | succ fuel ih =>
    exact .bind remembers_expectIdentifier fun _ => .checked .comma
      (.bind remembers_next fun _ => .bind ih fun _ => remembers_pure _) (remembers_pure _)

theorem remembers_parameters : parameters.Remembers := by
  refine .bind (remembers_expect .leftParen) fun _ =>
    .bind (remembers_check .rightParen) fun empty => ?_
  cases empty with
  | true =>
    exact .bind (remembers_pure []) fun _ => .bind (remembers_expect .rightParen) fun _ =>
      remembers_pure _
  | false =>
    exact .bind remembers_ahead fun _ => .closed .rightParen (remembers_names _) fun _ =>
      remembers_pure _

theorem remembers_condition : condition.Remembers :=
  .bind (remembers_expect .leftParen) fun _ => .closed .rightParen remembers_expression fun _ =>
    remembers_pure _

theorem declaration_eq (fuel : Nat) : declaration (fuel + 1) = recovering (statement fuel) := by
  rw [declaration, Reading.declaration]
  rfl

/-- The readers of statements, with a bound on the nesting of calls. -/
structure RemembersStatements (fuel : Nat) : Prop where
  statement : (statement fuel).Remembers
  declaration : (declaration fuel).Remembers
  body : (body fuel).Remembers

namespace RemembersStatements

variable {fuel : Nat} (ih : RemembersStatements fuel)

include ih

theorem statement_succ : (Parser.statement (fuel + 1)).Remembers := by
  have hsemicolon : ∀ {s : Stmt}, Remembers (do expect .semicolon; return s) :=
    .bind (remembers_expect .semicolon) fun _ => remembers_pure _
  rw [Parser.statement, Reading.statement]
  refine .bind remembers_current fun t => ?_
  split
  -- `var`
  · exact .bind remembers_next fun _ => .bind remembers_expectIdentifier fun _ =>
      .bind remembers_initialValue fun _ =>
      hsemicolon
  -- `const`
  · refine .bind remembers_next fun _ => .bind remembers_expectIdentifier fun _ =>
      .bind remembers_initialValue fun init => ?_
    cases init with
    | none => exact remembers_throw _
    | some init => exact hsemicolon
  -- `function`
  · exact .bind remembers_next fun _ => .bind remembers_expectIdentifier fun _ =>
      .bind remembers_parameters fun _ =>
      .bind (remembers_expect .leftBrace) fun _ => .bind ih.body fun _ => remembers_pure _
  -- `if`
  · refine .bind remembers_next fun _ => .bind remembers_condition fun _ =>
      .bind ih.statement fun _ =>
      .bind remembers_current fun t => ?_
    split
    · exact .bind remembers_next fun _ => .bind ih.statement fun _ => remembers_pure _
    · exact remembers_pure _
  -- `while`
  · exact .bind remembers_next fun _ => .bind remembers_condition fun _ =>
      .bind ih.statement fun _ => remembers_pure _
  -- `return`
  · refine .bind remembers_next fun _ => .bind (remembers_check .semicolon) fun alone => ?_
    cases alone with
    | true =>
      exact .bind (remembers_pure none) fun _ => .spanned (remembers_expect .semicolon)
    | false =>
      exact .bind (.bind remembers_expression fun _ => remembers_pure _) fun _ =>
        .spanned (remembers_expect .semicolon)
  -- `break` and `continue`
  · exact .bind remembers_next fun _ => hsemicolon
  · exact .bind remembers_next fun _ => hsemicolon
  -- a block
  · exact .bind remembers_next fun _ => .bind ih.body fun _ => remembers_pure _
  -- an empty statement
  · exact .bind remembers_next fun _ => remembers_pure _
  -- an expression
  · exact .closed .semicolon remembers_expression fun _ => remembers_pure _

/-- An error from which reading recovers is added to those from before. -/
theorem declaration_succ : (Parser.declaration (fuel + 1)).Remembers := by
  intro c
  have hc := ih.statement c
  rw [reached] at hc
  cases hs : Parser.statement fuel c with
  | ok s c₁ =>
    rw [hs] at hc
    rwa [reached, declaration_eq, recovering, hs]
  | error stop c₁ =>
    rw [hs] at hc
    rw [reached, declaration_eq, recovering, hs]
    cases stop with
    | error e =>
      show c.errors <:+ (c₁.recover c.current.span e).errors
      rw [Cursor.errors_recover]
      exact hc.trans (List.suffix_cons e _)
    | outOfFuel => exact hc

theorem body_succ : (Parser.body (fuel + 1)).Remembers := by
  rw [Parser.body, Reading.body]
  refine .bind (remembers_check .rightBrace) fun _ => .bind remembers_atEnd fun _ => ?_
  split
  · exact .bind (remembers_expect .rightBrace) fun _ => remembers_pure []
  · exact .bind ih.declaration fun _ => .bind ih.body fun _ => remembers_pure _

end RemembersStatements

/-- **No reader of statements forgets an error.** -/
theorem remembers_statements (fuel : Nat) : RemembersStatements fuel := by
  induction fuel with
  | zero => exact ⟨remembers_throw _, remembers_throw _, remembers_throw _⟩
  | succ fuel ih => exact ⟨ih.statement_succ, ih.declaration_succ, ih.body_succ⟩

theorem remembers_program (fuel : Nat) : (statements fuel).Remembers := by
  induction fuel with
  | zero => exact remembers_throw _
  | succ fuel ih =>
    rw [statements, Reading.statements]
    refine .bind remembers_atEnd fun ended => ?_
    split
    · exact remembers_pure []
    · exact .bind (remembers_statements fuel).declaration fun _ => .bind ih fun _ =>
        remembers_pure _

end Parser

end Stackscript
