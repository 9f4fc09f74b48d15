import Stackscript.Proofs.ErrorRecovery

/-!
# Spans come from tokens

A reader makes no span up: it takes the span of a token, or joins two that it has. So a property of
spans that all tokens have and that joining keeps is had by every span of the tree that is read and
by every error, those from which reading recovers included.

* `Expr.Within`, `Stmt.Within`: all spans of a tree have a property;
* `Cursor.Within`, kept by `advance` and `recover`;
* `Upholds`: an action upholds a property of states; it is closed under `bind`;
* `Parser.KeepsTo`: a reader stays with spans that have the property;
* `Parser.keepsTo_expressions`, `keepsTo_statements`, by induction on the bound on the nesting of
  calls;
* **`Parser.keepsTo_program`**, for the statements of a program.
-/

namespace Stackscript

/-! ## Trees -/

mutual

/-- All spans of an expression have a property. -/
def Expr.Within (V : Span → Prop) : Expr → Prop
  | .number s _ | .string s _ | .boolean s _ | .null s | .ident s _ => V s
  | .array s items => V s ∧ Expr.WithinAll V items
  | .binary s _ left right => V s ∧ left.Within V ∧ right.Within V
  | .unary s _ arg => V s ∧ arg.Within V
  | .cond s test yes no => V s ∧ test.Within V ∧ yes.Within V ∧ no.Within V
  | .assign s target value => V s ∧ V target.span ∧ value.Within V
  | .assignAt s target object position value =>
    V s ∧ V target ∧ object.Within V ∧ position.Within V ∧ value.Within V
  | .index s object position => V s ∧ object.Within V ∧ position.Within V
  | .call s callee args => V s ∧ callee.Within V ∧ Expr.WithinAll V args

def Expr.WithinAll (V : Span → Prop) : List Expr → Prop
  | [] => True
  | e :: es => e.Within V ∧ Expr.WithinAll V es

end

/-- All spans of the expression that may stand here have a property. -/
def Expr.WithinOptional (V : Span → Prop) (init : Option Expr) : Prop := ∀ e ∈ init, e.Within V

mutual

/-- All spans of a statement have a property, those of the names that it declares included. -/
def Stmt.Within (V : Span → Prop) : Stmt → Prop
  | .var name init => V name.span ∧ Expr.WithinOptional V init
  | .const name init => V name.span ∧ init.Within V
  | .function name params body => V name.span ∧ (∀ p ∈ params, V p.span) ∧ Stmt.WithinAll V body
  | .expr e => e.Within V
  | .block body => Stmt.WithinAll V body
  | .ifThen test yes => test.Within V ∧ yes.Within V
  | .ifElse test yes no => test.Within V ∧ yes.Within V ∧ no.Within V
  | .while test body => test.Within V ∧ body.Within V
  | .return value span => Expr.WithinOptional V value ∧ V span
  | .break span | .continue span => V span
  | .empty => True

def Stmt.WithinAll (V : Span → Prop) : List Stmt → Prop
  | [] => True
  | s :: ss => s.Within V ∧ Stmt.WithinAll V ss

end

variable {V : Span → Prop}

theorem Expr.Within.span {e : Expr} (h : e.Within V) : V e.span := by
  cases e <;> first | exact h | exact h.1

theorem Expr.Within.withSpan {e : Expr} (h : e.Within V) {s : Span} (hs : V s) :
    (e.withSpan s).Within V := by
  cases e <;> first | exact hs | exact ⟨hs, h.2⟩

theorem Expr.withinOptional_some {e : Expr} (h : e.Within V) : Expr.WithinOptional V (some e) := by
  rintro e' ⟨⟩
  exact h

theorem Expr.withinOptional_none : Expr.WithinOptional V none := by
  rintro e ⟨⟩

theorem Stmt.withinAll_append {ss ts : List Stmt} (hss : Stmt.WithinAll V ss)
    (hts : Stmt.WithinAll V ts) : Stmt.WithinAll V (ss ++ ts) := by
  induction ss with
  | nil => exact hts
  | cons s ss ih => exact ⟨hss.1, ih hss.2⟩

/-! ## Cursors -/

/-- All spans that a cursor knows have a property. -/
structure Cursor.Within (V : Span → Prop) (c : Cursor) : Prop where
  previous : V c.previous.span
  current : V c.current.span
  upcoming : ∀ t ∈ c.upcoming, V t.span
  errors : ∀ e ∈ c.errors, V e.span

namespace Cursor.Within

variable {c : Cursor}

theorem advance (h : c.Within V) : c.advance.Within V := by
  obtain ⟨previous, current, upcoming, errors⟩ := c
  cases upcoming with
  | nil => exact ⟨h.current, h.current, h.upcoming, h.errors⟩
  | cons t ts =>
    obtain ⟨ht, hts⟩ := List.forall_mem_cons.1 h.upcoming
    exact ⟨h.current, ht, hts, h.errors⟩

theorem synchronize (h : c.Within V) : c.synchronize.Within V := by
  obtain ⟨previous, current, upcoming, errors⟩ := c
  show (synchronizeFrom errors previous current upcoming).Within V
  induction upcoming generalizing previous current with
  | nil => exact h
  | cons t ts ih =>
    rw [synchronizeFrom]
    split
    · exact h
    · obtain ⟨ht, hts⟩ := List.forall_mem_cons.1 h.upcoming
      exact ih current t ⟨h.current, ht, hts, h.errors⟩

theorem recover (h : c.Within V) (start : Span) {e : Located SyntaxError} (he : V e.span) :
    (c.recover start e).Within V := by
  have hsynchronize : ({ c with errors := e :: c.errors } : Cursor).synchronize.Within V :=
    synchronize ⟨h.previous, h.current, h.upcoming, List.forall_mem_cons.2 ⟨he, h.errors⟩⟩
  simp only [Cursor.recover]
  split
  · exact hsynchronize.advance
  · exact hsynchronize

end Cursor.Within

/-- The span of the error with which a reader stops has a property. -/
def Stop.Within (V : Span → Prop) (stop : Stop) : Prop := ∀ e, stop = .error e → V e.span

/-! ## Actions that uphold a property -/

section Upholds

variable {ε σ α β : Type} {S : σ → Prop} {E : ε → Prop} {P : α → Prop} {Q : β → Prop}

/-- An outcome with a property of states, of results and of errors. -/
inductive Upheld (S : σ → Prop) (E : ε → Prop) (P : α → Prop) : EStateM.Result ε σ α → Prop where
  | ok {a : α} {s : σ} : S s → P a → Upheld S E P (.ok a s)
  | error {e : ε} {s : σ} : S s → E e → Upheld S E P (.error e s)

/-- **An action upholds a property of states**, whether or not it fails; its result and its error
have properties of their own. -/
def Upholds (S : σ → Prop) (E : ε → Prop) (x : EStateM ε σ α) (P : α → Prop) : Prop :=
  ∀ s, S s → Upheld S E P (x s)

theorem Upholds.bind {x : EStateM ε σ α} {f : α → EStateM ε σ β} (hx : Upholds S E x P)
    (hf : ∀ a, P a → Upholds S E (f a) Q) : Upholds S E (x >>= f) Q := by
  intro s hs
  have hxs := hx s hs
  show Upheld S E Q (EStateM.bind x f s)
  unfold EStateM.bind
  generalize x s = r at hxs ⊢
  cases hxs with
  | ok hs₁ ha => exact hf _ ha _ hs₁
  | error hs₁ he => exact .error hs₁ he

theorem upholds_pure {a : α} (ha : P a) : Upholds S E (pure a) P := fun _ hs => .ok hs ha

theorem upholds_throw {e : ε} (he : E e) : Upholds S E (throw e) P := fun _ hs => .error hs he

theorem upholds_get : Upholds S E get S := fun _ hs => .ok hs hs

theorem upholds_set {s : σ} (hs : S s) : Upholds S E (set s) fun _ => True :=
  fun _ _ => .ok hs trivial

end Upholds

/-! ## Readers -/

namespace Parser

variable {α : Type} {P : α → Prop}

/-- **A reader stays with spans that have the property**: those of the cursor, of its result and of
its error. -/
abbrev KeepsTo (V : Span → Prop) (x : Parser α) (P : α → Prop) : Prop :=
  Upholds (Cursor.Within V) (Stop.Within V) x P

theorem keepsTo_outOfFuel : KeepsTo V (throw .outOfFuel : Parser α) P :=
  upholds_throw (by rintro e ⟨⟩)

theorem keepsTo_fail {span : Span} (h : V span) (e : SyntaxError) :
    KeepsTo V (fail span e : Parser α) P :=
  upholds_throw (by rintro _ ⟨⟩; exact h)

theorem keepsTo_current : KeepsTo V current fun t => V t.span := fun _ hc => .ok hc hc.current

theorem keepsTo_lastSpan : KeepsTo V lastSpan V := fun _ hc => .ok hc hc.previous

theorem keepsTo_next : KeepsTo V next fun t => V t.span := fun _ hc => .ok hc.advance hc.current

theorem keepsTo_ahead : KeepsTo V ahead fun _ => True := fun _ hc => .ok hc trivial

theorem keepsTo_atEnd : KeepsTo V atEnd fun _ => True :=
  keepsTo_current.bind fun _ _ => upholds_pure trivial

theorem keepsTo_check (s : Symbol) : KeepsTo V (check s) fun _ => True :=
  keepsTo_current.bind fun _ _ => upholds_pure trivial

theorem keepsTo_expect (s : Symbol) : KeepsTo V (expect s) fun _ => True := by
  refine keepsTo_current.bind fun t ht => ?_
  split
  · exact keepsTo_next.bind fun _ _ => upholds_pure trivial
  · exact keepsTo_fail ht _

theorem keepsTo_expectIdentifier : KeepsTo V expectIdentifier fun name => V name.span := by
  refine keepsTo_current.bind fun t ht => ?_
  split
  · exact keepsTo_next.bind fun _ _ => upholds_pure ht
  · exact keepsTo_fail ht _

/-- A reader that passes over a symbol first. -/
theorem keepsTo_after {x : Parser α} (s : Symbol) (hx : KeepsTo V x P) :
    KeepsTo V (do expect s; x) P :=
  (keepsTo_expect s).bind fun _ _ => hx

/-- A reader that passes over the current token first. -/
theorem keepsTo_behind {x : Parser α} (hx : KeepsTo V x P) : KeepsTo V (do let _ ← next; x) P :=
  keepsTo_next.bind fun _ _ => hx

/-- A reader that looks for a symbol first. -/
theorem keepsTo_checked {x y : Parser α} (s : Symbol) (hx : KeepsTo V x P) (hy : KeepsTo V y P) :
    KeepsTo V (do if ← check s then x else y) P := by
  refine (keepsTo_check s).bind fun found _ => ?_
  cases found with
  | true => exact hx
  | false => exact hy

/-- A reader whose result has the span up to where it ends. -/
theorem keepsTo_span {f : Span → α} (hf : ∀ s, V s → P (f s)) :
    KeepsTo V (do return f (← lastSpan)) P :=
  keepsTo_lastSpan.bind fun s hs => upholds_pure (hf s hs)

theorem keepsTo_names (fuel : Nat) : KeepsTo V (names fuel) fun ps => ∀ p ∈ ps, V p.span := by
  induction fuel with
  | zero => exact keepsTo_outOfFuel
  | succ fuel ih =>
    exact keepsTo_expectIdentifier.bind fun _ hp => keepsTo_checked .comma
      (keepsTo_behind (ih.bind fun _ hps => upholds_pure (List.forall_mem_cons.2 ⟨hp, hps⟩)))
      (upholds_pure (List.forall_mem_singleton.2 hp))

theorem keepsTo_parameters : KeepsTo V parameters fun ps => ∀ p ∈ ps, V p.span := by
  have hclose : ∀ ps : List (Located String), (∀ p ∈ ps, V p.span) →
      KeepsTo V (do expect .rightParen; return ps) fun ps => ∀ p ∈ ps, V p.span :=
    fun ps hps => keepsTo_after .rightParen (upholds_pure hps)
  refine keepsTo_after .leftParen ((keepsTo_check .rightParen).bind fun empty _ => ?_)
  cases empty with
  | true => exact (upholds_pure (List.forall_mem_nil _)).bind hclose
  | false => exact keepsTo_ahead.bind fun _ _ => (keepsTo_names _).bind hclose

/-! ## Expressions -/

/-- The readers of expressions, with a bound on the nesting of calls. -/
structure KeepsToExpressions (V : Span → Prop) (fuel : Nat) : Prop where
  climb (min : Precedence) : KeepsTo V (climb fuel min) (Expr.Within V)
  operand (t : Located Token) (ht : V t.span) : KeepsTo V (operand fuel t) (Expr.Within V)
  operators (min : Precedence) {left : Expr} (hleft : left.Within V) :
    KeepsTo V (operators fuel min left) (Expr.Within V)
  operator (k : Continuation) {left : Expr} (hleft : left.Within V) :
    KeepsTo V (operator fuel k left) (Expr.Within V)
  list (close : Symbol) : KeepsTo V (list fuel close) (Expr.WithinAll V)
  items : KeepsTo V (items fuel) (Expr.WithinAll V)

variable (hjoin : ∀ a b, V a → V b → V (a.join b))

namespace KeepsToExpressions

variable {fuel : Nat} (ih : KeepsToExpressions V fuel)

include ih

theorem climb_succ (min : Precedence) : KeepsTo V (Parser.climb (fuel + 1) min) (Expr.Within V) :=
  keepsTo_next.bind fun t ht => (ih.operand t ht).bind fun _ hleft => ih.operators min hleft

theorem operators_succ (min : Precedence) {left : Expr} (hleft : left.Within V) :
    KeepsTo V (Parser.operators (fuel + 1) min left) (Expr.Within V) := by
  rw [Parser.operators, Reading.operators]
  refine keepsTo_current.bind fun t _ => ?_
  split
  · exact upholds_pure hleft
  · next k _ =>
    split
    · exact upholds_pure hleft
    · exact keepsTo_behind ((ih.operator k hleft).bind fun _ he => ih.operators min he)

theorem list_succ (close : Symbol) : KeepsTo V (Parser.list (fuel + 1) close) (Expr.WithinAll V) :=
  keepsTo_checked close (keepsTo_behind (upholds_pure trivial))
    (ih.items.bind fun _ hes => keepsTo_after close (upholds_pure hes))

theorem items_succ : KeepsTo V (Parser.items (fuel + 1)) (Expr.WithinAll V) :=
  (ih.climb .assignment).bind fun _ he => keepsTo_checked .comma
    (keepsTo_behind (ih.items.bind fun _ hes => upholds_pure ⟨he, hes⟩))
    (upholds_pure ⟨he, trivial⟩)

include hjoin

theorem operand_succ (t : Located Token) (ht : V t.span) :
    KeepsTo V (Parser.operand (fuel + 1) t) (Expr.Within V) := by
  obtain ⟨span, token⟩ := t
  rw [Parser.operand, Reading.operand.eq_def]
  cases token with
  | number n | string s | identifier name => exact upholds_pure ht
  | keyword k => cases k <;> first | exact upholds_pure ht | exact keepsTo_fail ht _
  | symbol s =>
    cases s with
    | leftParen =>
      exact (ih.climb .assignment).bind fun _ he => keepsTo_after .rightParen
        (keepsTo_span fun s hs => he.withSpan (hjoin span s ht hs))
    | leftBracket =>
      exact (ih.list .rightBracket).bind fun _ hes => keepsTo_span fun s hs =>
        ⟨hjoin span s ht hs, hes⟩
    | minus | bang =>
      exact (ih.climb .unary).bind fun _ he => upholds_pure ⟨hjoin span _ ht he.span, he⟩
    | _ => exact keepsTo_fail ht _
  | invalid | endOfInput => exact keepsTo_fail ht _

theorem operator_succ (k : Continuation) {left : Expr} (hleft : left.Within V) :
    KeepsTo V (Parser.operator (fuel + 1) k left) (Expr.Within V) := by
  have hspan : ∀ s, V s → V (left.span.join s) := fun s hs => hjoin _ s hleft.span hs
  rw [Parser.operator, Reading.operator.eq_def]
  cases k with
  | assignment =>
    dsimp only
    split
    · exact (ih.climb .assignment).bind fun _ hvalue => keepsTo_span fun s hs =>
        ⟨hspan s hs, hleft, hvalue⟩
    · exact (ih.climb .assignment).bind fun _ hvalue => keepsTo_span fun s hs =>
        ⟨hspan s hs, hleft.1, hleft.2.1, hleft.2.2, hvalue⟩
    · exact keepsTo_fail hleft.span _
  | conditional =>
    exact (ih.climb .assignment).bind fun _ hyes => keepsTo_after .colon
      ((ih.climb .conditional).bind fun _ hno => keepsTo_span fun s hs =>
      ⟨hspan s hs, hleft, hyes, hno⟩)
  | binary op p =>
    exact (ih.climb p.next).bind fun _ hright => keepsTo_span fun s hs =>
      ⟨hspan s hs, hleft, hright⟩
  | call =>
    exact (ih.list .rightParen).bind fun _ hargs => keepsTo_span fun s hs =>
      ⟨hspan s hs, hleft, hargs⟩
  | index =>
    exact (ih.climb .assignment).bind fun _ hindex => keepsTo_after .rightBracket
      (keepsTo_span fun s hs => ⟨hspan s hs, hleft, hindex⟩)

end KeepsToExpressions

include hjoin

theorem keepsTo_expressions (fuel : Nat) : KeepsToExpressions V fuel := by
  induction fuel with
  | zero =>
    exact ⟨fun _ => keepsTo_outOfFuel, fun _ _ => keepsTo_outOfFuel, fun _ _ _ => keepsTo_outOfFuel,
      fun _ _ _ => keepsTo_outOfFuel, fun _ => keepsTo_outOfFuel, keepsTo_outOfFuel⟩
  | succ fuel ih =>
    exact ⟨ih.climb_succ, ih.operand_succ hjoin, ih.operators_succ, ih.operator_succ hjoin,
      ih.list_succ, ih.items_succ⟩

theorem keepsTo_expression : KeepsTo V expression (Expr.Within V) :=
  keepsTo_ahead.bind fun _ _ => (keepsTo_expressions hjoin _).climb .assignment

/-! ## Statements -/

theorem keepsTo_initialValue : KeepsTo V initialValue (Expr.WithinOptional V) :=
  keepsTo_checked .equal
    (keepsTo_behind ((keepsTo_expression hjoin).bind fun _ he =>
    upholds_pure (Expr.withinOptional_some he))) (upholds_pure Expr.withinOptional_none)

theorem keepsTo_condition : KeepsTo V condition (Expr.Within V) :=
  keepsTo_after .leftParen ((keepsTo_expression hjoin).bind fun _ he =>
    keepsTo_after .rightParen (upholds_pure he))

/-- The readers of statements, with a bound on the nesting of calls. -/
structure KeepsToStatements (V : Span → Prop) (fuel : Nat) : Prop where
  statement : KeepsTo V (statement fuel) (Stmt.Within V)
  declaration : KeepsTo V (declaration fuel) fun s => Stmt.WithinAll V s.toList
  body : KeepsTo V (body fuel) (Stmt.WithinAll V)

namespace KeepsToStatements

variable {fuel : Nat} (ih : KeepsToStatements V fuel)

omit hjoin

include ih

/-- An error from which reading recovers is one with which the statement stopped. -/
theorem declaration_succ :
    KeepsTo V (Parser.declaration (fuel + 1)) fun s => Stmt.WithinAll V s.toList := by
  intro c hc
  have hs := ih.statement c hc
  rw [declaration_eq, recovering]
  generalize Parser.statement fuel c = r at hs ⊢
  cases hs with
  | ok hc₁ hs₁ => exact .ok hc₁ ⟨hs₁, trivial⟩
  | @error stop _ hc₁ hstop =>
    cases stop with
    | error e => exact .ok (hc₁.recover _ (hstop e rfl)) trivial
    | outOfFuel => exact .error hc₁ hstop

theorem body_succ : KeepsTo V (Parser.body (fuel + 1)) (Stmt.WithinAll V) := by
  rw [Parser.body, Reading.body]
  refine (keepsTo_check .rightBrace).bind fun _ _ => keepsTo_atEnd.bind fun _ _ => ?_
  split
  · exact keepsTo_after .rightBrace (upholds_pure trivial)
  · exact ih.declaration.bind fun _ hs => ih.body.bind fun _ hss =>
      upholds_pure (Stmt.withinAll_append hs hss)

include hjoin

theorem statement_succ : KeepsTo V (Parser.statement (fuel + 1)) (Stmt.Within V) := by
  have hsemicolon : ∀ {s : Stmt}, s.Within V →
      KeepsTo V (do expect .semicolon; return s) (Stmt.Within V) :=
    fun hs => keepsTo_after .semicolon (upholds_pure hs)
  rw [Parser.statement, Reading.statement]
  refine keepsTo_current.bind fun t ht => ?_
  split
  -- `var`
  · exact keepsTo_behind (keepsTo_expectIdentifier.bind fun _ hname =>
      (keepsTo_initialValue hjoin).bind fun _ hinit =>
      hsemicolon ⟨hname, hinit⟩)
  -- `const`
  · refine keepsTo_behind (keepsTo_expectIdentifier.bind fun _ hname =>
      (keepsTo_initialValue hjoin).bind fun init hinit => ?_)
    cases init with
    | none => exact keepsTo_fail hname _
    | some init => exact hsemicolon ⟨hname, hinit init rfl⟩
  -- `function`
  · exact keepsTo_behind (keepsTo_expectIdentifier.bind fun _ hname =>
      keepsTo_parameters.bind fun _ hparams =>
      keepsTo_after .leftBrace (ih.body.bind fun _ hbody => upholds_pure ⟨hname, hparams, hbody⟩))
  -- `if`
  · refine keepsTo_behind ((keepsTo_condition hjoin).bind fun _ htest =>
      ih.statement.bind fun _ hyes =>
      keepsTo_current.bind fun _ _ => ?_)
    split
    · exact keepsTo_behind (ih.statement.bind fun _ hno => upholds_pure ⟨htest, hyes, hno⟩)
    · exact upholds_pure ⟨htest, hyes⟩
  -- `while`
  · exact keepsTo_behind ((keepsTo_condition hjoin).bind fun _ htest =>
      ih.statement.bind fun _ hbody =>
      upholds_pure ⟨htest, hbody⟩)
  -- `return`
  · have hreturn : ∀ value, Expr.WithinOptional V value →
        KeepsTo V (do expect .semicolon; return Stmt.return value (t.span.join (← lastSpan)))
        (Stmt.Within V) :=
      fun _ hvalue => keepsTo_after .semicolon (keepsTo_span fun s hs => ⟨hvalue, hjoin _ s ht hs⟩)
    refine keepsTo_behind ((keepsTo_check .semicolon).bind fun alone _ => ?_)
    cases alone with
    | true => exact (upholds_pure Expr.withinOptional_none).bind hreturn
    | false =>
      exact ((keepsTo_expression hjoin).bind fun _ he =>
        upholds_pure (Expr.withinOptional_some he)).bind hreturn
  -- `break` and `continue`
  · exact keepsTo_behind (hsemicolon ht)
  · exact keepsTo_behind (hsemicolon ht)
  -- a block
  · exact keepsTo_behind (ih.body.bind fun _ hbody => upholds_pure hbody)
  -- an empty statement
  · exact keepsTo_behind (upholds_pure trivial)
  -- an expression
  · exact (keepsTo_expression hjoin).bind fun _ he => hsemicolon he

end KeepsToStatements

theorem keepsTo_statements (fuel : Nat) : KeepsToStatements V fuel := by
  induction fuel with
  | zero => exact ⟨keepsTo_outOfFuel, keepsTo_outOfFuel, keepsTo_outOfFuel⟩
  | succ fuel ih => exact ⟨ih.statement_succ hjoin, ih.declaration_succ, ih.body_succ⟩

/-- **The spans of a program come from its tokens.** -/
theorem keepsTo_program (fuel : Nat) : KeepsTo V (statements fuel) (Stmt.WithinAll V) := by
  induction fuel with
  | zero => exact keepsTo_outOfFuel
  | succ fuel ih =>
    rw [statements, Reading.statements]
    refine keepsTo_atEnd.bind fun _ _ => ?_
    split
    · exact upholds_pure trivial
    · exact (keepsTo_statements hjoin fuel).declaration.bind fun _ hs => ih.bind fun _ hss =>
        upholds_pure (Stmt.withinAll_append hs hss)

end Parser

end Stackscript
