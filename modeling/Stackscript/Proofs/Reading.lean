import Stackscript.Tree.Statement

/-!
# Reading from two sources of tokens

Readers do nothing but use the operations of their source of tokens. So it is enough to compare the
operations in order to compare what is read from two sources: a cursor is one, others keep a record
of what is read, or have their tokens scanned when they are asked for. Bounds on the nesting of
calls may differ: a source may know only a larger bound on the number of its tokens.

* `Reading.Simulation`, **`Reading.Simulation.statements`**: what is read from two sources;
* `Reading.SameOutcome`, `Reading.Tracks`: two sources with a state each.
-/

namespace Stackscript

namespace Reading

/-! ## Two sources -/

/-- **What is read from one source is matched by what is read from another.** Nothing is asked of
what runs out of the bound on the nesting of calls, so that the second source may have larger
bounds. -/
structure Simulation (m m' : Type → Type) [Reading m] [Reading m'] where
  Matches : {α : Type} → m α → m' α → Prop
  pure {α : Type} (a : α) : Matches (pure a) (pure a)
  bind {α β : Type} {x : m α} {y : m' α} {f : α → m β} {g : α → m' β} : Matches x y →
    (∀ a, Matches (f a) (g a)) → Matches (x >>= f) (y >>= g)
  outOfFuel {α : Type} (y : m' α) : Matches (stop .outOfFuel) y
  error {α : Type} (e : Located SyntaxError) : Matches (α := α) (stop (.error e)) (stop (.error e))
  current : Matches current current
  lastSpan : Matches lastSpan lastSpan
  next : Matches next next
  ahead {α : Type} {f : Nat → m α} {g : Nat → m' α} : (∀ n k, n ≤ k → Matches (f n) (g k)) →
    Matches (ahead >>= f) (ahead >>= g)
  recovering {α : Type} {x : m α} {y : m' α} : Matches x y → Matches (recovering x) (recovering y)

namespace Simulation

variable {m m' : Type → Type} [Reading m] [Reading m'] (S : Simulation m m') {α β : Type}

theorem fail (span : Span) (e : SyntaxError) :
    S.Matches (α := α) (Reading.fail span e) (Reading.fail span e) :=
  S.error ⟨span, e⟩

theorem check (s : Symbol) : S.Matches (Reading.check s) (Reading.check s) :=
  S.bind S.current fun _ => S.pure _

theorem atEnd : S.Matches Reading.atEnd Reading.atEnd := S.bind S.current fun _ => S.pure _

theorem expect (s : Symbol) : S.Matches (Reading.expect s) (Reading.expect s) := by
  refine S.bind S.current fun t => ?_
  split
  · exact S.bind S.next fun _ => S.pure ()
  · exact S.fail _ _

theorem expectIdentifier : S.Matches Reading.expectIdentifier Reading.expectIdentifier := by
  refine S.bind S.current fun t => ?_
  split
  · exact S.bind S.next fun _ => S.pure _
  · exact S.fail _ _

/-- A reader that looks for a symbol first. -/
theorem checked {x y : m α} {x' y' : m' α} (s : Symbol) (hx : S.Matches x x')
    (hy : S.Matches y y') :
    S.Matches (do if ← Reading.check s then x else y)
      (do if ← Reading.check s then x' else y') := by
  refine S.bind (S.check s) fun found => ?_
  cases found with
  | true => exact hx
  | false => exact hy

/-- A reader whose result ends with a symbol. -/
theorem closed {x : m α} {x' : m' α} {f : α → m β} {f' : α → m' β} (s : Symbol)
    (hx : S.Matches x x') (hf : ∀ a, S.Matches (f a) (f' a)) :
    S.Matches (do let a ← x; Reading.expect s; f a) (do let a ← x'; Reading.expect s; f' a) :=
  S.bind hx fun a => S.bind (S.expect s) fun _ => hf a

/-- A reader whose result has the span up to where it ends. -/
theorem spanned {x : m α} {x' : m' α} {f : α → Span → β} (hx : S.Matches x x') :
    S.Matches (do let a ← x; return f a (← Reading.lastSpan))
      (do let a ← x'; return f a (← Reading.lastSpan)) :=
  S.bind hx fun _ => S.bind S.lastSpan fun _ => S.pure _

/-! ### Expressions -/

/-- The readers of expressions, with a bound on the nesting of calls, and with a larger one. -/
structure Expressions (fuel fuel' : Nat) : Prop where
  climb (min : Precedence) : S.Matches (climb fuel min) (climb fuel' min)
  operand (t : Located Token) : S.Matches (operand fuel t) (operand fuel' t)
  operators (min : Precedence) (left : Expr) : S.Matches (operators fuel min left)
    (operators fuel' min left)
  operator (k : Continuation) (left : Expr) :
    S.Matches (operator fuel k left) (operator fuel' k left)
  list (close : Symbol) : S.Matches (list fuel close) (list fuel' close)
  items : S.Matches (items fuel) (items fuel')

namespace Expressions

variable {S} {fuel fuel' : Nat}

theorem operand_succ (ih : S.Expressions fuel fuel') (t : Located Token) :
    S.Matches (Reading.operand (fuel + 1) t) (Reading.operand (fuel' + 1) t) := by
  obtain ⟨span, token⟩ := t
  rw [Reading.operand.eq_def, Reading.operand.eq_def]
  cases token with
  | number n | string s | identifier name => exact S.pure _
  | keyword k => cases k <;> first | exact S.pure _ | exact S.fail _ _
  | symbol s =>
    cases s with
    | leftParen =>
      exact S.closed .rightParen (ih.climb .assignment) fun _ => S.bind S.lastSpan fun _ => S.pure _
    | leftBracket => exact S.spanned (ih.list .rightBracket)
    | minus | bang => exact S.bind (ih.climb .unary) fun _ => S.pure _
    | _ => exact S.fail _ _
  | invalid | endOfInput => exact S.fail _ _

theorem operator_succ (ih : S.Expressions fuel fuel') (k : Continuation) (left : Expr) :
    S.Matches (Reading.operator (fuel + 1) k left) (Reading.operator (fuel' + 1) k left) := by
  rw [Reading.operator.eq_def, Reading.operator.eq_def]
  cases k with
  | assignment =>
    cases left with
    | ident => exact S.spanned (ih.climb .assignment)
    | index => exact S.spanned (ih.climb .assignment)
    | _ => exact S.fail _ _
  | conditional =>
    exact S.closed .colon (ih.climb .assignment) fun _ => S.spanned (ih.climb .conditional)
  | call => exact S.spanned (ih.list .rightParen)
  | index =>
    exact S.closed .rightBracket (ih.climb .assignment) fun _ => S.bind S.lastSpan fun _ => S.pure _
  | binary op p => exact S.spanned (ih.climb p.next)

theorem operators_succ (ih : S.Expressions fuel fuel') (min : Precedence) (left : Expr) :
    S.Matches (Reading.operators (fuel + 1) min left) (Reading.operators (fuel' + 1) min left) := by
  rw [Reading.operators, Reading.operators]
  refine S.bind S.current fun t => ?_
  split
  · exact S.pure _
  · split
    · exact S.pure _
    · exact S.bind S.next fun _ => S.bind (ih.operator _ _) fun _ => ih.operators _ _

theorem list_succ (ih : S.Expressions fuel fuel') (close : Symbol) :
    S.Matches (Reading.list (fuel + 1) close) (Reading.list (fuel' + 1) close) := by
  rw [Reading.list, Reading.list]
  exact S.checked close (S.bind S.next fun _ => S.pure _)
    (S.closed close ih.items fun _ => S.pure _)

theorem items_succ (ih : S.Expressions fuel fuel') :
    S.Matches (Reading.items (m := m) (fuel + 1)) (Reading.items (fuel' + 1)) := by
  rw [Reading.items, Reading.items]
  exact S.bind (ih.climb _) fun _ =>
    S.checked .comma (S.bind S.next fun _ => S.bind ih.items fun _ => S.pure _) (S.pure _)

end Expressions

theorem expressions {fuel fuel' : Nat} (h : fuel ≤ fuel') : S.Expressions fuel fuel' := by
  induction fuel generalizing fuel' with
  | zero =>
      exact ⟨fun _ => S.outOfFuel _, fun _ => S.outOfFuel _, fun _ _ => S.outOfFuel _, fun _ _ =>
        S.outOfFuel _, fun _ => S.outOfFuel _, S.outOfFuel _⟩
  | succ fuel ih =>
    obtain ⟨fuel', rfl⟩ : ∃ k, fuel' = k + 1 := ⟨fuel' - 1, by omega⟩
    have ih := ih (Nat.le_of_succ_le_succ h)
    refine ⟨fun min => ?_, ih.operand_succ, ih.operators_succ, ih.operator_succ,
      ih.list_succ, ih.items_succ⟩
    rw [Reading.climb, Reading.climb]
    exact S.bind S.next fun _ => S.bind (ih.operand _) fun _ => ih.operators _ _

theorem expression : S.Matches Reading.expression Reading.expression :=
  S.ahead fun _ _ h => (S.expressions (by omega)).climb _

/-! ### Statements -/

theorem initialValue : S.Matches Reading.initialValue Reading.initialValue :=
  S.checked .equal (S.bind S.next fun _ => S.bind S.expression fun _ => S.pure _) (S.pure _)

theorem names {fuel fuel' : Nat} (h : fuel ≤ fuel') :
    S.Matches (Reading.names fuel) (Reading.names fuel') := by
  induction fuel generalizing fuel' with
  | zero => exact S.outOfFuel _
  | succ fuel ih =>
    obtain ⟨fuel', rfl⟩ : ∃ k, fuel' = k + 1 := ⟨fuel' - 1, by omega⟩
    rw [Reading.names, Reading.names]
    refine S.bind S.expectIdentifier fun _ =>
      S.checked .comma (S.bind S.next fun _ => ?_) (S.pure _)
    exact S.bind (ih (Nat.le_of_succ_le_succ h)) fun _ => S.pure _

theorem parameters : S.Matches Reading.parameters Reading.parameters := by
  refine S.bind (S.expect _) fun _ => S.bind (S.check _) fun found => ?_
  cases found with
  | true => exact S.closed .rightParen (S.pure _) fun _ => S.pure _
  | false => exact S.ahead fun _ _ h => S.closed .rightParen (S.names (by omega)) fun _ => S.pure _

theorem condition : S.Matches Reading.condition Reading.condition :=
  S.bind (S.expect _) fun _ => S.closed .rightParen S.expression fun _ => S.pure _

/-- The readers of statements, with a bound on the nesting of calls, and with a larger one. -/
structure Statements (fuel fuel' : Nat) : Prop where
  statement : S.Matches (statement fuel) (statement fuel')
  declaration : S.Matches (declaration fuel) (declaration fuel')
  body : S.Matches (body fuel) (body fuel')

namespace Statements

variable {S} {fuel fuel' : Nat}

theorem statement_succ (ih : S.Statements fuel fuel') :
    S.Matches (Reading.statement (fuel + 1)) (Reading.statement (fuel' + 1)) := by
  have hsemicolon : ∀ {s : Stmt}, S.Matches (do Reading.expect .semicolon; return s)
      (do Reading.expect .semicolon; return s) := S.bind (S.expect .semicolon) fun _ => S.pure _
  rw [Reading.statement, Reading.statement]
  refine S.bind S.current fun t => ?_
  split
  -- `var`
  · exact S.bind S.next fun _ => S.bind S.expectIdentifier fun _ => S.bind S.initialValue fun _ =>
      hsemicolon
  -- `const`
  · refine S.bind S.next fun _ => S.bind S.expectIdentifier fun _ =>
      S.bind S.initialValue fun init => ?_
    cases init with
    | none => exact S.fail _ _
    | some init => exact hsemicolon
  -- `function`
  · exact S.bind S.next fun _ => S.bind S.expectIdentifier fun _ => S.bind S.parameters fun _ =>
      S.bind (S.expect .leftBrace) fun _ => S.bind ih.body fun _ => S.pure _
  -- `if`
  · refine S.bind S.next fun _ => S.bind S.condition fun _ => S.bind ih.statement fun _ =>
      S.bind S.current fun t => ?_
    split
    · exact S.bind S.next fun _ => S.bind ih.statement fun _ => S.pure _
    · exact S.pure _
  -- `while`
  · exact S.bind S.next fun _ => S.bind S.condition fun _ => S.bind ih.statement fun _ => S.pure _
  -- `return`
  · refine S.bind S.next fun _ => S.bind (S.check .semicolon) fun alone => ?_
    cases alone with
    | true => exact S.bind (S.pure none) fun _ => S.spanned (S.expect .semicolon)
    | false =>
      exact S.bind (S.bind S.expression fun _ => S.pure _) fun _ => S.spanned (S.expect .semicolon)
  -- `break` and `continue`
  · exact S.bind S.next fun _ => hsemicolon
  · exact S.bind S.next fun _ => hsemicolon
  -- a block
  · exact S.bind S.next fun _ => S.bind ih.body fun _ => S.pure _
  -- an empty statement
  · exact S.bind S.next fun _ => S.pure _
  -- an expression
  · exact S.closed .semicolon S.expression fun _ => S.pure _

theorem body_succ (ih : S.Statements fuel fuel') :
    S.Matches (Reading.body (fuel + 1)) (Reading.body (fuel' + 1)) := by
  rw [Reading.body, Reading.body]
  refine S.bind (S.check .rightBrace) fun _ => S.bind S.atEnd fun _ => ?_
  split
  · exact S.bind (S.expect .rightBrace) fun _ => S.pure []
  · exact S.bind ih.declaration fun _ => S.bind ih.body fun _ => S.pure _

end Statements

theorem within {fuel fuel' : Nat} (h : fuel ≤ fuel') : S.Statements fuel fuel' := by
  induction fuel generalizing fuel' with
  | zero => exact ⟨S.outOfFuel _, S.outOfFuel _, S.outOfFuel _⟩
  | succ fuel ih =>
    obtain ⟨fuel', rfl⟩ : ∃ k, fuel' = k + 1 := ⟨fuel' - 1, by omega⟩
    have ih := ih (Nat.le_of_succ_le_succ h)
    exact ⟨ih.statement_succ, S.recovering ih.statement, ih.body_succ⟩

/-- **Two sources are read alike** if their operations are alike. -/
theorem statements {fuel fuel' : Nat} (h : fuel ≤ fuel') :
    S.Matches (Reading.statements fuel) (Reading.statements fuel') := by
  induction fuel generalizing fuel' with
  | zero => exact S.outOfFuel _
  | succ fuel ih =>
    obtain ⟨fuel', rfl⟩ : ∃ k, fuel' = k + 1 := ⟨fuel' - 1, by omega⟩
    have h := Nat.le_of_succ_le_succ h
    rw [Reading.statements, Reading.statements]
    refine S.bind S.atEnd fun ended => ?_
    cases ended with
    | true => exact S.pure []
    | false => exact S.bind (S.within h).declaration fun _ => S.bind (ih h) fun _ => S.pure _

end Simulation

/-! ## Sources with a state -/

section States

variable {σ τ : Type} {P : σ → τ → Prop} {α β : Type}

/-- **Two outcomes are the same** but for states that correspond, unless the first is that the bound
on the nesting of calls was reached. -/
inductive SameOutcome (P : σ → τ → Prop) :
    EStateM.Result Stop σ α → EStateM.Result Stop τ α → Prop where
  | ok (a : α) {s : σ} {t : τ} : P s t → SameOutcome P (.ok a s) (.ok a t)
  | error (e : Located SyntaxError) {s : σ} {t : τ} : P s t →
      SameOutcome P (.error (.error e) s) (.error (.error e) t)
  | outOfFuel (s : σ) (r : EStateM.Result Stop τ α) : SameOutcome P (.error .outOfFuel s) r

/-- From states that correspond, the readers get to states that correspond. -/
def Tracks (P : σ → τ → Prop) (x : EStateM Stop σ α) (y : EStateM Stop τ α) : Prop :=
  ∀ s t, P s t → SameOutcome P (x s) (y t)

theorem Tracks.bind {x : EStateM Stop σ α} {y : EStateM Stop τ α} {f : α → EStateM Stop σ β}
    {g : α → EStateM Stop τ β} (hx : Tracks P x y) (hf : ∀ a, Tracks P (f a) (g a)) :
    Tracks P (x >>= f) (y >>= g) := by
  intro s t h
  have houtcome := hx s t h
  show SameOutcome P (EStateM.bind x f s) (EStateM.bind y g t)
  rw [EStateM.bind, EStateM.bind]
  generalize x s = r at houtcome
  generalize y t = r' at houtcome
  cases houtcome with
  | ok a h => exact hf a _ _ h
  | error e h => exact .error e h
  | outOfFuel s r' => exact .outOfFuel s _

end States

end Reading

end Stackscript
