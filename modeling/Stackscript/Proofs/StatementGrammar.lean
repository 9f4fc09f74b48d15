import Stackscript.Proofs.ExpressionGrammar

/-!
# The grammar of statements

A program is a list of statements. As the grammar of expressions, this one is over tokens, gives the
tree of what it derives, and knows nothing of how tokens are read. In particular no rule leaves a
token out: what is derived has no errors to recover from.

    program statement* statement simple ";" "function" name "(" parameters ")" "{" statement* "}"
    "if" condition statement "if" condition statement "else" statement, where the first statement
    does not end with an `if` alone "while" condition statement "{" statement* "}" simple "var"
    name, "var" name "=" expression, "const" name "=" expression, "return", "return" expression,
    "break", "continue", expression, nothing condition "(" expression ")"

* `Stmt.dangles`: an `else` behind the statement would be a part of it;
* `Grammar.Names`, `Parameters`, `Condition`, `Initial`, `Simple`;
* **`Grammar.Statement`**, **`Grammar.Statements`**;
* `Grammar.Derives.begins`, `Grammar.Statement.begins`: first tokens.
-/

namespace Stackscript

/-- The statement ends with an `if` that has no `else`. -/
def Stmt.dangles : Stmt → Bool
  | .ifThen .. => true
  | .ifElse _ _ no => no.dangles
  | .while _ body => body.dangles
  | _ => false

namespace Grammar

/-- The tokens are one or more names between commas. -/
inductive Names : List (Located Token) → List (Located String) → Prop where
  | one (name : Located String) : Names [⟨name.span, .identifier name.val⟩] [name]
  | cons {ts : List (Located Token)} {comma : Span} {names : List (Located String)}
      (name : Located String) : Names ts names →
      Names (⟨name.span, .identifier name.val⟩ :: ⟨comma, .symbol .comma⟩ :: ts) (name :: names)

/-- The tokens are names between commas, or nothing, in parentheses. -/
inductive Parameters : List (Located Token) → List (Located String) → Prop where
  | none (opening closing : Span) : Parameters [⟨opening, .symbol .leftParen⟩,
      ⟨closing, .symbol .rightParen⟩] []
  | names {ts : List (Located Token)} {opening closing : Span} {names : List (Located String)} :
      Names ts names →
      Parameters (⟨opening, .symbol .leftParen⟩ :: (ts ++ [⟨closing, .symbol .rightParen⟩])) names

/-- The tokens are an expression in parentheses. -/
inductive Condition : List (Located Token) → Expr → Prop where
  | parens {ts : List (Located Token)} {opening closing : Span} {e : Expr} :
      Derives .assignment ts e →
      Condition (⟨opening, .symbol .leftParen⟩ :: (ts ++ [⟨closing, .symbol .rightParen⟩])) e

/-- The tokens give a variable its first value, or there are none. -/
inductive Initial : List (Located Token) → Option Expr → Prop where
  | none : Initial [] none
  | value {ts : List (Located Token)} {sign : Span} {e : Expr} : Derives .assignment ts e →
      Initial (⟨sign, .symbol .equal⟩ :: ts) (some e)

/-- **The tokens are a statement up to its semicolon**, which has the given span. Only a constant
needs a value. -/
inductive Simple (semicolon : Span) : List (Located Token) → Stmt → Prop where
  | var {ts : List (Located Token)} {word : Span} {name : Located String} {init : Option Expr} :
      Initial ts init →
      Simple semicolon (⟨word, .keyword .var⟩ :: ⟨name.span, .identifier name.val⟩ :: ts)
      (.var name init)
  | const {ts : List (Located Token)} {word : Span} {name : Located String} {init : Expr} :
      Initial ts (some init) →
      Simple semicolon (⟨word, .keyword .const⟩ :: ⟨name.span, .identifier name.val⟩ :: ts)
      (.const name init)
  | return (word : Span) : Simple semicolon [⟨word, .keyword .return⟩]
      (.return none (word.join semicolon))
  | returnValue {ts : List (Located Token)} {word : Span} {e : Expr} : Derives .assignment ts e →
      Simple semicolon (⟨word, .keyword .return⟩ :: ts) (.return (some e) (word.join semicolon))
  | break (word : Span) : Simple semicolon [⟨word, .keyword .break⟩] (.break word)
  | continue (word : Span) : Simple semicolon [⟨word, .keyword .continue⟩] (.continue word)
  | expr {ts : List (Located Token)} {e : Expr} : Derives .assignment ts e →
      Simple semicolon ts (.expr e)
  | empty : Simple semicolon [] .empty

mutual

/-- **The tokens are a statement**, with the given tree. -/
inductive Statement : List (Located Token) → Stmt → Prop where
  | simple {ts : List (Located Token)} {semicolon : Span} {s : Stmt} : Simple semicolon ts s →
      Statement (ts ++ [⟨semicolon, .symbol .semicolon⟩]) s
  | function {ps bs : List (Located Token)} {word opening closing : Span} {name : Located String}
      {params : List (Located String)} {body : List Stmt} : Parameters ps params →
      Statements bs body → Statement
        (⟨word, .keyword .function⟩ :: ⟨name.span, .identifier name.val⟩ ::
          (ps ++ ⟨opening, .symbol .leftBrace⟩ :: (bs ++ [⟨closing, .symbol .rightBrace⟩])))
        (.function name params body)
  | ifThen {ts ys : List (Located Token)} {word : Span} {test : Expr} {yes : Stmt} :
      Condition ts test → Statement ys yes →
      Statement (⟨word, .keyword .if⟩ :: (ts ++ ys)) (.ifThen test yes)
  /-- An `else` belongs to the nearest `if` before it that it can belong to. -/
  | ifElse {ts ys ns : List (Located Token)} {word otherwise : Span} {test : Expr} {yes no : Stmt} :
      Condition ts test → Statement ys yes → yes.dangles = false → Statement ns no →
      Statement (⟨word, .keyword .if⟩ :: (ts ++ (ys ++ ⟨otherwise, .keyword .else⟩ :: ns)))
      (.ifElse test yes no)
  | while {ts bs : List (Located Token)} {word : Span} {test : Expr} {body : Stmt} :
      Condition ts test → Statement bs body →
      Statement (⟨word, .keyword .while⟩ :: (ts ++ bs)) (.while test body)
  | block {bs : List (Located Token)} {opening closing : Span} {body : List Stmt} :
      Statements bs body →
      Statement (⟨opening, .symbol .leftBrace⟩ :: (bs ++ [⟨closing, .symbol .rightBrace⟩]))
      (.block body)

/-- The tokens are statements, one after the other. -/
inductive Statements : List (Located Token) → List Stmt → Prop where
  | nil : Statements [] []
  | cons {ts rest : List (Located Token)} {s : Stmt} {ss : List Stmt} : Statement ts s →
      Statements rest ss → Statements (ts ++ rest) (s :: ss)

end

end Grammar

/-! ## First tokens -/

/-- The token is the first of some expression. -/
def Token.beginsExpression : Token → Bool
  | .number _ | .string _ | .identifier _ | .keyword .true | .keyword .false | .keyword .null
  | .symbol .leftParen
  | .symbol .leftBracket | .symbol .minus | .symbol .bang => true
  | _ => false

/-- The token announces what form a statement has that begins with it. -/
def Token.announces : Token → Bool
  | .keyword .var | .keyword .const | .keyword .function | .keyword .if | .keyword .while
  | .keyword .return
  | .keyword .break | .keyword .continue | .symbol .leftBrace | .symbol .semicolon => true
  | _ => false

/-- The token stands behind a list of statements. -/
def Token.endsStatements : Token → Bool
  | .symbol .rightBrace | .endOfInput => true
  | _ => false

/-- The token is the first of some statement. -/
def Token.opensStatement (t : Token) : Bool := t.announces || t.beginsExpression

namespace Token

theorem announces_of_beginsExpression {t : Token} (h : t.beginsExpression = true) :
    t.announces = false := by
  cases t with
  | keyword k => cases k <;> first | rfl | cases h
  | symbol s => cases s <;> first | rfl | cases h
  | _ => rfl

theorem endsStatements_of_opensStatement {t : Token} (h : t.opensStatement = true) :
    t.endsStatements = false := by
  cases t with
  | symbol s => cases s <;> first | rfl | cases h
  | endOfInput => cases h
  | _ => rfl

theorem ne_else_of_opensStatement {t : Token} (h : t.opensStatement = true) :
    t ≠ .keyword .else := by
  rintro rfl
  cases h

end Token

namespace Grammar

/-- There is a first token, and it has the property. -/
def Begins (p : Token → Bool) (ts : List (Located Token)) : Prop :=
  ∃ t rest, ts = t :: rest ∧ p t.val = true

variable {p : Token → Bool} {ts : List (Located Token)}

theorem Begins.append (h : Begins p ts) (ts' : List (Located Token)) : Begins p (ts ++ ts') := by
  obtain ⟨t, rest, rfl, ht⟩ := h
  exact ⟨t, rest ++ ts', rfl, ht⟩

theorem Begins.length_pos (h : Begins p ts) : 0 < ts.length := by
  obtain ⟨t, rest, rfl, -⟩ := h
  exact Nat.zero_lt_succ _

theorem Begins.mono {q : Token → Bool} (h : Begins p ts) (hpq : ∀ t, p t = true → q t = true) :
    Begins q ts := by
  obtain ⟨t, rest, rfl, ht⟩ := h
  exact ⟨t, rest, rfl, hpq t.val ht⟩

theorem Derives.begins : ∀ {level : Precedence} {ts : List (Located Token)} {e : Expr},
    Derives level ts e → Begins Token.beginsExpression ts
  | _, _, _, .tighter _ h => h.begins
  | _, _, _, .assign h _ | _, _, _, .assignAt h _ | _, _, _, .cond h _ _ | _, _, _, .binary _ _ h _
  | _, _, _, .call h _ | _, _, _, .index h _ => h.begins.append _
  | _, _, _, .negate _ | _, _, _, .not _ => ⟨_, _, rfl, rfl⟩
  | _, _, _, .primary h => by cases h <;> exact ⟨_, _, rfl, rfl⟩

theorem Statement.begins {s : Stmt} (h : Statement ts s) : Begins Token.opensStatement ts := by
  cases h with
  | simple h =>
    cases h with
    | expr h =>
      refine (h.begins.mono fun t ht => ?_).append _
      rw [Token.opensStatement, ht, Bool.or_true]
    | _ => exact ⟨_, _, rfl, rfl⟩
  | _ => exact ⟨_, _, rfl, rfl⟩

end Grammar

end Stackscript
