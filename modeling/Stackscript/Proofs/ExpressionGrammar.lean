import Stackscript.Tree.Expression

/-!
# The grammar of expressions

Expressions are stratified: each level of binding has its own rules, and its operands are of the
same level or of the next tighter one. The grammar is over tokens and says nothing of how they are
read. A rule also gives the tree of what it derives, with its spans.

    assignment target "=" assignment, where the tree of the suffix expression `target` is a name or
    an element conditional equality "?" assignment ":" conditional equality equality ("==" | "!=")
    comparison comparison comparison ("<" | ">" | "<=" | ">=") term term term ("+" | "-") factor
    factor factor ("*" | "/" | "%") unary unary ("-" | "!") unary suffix primary, suffix "(" list
    ")", suffix "[" assignment "]" primary literal, identifier, "(" assignment ")", "[" list "]"

Every level but the last two also has the expressions of the next tighter one. A list is empty or
has assignments between commas.

* `Precedence.Precedes`, `Symbol.Operates`: the levels and their operators;
* `Token.isInfix`, `Token.isClosing`;
* **`Grammar.Derives`**, `Grammar.Primary`, `Grammar.Listed`, `Grammar.Items`;
* `Grammar.Derives.loosen`, `Grammar.Derives.starts`.
-/

namespace Stackscript

/-- The level that stands directly above a level of tighter binding. -/
inductive Precedence.Precedes : Precedence → Precedence → Prop where
  | assignment : Precedes .assignment .conditional
  | conditional : Precedes .conditional .equality
  | equality : Precedes .equality .comparison
  | comparison : Precedes .comparison .term
  | term : Precedes .term .factor
  | factor : Precedes .factor .unary
  | unary : Precedes .unary .suffix

/-- The symbol writes a binary operator of a level. -/
inductive Symbol.Operates : Symbol → Precedence → BinaryOperator → Prop where
  | equal : Operates .equalEqual .equality .equal
  | notEqual : Operates .bangEqual .equality .notEqual
  | less : Operates .less .comparison .less
  | greater : Operates .greater .comparison .greater
  | lessEqual : Operates .lessEqual .comparison .lessEqual
  | greaterEqual : Operates .greaterEqual .comparison .greaterEqual
  | add : Operates .plus .term .add
  | subtract : Operates .minus .term .subtract
  | multiply : Operates .star .factor .multiply
  | divide : Operates .slash .factor .divide
  | modulo : Operates .percent .factor .modulo

/-- The token continues an expression that stands before it. -/
def Token.isInfix : Token → Bool
  | .symbol .equal | .symbol .question | .symbol .equalEqual | .symbol .bangEqual | .symbol .less
  | .symbol .greater
  | .symbol .lessEqual | .symbol .greaterEqual | .symbol .plus | .symbol .minus | .symbol .star
  | .symbol .slash
  | .symbol .percent | .symbol .leftParen | .symbol .leftBracket => true
  | _ => false

/-- The token closes a list. -/
def Token.isClosing : Token → Bool
  | .symbol .rightParen | .symbol .rightBracket => true
  | _ => false

namespace Grammar

/-- The span of the last of some tokens. -/
def lastSpan (ts : List (Located Token)) : Span := (ts.getLast?.map (·.span)).getD ⟨0, 0⟩

mutual

/-- **The tokens are an expression of a level**, with the given tree. -/
inductive Derives : Precedence → List (Located Token) → Expr → Prop where
  | tighter {p q : Precedence} {ts : List (Located Token)} {e : Expr} : p.Precedes q →
      Derives q ts e → Derives p ts e
  /-- The target may stand in parentheses, of which the tree shows nothing but the span. -/
  | assign {ts vs : List (Located Token)} {target sign : Span} {name : String} {value : Expr} :
      Derives .suffix ts (.ident target name) → Derives .assignment vs value →
      Derives .assignment (ts ++ ⟨sign, .symbol .equal⟩ :: vs)
        (.assign (target.join (lastSpan vs)) ⟨target, name⟩ value)
  | assignAt {ts vs : List (Located Token)} {target sign : Span} {object position value : Expr} :
      Derives .suffix ts (.index target object position) → Derives .assignment vs value →
      Derives .assignment (ts ++ ⟨sign, .symbol .equal⟩ :: vs)
        (.assignAt (target.join (lastSpan vs)) target object position value)
  | cond {ts ys ns : List (Located Token)} {question colon : Span} {test yes no : Expr} :
      Derives .equality ts test → Derives .assignment ys yes → Derives .conditional ns no →
      Derives .conditional (ts ++ ⟨question, .symbol .question⟩ ::
        (ys ++ ⟨colon, .symbol .colon⟩ :: ns)) (.cond (test.span.join (lastSpan ns)) test yes no)
  /-- Binary operators associate to the left. -/
  | binary {p q : Precedence} {ls rs : List (Located Token)} {sign : Span} {s : Symbol}
      {op : BinaryOperator} {left right : Expr} : s.Operates p op → p.Precedes q →
      Derives p ls left → Derives q rs right → Derives p (ls ++ ⟨sign, .symbol s⟩ :: rs)
      (.binary (left.span.join (lastSpan rs)) op left right)
  | negate {ts : List (Located Token)} {sign : Span} {arg : Expr} : Derives .unary ts arg →
      Derives .unary (⟨sign, .symbol .minus⟩ :: ts) (.unary (sign.join arg.span) .negate arg)
  | not {ts : List (Located Token)} {sign : Span} {arg : Expr} : Derives .unary ts arg →
      Derives .unary (⟨sign, .symbol .bang⟩ :: ts) (.unary (sign.join arg.span) .not arg)
  | call {ts as : List (Located Token)} {opening closing : Span} {callee : Expr}
      {args : List Expr} : Derives .suffix ts callee → Listed as args →
      Derives .suffix (ts ++ ⟨opening, .symbol .leftParen⟩ ::
        (as ++ [⟨closing, .symbol .rightParen⟩])) (.call (callee.span.join closing) callee args)
  | index {ts ps : List (Located Token)} {opening closing : Span} {object position : Expr} :
      Derives .suffix ts object → Derives .assignment ps position →
      Derives .suffix (ts ++ ⟨opening, .symbol .leftBracket⟩ ::
        (ps ++ [⟨closing, .symbol .rightBracket⟩]))
        (.index (object.span.join closing) object position)
  | primary {ts : List (Located Token)} {e : Expr} : Primary ts e → Derives .suffix ts e

/-- The tokens are an expression that needs no parentheses anywhere. -/
inductive Primary : List (Located Token) → Expr → Prop where
  | number (span : Span) (n : Number) : Primary [⟨span, .number n⟩] (.number span n)
  | string (span : Span) (s : String) : Primary [⟨span, .string s⟩] (.string span s)
  | true (span : Span) : Primary [⟨span, .keyword .true⟩] (.boolean span true)
  | false (span : Span) : Primary [⟨span, .keyword .false⟩] (.boolean span false)
  | null (span : Span) : Primary [⟨span, .keyword .null⟩] (.null span)
  | ident (span : Span) (name : String) : Primary [⟨span, .identifier name⟩] (.ident span name)
  | parens {ts : List (Located Token)} {opening closing : Span} {e : Expr} :
      Derives .assignment ts e →
        Primary (⟨opening, .symbol .leftParen⟩ :: (ts ++ [⟨closing, .symbol .rightParen⟩]))
        (e.withSpan (opening.join closing))
  | array {ts : List (Located Token)} {opening closing : Span} {items : List Expr} :
      Listed ts items →
        Primary (⟨opening, .symbol .leftBracket⟩ :: (ts ++ [⟨closing, .symbol .rightBracket⟩]))
        (.array (opening.join closing) items)

/-- The tokens are expressions between commas, or there are none. -/
inductive Listed : List (Located Token) → List Expr → Prop where
  | nil : Listed [] []
  | items {ts : List (Located Token)} {es : List Expr} : Items ts es → Listed ts es

/-- The tokens are one or more expressions between commas. -/
inductive Items : List (Located Token) → List Expr → Prop where
  | one {ts : List (Located Token)} {e : Expr} : Derives .assignment ts e → Items ts [e]
  | cons {ts rest : List (Located Token)} {comma : Span} {e : Expr} {es : List Expr} :
      Derives .assignment ts e → Items rest es →
      Items (ts ++ ⟨comma, .symbol .comma⟩ :: rest) (e :: es)

end

end Grammar

/-! ## Levels -/

namespace Precedence

theorem level_next {p q : Precedence} (h : p.Precedes q) : p.next = q ∧ q.level = p.level + 1 := by
  cases h <;> exact ⟨rfl, rfl⟩

theorem precedes_next {p : Precedence} (h : p ≠ .suffix) : p.Precedes p.next := by
  cases p with
  | assignment => exact .assignment
  | conditional => exact .conditional
  | equality => exact .equality
  | comparison => exact .comparison
  | term => exact .term
  | factor => exact .factor
  | unary => exact .unary
  | suffix => exact absurd rfl h

theorem level_inj {p q : Precedence} (h : p.level = q.level) : p = q := by
  cases p <;> cases q <;> first | rfl | cases h

end Precedence

namespace Grammar

/-- An expression of a level is one of every looser level. -/
theorem Derives.loosen {p q : Precedence} {ts : List (Located Token)} {e : Expr}
    (h : Derives q ts e) (hle : p.level ≤ q.level) : Derives p ts e := by
  induction hn : q.level - p.level generalizing p with
  | zero =>
    obtain rfl : p = q := Precedence.level_inj (by omega)
    exact h
  | succ n ih =>
    have hp : p ≠ .suffix := by
      rintro rfl
      have : q.level ≤ Precedence.suffix.level := by cases q <;> decide
      omega
    have hnext := Precedence.precedes_next hp
    have hlevel := (Precedence.level_next hnext).2
    exact .tighter hnext (ih (by omega) (by omega))

/-! ## First tokens -/

/-- There is a first token, and it does not close a list. -/
def Starts (ts : List (Located Token)) : Prop := ∃ t rest, ts = t :: rest ∧ t.val.isClosing = false

theorem Starts.append {ts : List (Located Token)} (h : Starts ts) (ts' : List (Located Token)) :
    Starts (ts ++ ts') := by
  obtain ⟨t, rest, rfl, ht⟩ := h
  exact ⟨t, rest ++ ts', rfl, ht⟩

theorem Starts.ne_nil {ts : List (Located Token)} (h : Starts ts) : ts ≠ [] := by
  obtain ⟨t, rest, rfl, -⟩ := h
  exact List.cons_ne_nil t rest

theorem Primary.starts {ts : List (Located Token)} {e : Expr} (h : Primary ts e) : Starts ts := by
  cases h <;> exact ⟨_, _, rfl, rfl⟩

theorem Derives.starts : ∀ {p : Precedence} {ts : List (Located Token)} {e : Expr},
    Derives p ts e → Starts ts
  | _, _, _, .tighter _ h => h.starts
  | _, _, _, .assign h _ | _, _, _, .assignAt h _ | _, _, _, .cond h _ _ | _, _, _, .binary _ _ h _
  | _, _, _, .call h _ | _, _, _, .index h _ => h.starts.append _
  | _, _, _, .negate _ | _, _, _, .not _ => ⟨_, _, rfl, rfl⟩
  | _, _, _, .primary h => h.starts

theorem Items.starts {ts : List (Located Token)} {es : List Expr} (h : Items ts es) :
    Starts ts := by
  cases h with
  | one h => exact h.starts
  | cons h _ => exact h.starts.append _

end Grammar

end Stackscript
