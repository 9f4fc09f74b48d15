import Stackscript.Proofs.ExpressionGrammar
import Stackscript.Proofs.Lists

/-!
# What the readers of expressions do

A reader passes over tokens. For each reader it is said when it succeeds, in terms of the readers
that it calls.

* `Cursor.tokens`, `Cursor.Passes`: the cursor gets from one place to another over some tokens;
  `Cursor.Ended`;
* `Precedence.reach`, `Cursor.StopsBelow`: how tightly the token behind an expression may bind;
* `Parser.climb_eq_ok`, `operators_eq_ok`, `list_eq_ok`, `items_eq_ok`.
-/

namespace Stackscript

/-! ## Cursors -/

namespace Cursor

/-- The tokens from the current one on. -/
def tokens (c : Cursor) : List (Located Token) := c.current :: c.upcoming

/-- **The cursor gets to another place by passing over tokens.** -/
structure Passes (c : Cursor) (ts : List (Located Token)) (c' : Cursor) : Prop where
  whole : c.tokens = ts ++ c'.tokens
  previous : c'.previous = ts.getLast?.getD c.previous
  errors : c'.errors = c.errors

/-- The last token is the end of input. -/
def Ended (c : Cursor) : Prop := c.tokens.getLast?.map (·.val) = some .endOfInput

variable {c c₁ c₂ : Cursor} {ts ts' : List (Located Token)}

theorem Passes.refl (c : Cursor) : c.Passes [] c := ⟨rfl, rfl, rfl⟩

theorem Passes.eq_of_nil (h : c.Passes [] c₁) : c₁ = c := by
  obtain ⟨hcurrent, hupcoming⟩ := List.cons.inj h.whole
  obtain ⟨_, _, _, _⟩ := c
  obtain ⟨_, _, _, _⟩ := c₁
  cases hcurrent
  cases hupcoming
  cases h.previous
  cases h.errors
  rfl

theorem Passes.trans (h : c.Passes ts c₁) (h' : c₁.Passes ts' c₂) : c.Passes (ts ++ ts') c₂ := by
  refine ⟨by rw [h.whole, h'.whole, List.append_assoc], ?_, h'.errors.trans h.errors⟩
  rw [h'.previous, h.previous, List.getLast?_append]
  cases ts'.getLast? <;> rfl

theorem Passes.ended (h : c.Passes ts c₁) (hc : c.Ended) : c₁.Ended := by
  unfold Ended at hc ⊢
  have hne : c₁.tokens ≠ [] := List.cons_ne_nil _ _
  rwa [h.whole, List.getLast?_append_of_ne_nil _ hne] at hc

/-- The place is where it is, whatever is passed over to get there. -/
theorem Passes.unique (h : c.Passes ts c₁) (h' : c.Passes ts' c₁) : ts = ts' :=
  List.append_cancel_right (h.whole.symm.trans h'.whole)

theorem Passes.lastSpan (h : c.Passes ts c₁) (hts : ts ≠ []) :
    Grammar.lastSpan ts = c₁.previous.span := by
  rw [h.previous, Grammar.lastSpan, List.getLast?_eq_some_getLast hts]
  rfl

theorem tokens_advance (h : c.upcoming ≠ []) : c.advance.tokens = c.upcoming := by
  unfold advance tokens
  cases hc : c.upcoming with
  | nil => exact absurd hc h
  | cons t ts => rfl

theorem previous_advance (c : Cursor) : c.advance.previous = c.current := by
  unfold advance
  split <;> rfl

theorem errors_advance (c : Cursor) : c.advance.errors = c.errors := by
  unfold advance
  split <;> rfl

theorem passes_advance (h : c.upcoming ≠ []) : c.Passes [c.current] c.advance :=
  ⟨by rw [tokens_advance h]; rfl, c.previous_advance, c.errors_advance⟩

/-- Only the end of input has nothing behind it. -/
theorem Ended.passes_advance (h : c.Ended) (hc : c.current.val ≠ .endOfInput) :
    c.Passes [c.current] c.advance := by
  refine Cursor.passes_advance fun hnil => hc ?_
  rw [Ended, tokens, hnil] at h
  exact Option.some.inj h

/-- Tokens are passed over one after the other. -/
theorem Passes.uncons {t : Located Token} (h : c.Passes (t :: ts) c₁) :
    c.current = t ∧ c.advance.Passes ts c₁ := by
  have htokens := h.whole
  rw [tokens, List.cons_append] at htokens
  obtain ⟨rfl, hrest⟩ := List.cons.inj htokens
  have hne : c.upcoming ≠ [] := by rw [hrest]; simp [tokens]
  refine ⟨rfl, by rw [tokens_advance hne, hrest], ?_, h.errors.trans c.errors_advance.symm⟩
  rw [h.previous, previous_advance]
  cases hts : ts.getLast? with
  | none => rw [List.getLast?_eq_none_iff.1 hts]; rfl
  | some t => rw [List.getLast?_cons, hts]; rfl

theorem Passes.of_append (h : c.Passes (ts ++ ts') c₂) :
    ∃ c₁, c.Passes ts c₁ ∧ c₁.Passes ts' c₂ := by
  induction ts generalizing c with
  | nil => exact ⟨c, .refl c, h⟩
  | cons t ts ih =>
    obtain ⟨rfl, hrest⟩ := h.uncons
    obtain ⟨c₁, h₁, h₂⟩ := ih hrest
    have hne : c.upcoming ≠ [] := by
      have htokens := h.whole
      rw [tokens, List.cons_append, List.cons_append] at htokens
      rw [(List.cons.inj htokens).2]
      simp [tokens]
    exact ⟨c₁, (passes_advance hne).trans h₁, h₂⟩

end Cursor

/-! ## Levels -/

namespace Precedence

/-- What binds less tightly than this can stand behind an expression of the level: an operator of a
level that associates to the left may follow one of the same level, any other would have been taken
for a part of it. -/
def reach : Precedence → Nat
  | .assignment => 0
  | .conditional => 1
  | .equality => 3
  | .comparison => 4
  | .term => 5
  | .factor => 6
  | .unary => 6
  | .suffix => 8

theorem reach_mono {p q : Precedence} (h : p.Precedes q) : p.reach ≤ q.reach := by
  cases h <;> decide

end Precedence

theorem Symbol.Operates.reach_eq {s : Symbol} {p : Precedence} {op : BinaryOperator}
    (h : s.Operates p op) :
    p.reach = p.level + 1 := by cases h <;> rfl

theorem Symbol.Operates.ne_suffix {s : Symbol} {p : Precedence} {op : BinaryOperator}
    (h : s.Operates p op) :
    p ≠ .suffix := by cases h <;> exact nofun

/-! ## Continuations -/

namespace Continuation

theorem ofToken?_eq_none_iff {t : Token} : ofToken? t = none ↔ t.isInfix = false := by
  cases t with
  | symbol s => cases s <;> simp [ofToken?, Symbol.binaryOperator?, Token.isInfix]
  | _ => simp [ofToken?, Token.isInfix]

theorem of_symbol {t : Token} {k : Continuation} (h : ofToken? t = some k) :
    (k = .assignment ∧ t = .symbol .equal) ∨ (k = .conditional ∧ t = .symbol .question) ∨
      (k = .call ∧ t = .symbol .leftParen) ∨ (k = .index ∧ t = .symbol .leftBracket) ∨
      ∃ s op p, k = .binary op p ∧ t = .symbol s ∧ s.Operates p op := by
  cases t with
  | symbol s =>
    cases s <;> cases h <;>
      simp only [reduceCtorEq, Token.symbol.injEq, false_and, and_self, true_or, or_true, false_or,
        Continuation.binary.injEq] <;>
      exact ⟨_, _, _, ⟨rfl, rfl⟩, rfl, by constructor⟩
  | _ => cases h

theorem ofToken?_operator {s : Symbol} {p : Precedence} {op : BinaryOperator}
    (h : s.Operates p op) :
    ofToken? (.symbol s) = some (.binary op p) := by cases h <;> rfl

end Continuation

/-- What the current token continues binds less tightly than this, if it continues anything. -/
def Cursor.StopsBelow (c : Cursor) (bound : Nat) : Prop :=
  ∀ k, Continuation.ofToken? c.current.val = some k → k.precedence.level < bound

theorem Cursor.StopsBelow.mono {c : Cursor} {n m : Nat} (h : c.StopsBelow n) (hle : n ≤ m) :
    c.StopsBelow m :=
  fun k hk => Nat.lt_of_lt_of_le (h k hk) hle

theorem Cursor.stopsBelow_of_isInfix {c : Cursor} (h : c.current.val.isInfix = false)
    (bound : Nat) : c.StopsBelow bound := by
  intro k hk
  rw [Continuation.ofToken?_eq_none_iff.2 h] at hk
  cases hk

/-! ## Readers -/

namespace Parser

variable {fuel : Nat} {min : Precedence} {c c' : Cursor} {e left : Expr}

theorem next_eq (c : Cursor) : next c = .ok c.current c.advance := rfl

theorem current_bind_eq_ok {α : Type} {f : Located Token → Parser α} {a : α} :
    (current >>= f) c = .ok a c' ↔ f c.current c = .ok a c' := Iff.rfl

theorem expect_eq_ok {s : Symbol} {u : Unit} :
    expect s c = .ok u c' ↔ c.current.val = .symbol s ∧ c' = c.advance := by
  rw [expect, Reading.expect, bind_eq_ok]
  constructor
  · rintro ⟨t, _, ht, hx⟩
    cases ht
    split at hx
    · next h =>
      cases hx
      exact ⟨h, rfl⟩
    · cases hx
  · rintro ⟨h, rfl⟩
    refine ⟨c.current, c, rfl, ?_⟩
    rw [if_pos h]
    rfl

/-- A reader that looks at the current token for a symbol. -/
theorem checked_eq_ok {α : Type} {s : Symbol} {a : α} {x y : Parser α} :
    (do if ← check s then x else y : Parser α) c = .ok a c' ↔
      (c.current.val = .symbol s ∧ x c = .ok a c') ∨
        (c.current.val ≠ .symbol s ∧ y c = .ok a c') := by
  rw [bind_eq_ok]
  constructor
  · rintro ⟨_, _, hcheck, hx⟩
    cases hcheck
    by_cases h : c.current.val = .symbol s
    · rw [if_pos (beq_iff_eq.2 h)] at hx
      exact .inl ⟨h, hx⟩
    · rw [if_neg (beq_iff_eq.not.2 h)] at hx
      exact .inr ⟨h, hx⟩
  · rintro (⟨h, hx⟩ | ⟨h, hx⟩)
    · refine ⟨_, c, rfl, ?_⟩
      rwa [if_pos (beq_iff_eq.2 h)]
    · refine ⟨_, c, rfl, ?_⟩
      rwa [if_neg (beq_iff_eq.not.2 h)]

/-- A reader whose result has the span up to where it stops. -/
theorem spanned_eq_ok {α β : Type} {x : Parser α} {f : α → Span → β} {b : β} :
    (do let a ← x; return f a (← lastSpan) : Parser β) c = .ok b c' ↔
      ∃ a, x c = .ok a c' ∧ b = f a c'.previous.span := by
  rw [bind_eq_ok]
  constructor
  · rintro ⟨a, c₁, hx, h⟩
    cases h
    exact ⟨a, hx, rfl⟩
  · rintro ⟨a, hx, rfl⟩
    exact ⟨a, c', hx, rfl⟩

/-- A reader whose result ends with a closing bracket. -/
theorem bracketed_eq_ok {α β : Type} {x : Parser α} {close : Symbol} {f : α → Span → β} {b : β} :
    (do let a ← x; expect close; return f a (← lastSpan) : Parser β) c = .ok b c' ↔
      ∃ a c₁, x c = .ok a c₁ ∧ c₁.current.val = .symbol close ∧ c' = c₁.advance ∧
        b = f a c₁.current.span := by
  rw [bind_eq_ok]
  constructor
  · rintro ⟨a, c₁, hx, h⟩
    obtain ⟨_, c₂, hclose, h⟩ := bind_eq_ok.1 h
    obtain ⟨hc, rfl⟩ := expect_eq_ok.1 hclose
    cases h
    exact ⟨a, c₁, hx, hc, rfl, by rw [c₁.previous_advance]⟩
  · rintro ⟨a, c₁, hx, hc, rfl, rfl⟩
    refine ⟨a, c₁, hx, bind_eq_ok.2 ⟨(), c₁.advance, expect_eq_ok.2 ⟨hc, rfl⟩, ?_⟩⟩
    rw [← c₁.previous_advance]
    rfl

/-- An operand, and then operators. -/
theorem climb_eq_ok : climb (fuel + 1) min c = .ok e c' ↔
    ∃ left c₁, operand fuel c.current c.advance = .ok left c₁ ∧
      operators fuel min left c₁ = .ok e c' := by
  rw [climb, Reading.climb, bind_eq_ok]
  simp only [next_eq, EStateM.Result.ok.injEq, bind_eq_ok]
  exact ⟨fun ⟨_, _, ⟨ht, hc⟩, h⟩ => ht ▸ hc ▸ h, fun h => ⟨_, _, ⟨rfl, rfl⟩, h⟩⟩

/-- Reading stops at what binds too loosely, or goes on behind an operator. -/
theorem operators_eq_ok : operators (fuel + 1) min left c = .ok e c' ↔
    (c.StopsBelow min.level ∧ e = left ∧ c' = c) ∨
      ∃ k e₁ c₁, Continuation.ofToken? c.current.val = some k ∧ min.level ≤ k.precedence.level ∧
        operator fuel k left c.advance = .ok e₁ c₁ ∧ operators fuel min e₁ c₁ = .ok e c' := by
  rw [operators, Reading.operators, current_bind_eq_ok]
  cases hk : Continuation.ofToken? c.current.val with
  | none =>
    constructor
    · intro h
      cases h
      refine .inl ⟨fun k h => ?_, rfl, rfl⟩
      cases hk.symm.trans h
    · rintro (⟨-, rfl, rfl⟩ | ⟨k, _, _, h, -⟩)
      · rfl
      · cases h
  | some k =>
    by_cases hlt : k.precedence.level < min.level
    · simp only [if_pos hlt]
      constructor
      · intro h
        cases h
        refine .inl ⟨fun k' h => ?_, rfl, rfl⟩
        cases hk.symm.trans h
        exact hlt
      · rintro (⟨-, rfl, rfl⟩ | ⟨k', _, _, h, hle, -⟩)
        · rfl
        · cases h
          omega
    · simp only [if_neg hlt]
      constructor
      · intro h
        obtain ⟨_, _, hnext, h⟩ := bind_eq_ok.1 h
        cases hnext
        obtain ⟨e₁, c₁, h₁, h₂⟩ := bind_eq_ok.1 h
        exact .inr ⟨k, e₁, c₁, rfl, Nat.le_of_not_lt hlt, h₁, h₂⟩
      · rintro (⟨hstop, -, -⟩ | ⟨k', e₁, c₁, h, -, h₁, h₂⟩)
        · exact absurd (hstop k hk) hlt
        · cases h
          exact bind_eq_ok.2 ⟨_, _, rfl, bind_eq_ok.2 ⟨e₁, c₁, h₁, h₂⟩⟩

/-- Nothing before the closing bracket, or expressions. -/
theorem list_eq_ok {close : Symbol} {es : List Expr} : list (fuel + 1) close c = .ok es c' ↔
    (c.current.val = .symbol close ∧ es = [] ∧ c' = c.advance) ∨
      (c.current.val ≠ .symbol close ∧ ∃ c₁, items fuel c = .ok es c₁ ∧
        c₁.current.val = .symbol close ∧ c' = c₁.advance) := by
  rw [list, Reading.list, checked_eq_ok]
  refine or_congr (and_congr_right fun _ => ?_) (and_congr_right fun _ => ?_)
  · exact ⟨fun h => by cases h; exact ⟨rfl, rfl⟩, fun ⟨hes, hc⟩ => by rw [hes, hc]; rfl⟩
  · rw [bind_eq_ok]
    constructor
    · rintro ⟨es', c₁, h₁, h⟩
      obtain ⟨_, c₂, h₂, h⟩ := bind_eq_ok.1 h
      cases h
      exact ⟨c₁, h₁, expect_eq_ok.1 h₂⟩
    · rintro ⟨c₁, h₁, h₂⟩
      exact ⟨es, c₁, h₁, bind_eq_ok.2 ⟨(), c', expect_eq_ok.2 h₂, rfl⟩⟩

/-- One expression, and more behind a comma. -/
theorem items_eq_ok {es : List Expr} : items (fuel + 1) c = .ok es c' ↔
    ∃ e c₁, climb fuel .assignment c = .ok e c₁ ∧
      ((c₁.current.val = .symbol .comma ∧ ∃ rest, items fuel c₁.advance = .ok rest c' ∧
        es = e :: rest) ∨ (c₁.current.val ≠ .symbol .comma ∧ es = [e] ∧ c' = c₁)) := by
  rw [items, Reading.items, bind_eq_ok]
  refine exists_congr fun e => exists_congr fun c₁ => and_congr_right fun _ => ?_
  rw [checked_eq_ok]
  refine or_congr (and_congr_right fun _ => ?_) (and_congr_right fun _ => ?_)
  · constructor
    · intro h
      obtain ⟨_, _, hnext, h⟩ := bind_eq_ok.1 h
      cases hnext
      obtain ⟨rest, c₂, h₁, h⟩ := bind_eq_ok.1 h
      cases h
      exact ⟨rest, h₁, rfl⟩
    · rintro ⟨rest, h₁, rfl⟩
      exact bind_eq_ok.2 ⟨_, _, rfl, bind_eq_ok.2 ⟨rest, c', h₁, rfl⟩⟩
  · exact ⟨fun h => by cases h; exact ⟨rfl, rfl⟩, fun ⟨hes, hc⟩ => by rw [hes, hc]; rfl⟩

/-! What an operand and an operator read, by their first token. -/

theorem operand_parens_eq_ok {span : Span} :
    operand (fuel + 1) ⟨span, .symbol .leftParen⟩ c = .ok e c' ↔
    ∃ inner c₁, climb fuel .assignment c = .ok inner c₁ ∧ c₁.current.val = .symbol .rightParen ∧
      c' = c₁.advance ∧ e = inner.withSpan (span.join c₁.current.span) := by
  rw [operand, Reading.operand]
  exact bracketed_eq_ok

theorem operand_array_eq_ok {span : Span} :
    operand (fuel + 1) ⟨span, .symbol .leftBracket⟩ c = .ok e c' ↔
    ∃ es, list fuel .rightBracket c = .ok es c' ∧ e = .array (span.join c'.previous.span) es := by
  rw [operand, Reading.operand]
  exact spanned_eq_ok

theorem operand_unary_eq_ok {s : Symbol} {op : UnaryOperator} {span : Span}
    (hs : (s = .minus ∧ op = .negate) ∨ (s = .bang ∧ op = .not)) :
    operand (fuel + 1) ⟨span, .symbol s⟩ c = .ok e c' ↔
      ∃ arg, climb fuel .unary c = .ok arg c' ∧ e = .unary (span.join arg.span) op arg := by
  obtain ⟨rfl, rfl⟩ | ⟨rfl, rfl⟩ := hs
  all_goals
    rw [operand, Reading.operand, bind_eq_ok]
    constructor
    · rintro ⟨arg, c₁, h, hx⟩
      cases hx
      exact ⟨arg, h, rfl⟩
    · rintro ⟨arg, h, rfl⟩
      exact ⟨arg, c', h, rfl⟩

theorem operator_assignment_eq_ok : operator (fuel + 1) .assignment left c = .ok e c' ↔
    ∃ value, climb fuel .assignment c = .ok value c' ∧
      ((∃ target name, left = .ident target name ∧
          e = .assign (target.join c'.previous.span) ⟨target, name⟩ value) ∨
        ∃ target object position, left = .index target object position ∧
          e = .assignAt (target.join c'.previous.span) target object position value) := by
  cases left with
  | ident target name =>
    rw [operator, Reading.operator]
    refine spanned_eq_ok.trans (exists_congr fun value => and_congr_right fun _ => ?_)
    exact ⟨fun h => .inl ⟨target, name, rfl, h⟩,
      by rintro (⟨_, _, ⟨⟩, h⟩ | ⟨_, _, _, ⟨⟩, _⟩); exact h⟩
  | index target object position =>
    rw [operator, Reading.operator]
    refine spanned_eq_ok.trans (exists_congr fun value => and_congr_right fun _ => ?_)
    exact ⟨fun h => .inr ⟨target, object, position, rfl, h⟩,
      by rintro (⟨_, _, ⟨⟩, _⟩ | ⟨_, _, _, ⟨⟩, h⟩); exact h⟩
  | _ =>
    rw [operator, Reading.operator]
    · exact ⟨nofun, by rintro ⟨_, -, ⟨_, _, ⟨⟩, -⟩ | ⟨_, _, _, ⟨⟩, -⟩⟩⟩
    all_goals exact nofun

theorem operator_conditional_eq_ok : operator (fuel + 1) .conditional left c = .ok e c' ↔
    ∃ yes c₁ no, climb fuel .assignment c = .ok yes c₁ ∧ c₁.current.val = .symbol .colon ∧
      climb fuel .conditional c₁.advance = .ok no c' ∧
        e = .cond (left.span.join c'.previous.span) left yes no := by
  rw [operator, Reading.operator, bind_eq_ok]
  constructor
  · rintro ⟨yes, c₁, h₁, h⟩
    obtain ⟨_, c₂, hcolon, h⟩ := bind_eq_ok.1 h
    obtain ⟨hc, rfl⟩ := expect_eq_ok.1 hcolon
    obtain ⟨no, h₂, he⟩ := spanned_eq_ok.1 h
    exact ⟨yes, c₁, no, h₁, hc, h₂, he⟩
  · rintro ⟨yes, c₁, no, h₁, hc, h₂, he⟩
    exact ⟨yes, c₁, h₁, bind_eq_ok.2 ⟨(), c₁.advance, expect_eq_ok.2 ⟨hc, rfl⟩,
      spanned_eq_ok.2 ⟨no, h₂, he⟩⟩⟩

theorem operator_call_eq_ok : operator (fuel + 1) .call left c = .ok e c' ↔
    ∃ args, list fuel .rightParen c = .ok args c' ∧
      e = .call (left.span.join c'.previous.span) left args := by
  rw [operator, Reading.operator]
  exact spanned_eq_ok

theorem operator_index_eq_ok : operator (fuel + 1) .index left c = .ok e c' ↔
    ∃ position c₁, climb fuel .assignment c = .ok position c₁ ∧
      c₁.current.val = .symbol .rightBracket ∧
      c' = c₁.advance ∧ e = .index (left.span.join c₁.current.span) left position := by
  rw [operator, Reading.operator]
  exact bracketed_eq_ok

theorem operator_binary_eq_ok {op : BinaryOperator} {p : Precedence} :
    operator (fuel + 1) (.binary op p) left c = .ok e c' ↔
      ∃ right, climb fuel p.next c = .ok right c' ∧
        e = .binary (left.span.join c'.previous.span) op left right := by
  rw [operator, Reading.operator]
  exact spanned_eq_ok

end Parser

end Stackscript
