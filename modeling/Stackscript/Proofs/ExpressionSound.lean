import Stackscript.Proofs.ExpressionReaders

/-!
# What is read is an expression of the grammar

The readers call each other at different levels of binding, so that all of them are followed at
once, by induction on the bound on the nesting of calls. Between two operators the expression read
so far has a level, and the token behind it cannot bind more tightly than the reach of that level:
whatever could have, the reader of the last operand would have taken. Hence an operator finds a left
operand that the grammar allows.

* `Expr.IsTarget`, `Grammar.Finished`: an expression, and what stands behind it;
* `Parser.Sound`: what every reader does; `Parser.sound`.
-/

namespace Stackscript

/-- The tree is a name or an element of an array. -/
def Expr.IsTarget : Expr → Prop
  | .ident .. | .index .. => True
  | _ => False

namespace Grammar

variable {p q : Precedence} {ts ls : List (Located Token)} {e left : Expr} {c c' : Cursor}

/-- **The tokens before the cursor are an expression of a level**, which ends here. Only suffix
expressions are targets of assignments. -/
structure Finished (q : Precedence) (ts : List (Located Token)) (e : Expr) (c : Cursor) : Prop where
  derives : Derives q ts e
  stops : c.StopsBelow q.reach
  target : e.IsTarget → q = .suffix

theorem Finished.of_suffix (h : Derives .suffix ts e) : Finished .suffix ts e c :=
  ⟨h, fun k _ => Nat.lt_of_le_of_lt (by cases k.precedence <;> decide : k.precedence.level ≤ 7)
    (by decide), fun _ => rfl⟩

/-- The left operand of a binary operator is of the operator's level. -/
theorem Finished.operand {s : Symbol} {op : BinaryOperator} (h : Finished q ls left c)
    (hs : s.Operates p op) (hc : c.current.val = .symbol s) : Derives p ls left := by
  have hlt := h.stops (.binary op p) (by rw [hc]; exact Continuation.ofToken?_operator hs)
  refine h.derives.loosen ?_
  cases hs <;> cases q <;> revert hlt <;> decide

/-- The condition of a conditional is of the level of equalities. -/
theorem Finished.condition (h : Finished q ls left c) (hc : c.current.val = .symbol .question) :
    Derives .equality ls left := by
  have hlt := h.stops .conditional (by rw [hc]; rfl)
  refine h.derives.loosen ?_
  cases q <;> revert hlt <;> decide

/-- What is called or indexed is a suffix expression. -/
theorem Finished.base {k : Continuation} (h : Finished q ls left c)
    (hk : Continuation.ofToken? c.current.val = some k)
    (hsuffix : k.precedence = .suffix) : Derives .suffix ls left := by
  have hlt := h.stops k hk
  rw [hsuffix] at hlt
  refine h.derives.loosen ?_
  cases q <;> revert hlt <;> decide

end Grammar

namespace Parser

open Grammar

/-- **What the readers do** with a bound on the nesting of calls: each of them passes over tokens
that the grammar derives, and returns their tree. -/
structure Sound (fuel : Nat) : Prop where
  climb {min : Precedence} {c c' : Cursor} {e : Expr} : min.level ≤ Precedence.unary.level →
    c.Ended → climb fuel min c = .ok e c' → ∃ ts, c.Passes ts c' ∧
    Derives min ts e ∧ c'.StopsBelow min.level
  operand {c c' : Cursor} {e : Expr} : c.Ended → operand fuel c.current c.advance = .ok e c' →
    ∃ q ts, c.Passes ts c' ∧ Finished q ts e c' ∧ Precedence.unary.level ≤ q.level
  operators {min q : Precedence} {ls : List (Located Token)} {left : Expr} {c c' : Cursor}
    {e : Expr} : c.Ended → Finished q ls left c → min.level ≤ q.level →
    operators fuel min left c = .ok e c' → ∃ ts, c.Passes ts c' ∧
    Derives min (ls ++ ts) e ∧ c'.StopsBelow min.level
  operator {q : Precedence} {ls : List (Located Token)} {k : Continuation} {left : Expr}
    {c c' : Cursor} {e : Expr} : c.Ended → Finished q ls left c →
    Continuation.ofToken? c.current.val = some k → operator fuel k left c.advance = .ok e c' →
    ∃ ts, c.Passes ts c' ∧ Finished k.precedence (ls ++ ts) e c'
  list {close : Symbol} {c c' : Cursor} {es : List Expr} : c.Ended → list fuel close c = .ok es c' →
    ∃ ts span, c.Passes (ts ++ [⟨span, .symbol close⟩]) c' ∧ Listed ts es
  items {c c' : Cursor} {es : List Expr} : c.Ended → items fuel c = .ok es c' →
    ∃ ts, c.Passes ts c' ∧ Items ts es

variable {fuel : Nat} {min q : Precedence} {ls : List (Located Token)}
  {left e : Expr} {c c' : Cursor}

/-- A symbol is passed over. -/
theorem passes_symbol {s : Symbol} (hc : c.Ended) (hs : c.current.val = .symbol s) :
    c.Passes [⟨c.current.span, .symbol s⟩] c.advance := by
  have h := hc.passes_advance (by rw [hs]; exact nofun)
  rwa [show c.current = ⟨c.current.span, .symbol s⟩ by rw [← hs]] at h

/-- An operand, then operators. -/
theorem Sound.climb_succ (ih : Sound fuel) (hmin : min.level ≤ Precedence.unary.level)
    (hc : c.Ended) (h : Parser.climb (fuel + 1) min c = .ok e c') :
    ∃ ts, c.Passes ts c' ∧ Derives min ts e ∧ c'.StopsBelow min.level := by
  obtain ⟨left, c₁, hleft, hrest⟩ := climb_eq_ok.1 h
  obtain ⟨q, ls, hls, hfinished, hq⟩ := ih.operand hc hleft
  obtain ⟨ts, hts, hderives, hstop⟩ :=
    ih.operators (hls.ended hc) hfinished (Nat.le_trans hmin hq) hrest
  exact ⟨ls ++ ts, hls.trans hts, hderives, hstop⟩

/-- A literal or a name is one token. -/
theorem finished_token {t : Located Token} (hc : c.Ended) (ht : c.current = t)
    (hne : t.val ≠ .endOfInput) (h : Primary [t] e) :
    ∃ q ts, c.Passes ts c.advance ∧ Finished q ts e c.advance ∧
      Precedence.unary.level ≤ q.level := by
  subst ht
  exact ⟨.suffix, [c.current], hc.passes_advance hne, .of_suffix (.primary h), by decide⟩

/-- An operand with a sign before it. -/
theorem Sound.signed (ih : Sound fuel) {s : Symbol} {op : UnaryOperator} {sign : Span}
    (hc : c.Ended)
    (ht : c.current = ⟨sign, .symbol s⟩) (hs : (s = .minus ∧ op = .negate) ∨
    (s = .bang ∧ op = .not))
    (h : Parser.operand (fuel + 1) ⟨sign, .symbol s⟩ c.advance = .ok e c') :
    ∃ q ts, c.Passes ts c' ∧ Finished q ts e c' ∧ Precedence.unary.level ≤ q.level := by
  obtain ⟨arg, harg, rfl⟩ := (operand_unary_eq_ok hs).1 h
  have hsign := passes_symbol hc (congrArg Located.val ht)
  rw [ht] at hsign
  obtain ⟨ts, hts, hderives, hstop⟩ := ih.climb (by decide) (hsign.ended hc) harg
  refine ⟨.unary, _, hsign.trans hts, ⟨?_, hstop, nofun⟩, Nat.le_refl _⟩
  obtain ⟨rfl, rfl⟩ | ⟨rfl, rfl⟩ := hs
  · exact .negate hderives
  · exact .not hderives

theorem Sound.operand_succ (ih : Sound fuel) (hc : c.Ended)
    (h : Parser.operand (fuel + 1) c.current c.advance = .ok e c') :
    ∃ q ts, c.Passes ts c' ∧ Finished q ts e c' ∧ Precedence.unary.level ≤ q.level := by
  cases ht : c.current with
  | mk span token =>
    rw [ht] at h
    cases token with
    | number n =>
      cases h
      exact finished_token hc ht nofun (.number span n)
    | string s =>
      cases h
      exact finished_token hc ht nofun (.string span s)
    | identifier name =>
      cases h
      exact finished_token hc ht nofun (.ident span name)
    | keyword k =>
      cases k with
      | true =>
        cases h
        exact finished_token hc ht nofun (.true span)
      | false =>
        cases h
        exact finished_token hc ht nofun (.false span)
      | null =>
        cases h
        exact finished_token hc ht nofun (.null span)
      | _ => cases h
    | symbol s =>
      have hopen := passes_symbol hc (congrArg Located.val ht)
      rw [ht] at hopen
      cases s with
      | leftParen =>
        obtain ⟨inner, c₁, hinner, hclose, rfl, rfl⟩ := operand_parens_eq_ok.1 h
        obtain ⟨ts, hts, hderives, -⟩ := ih.climb (by decide) (hopen.ended hc) hinner
        have hclosing := passes_symbol (hts.ended (hopen.ended hc)) hclose
        exact ⟨.suffix, _, hopen.trans (hts.trans hclosing),
          .of_suffix (.primary (.parens hderives)), by decide⟩
      | leftBracket =>
        obtain ⟨es, hes, rfl⟩ := operand_array_eq_ok.1 h
        obtain ⟨ts, closing, hts, hlisted⟩ := ih.list (hopen.ended hc) hes
        refine ⟨.suffix, _, hopen.trans hts, .of_suffix (.primary ?_), by decide⟩
        rw [hts.previous, List.getLast?_concat]
        exact .array hlisted
      | minus => exact ih.signed hc ht (.inl ⟨rfl, rfl⟩) h
      | bang => exact ih.signed hc ht (.inr ⟨rfl, rfl⟩) h
      | _ => cases h
    | _ => cases h

theorem Sound.operators_succ (ih : Sound fuel) (hc : c.Ended) (hleft : Finished q ls left c)
    (hle : min.level ≤ q.level) (h : Parser.operators (fuel + 1) min left c = .ok e c') :
    ∃ ts, c.Passes ts c' ∧ Derives min (ls ++ ts) e ∧ c'.StopsBelow min.level := by
  obtain ⟨hstop, rfl, rfl⟩ | ⟨k, e₁, c₁, hk, hlevel, hop, hrest⟩ := operators_eq_ok.1 h
  · exact ⟨[], .refl c', by rw [List.append_nil]; exact hleft.derives.loosen hle, hstop⟩
  · obtain ⟨ts, hts, hfinished⟩ := ih.operator hc hleft hk hop
    obtain ⟨ts', hts', hderives, hstop⟩ := ih.operators (hts.ended hc) hfinished hlevel hrest
    exact ⟨ts ++ ts', hts.trans hts', by rwa [← List.append_assoc], hstop⟩

/-- The right side of an operator that ends with an expression. -/
theorem Sound.behind (ih : Sound fuel) {s : Symbol} (hmin : min.level ≤ Precedence.unary.level)
    (hc : c.Ended)
    (hs : c.current.val = .symbol s) (h : Parser.climb fuel min c.advance = .ok e c') :
    ∃ sign ts, c.Passes (⟨sign, .symbol s⟩ :: ts) c' ∧ Derives min ts e ∧ c'.StopsBelow min.level ∧
      c'.previous.span = Grammar.lastSpan ts := by
  have hsign := passes_symbol hc hs
  obtain ⟨ts, hts, hderives, hstop⟩ := ih.climb hmin (hsign.ended hc) h
  exact ⟨_, ts, hsign.trans hts, hderives, hstop, (hts.lastSpan hderives.starts.ne_nil).symm⟩

theorem Sound.operator_succ (ih : Sound fuel) {k : Continuation} (hc : c.Ended)
    (hleft : Finished q ls left c) (hk : Continuation.ofToken? c.current.val = some k)
    (h : Parser.operator (fuel + 1) k left c.advance = .ok e c') :
    ∃ ts, c.Passes ts c' ∧ Finished k.precedence (ls ++ ts) e c' := by
  obtain ⟨rfl, hs⟩ | ⟨rfl, hs⟩ | ⟨rfl, hs⟩ | ⟨rfl, hs⟩ | ⟨s, op, p, rfl, hs, hop⟩ :=
    Continuation.of_symbol hk
  -- an assignment
  · obtain ⟨value, hvalue, htarget⟩ := operator_assignment_eq_ok.1 h
    obtain ⟨sign, ts, hts, hderives, hstop, hspan⟩ := ih.behind (by decide) hc hs hvalue
    refine ⟨_, hts, ?_⟩
    obtain ⟨target, name, rfl, rfl⟩ | ⟨target, object, position, rfl, rfl⟩ := htarget
    · have hsuffix := hleft.target trivial
      subst hsuffix
      rw [hspan]
      exact ⟨.assign hleft.derives hderives, hstop, nofun⟩
    · have hsuffix := hleft.target trivial
      subst hsuffix
      rw [hspan]
      exact ⟨.assignAt hleft.derives hderives, hstop, nofun⟩
  -- a conditional
  · obtain ⟨yes, c₁, no, hyes, hcolon, hno, rfl⟩ := operator_conditional_eq_ok.1 h
    obtain ⟨question, ys, hys, hyes, -, -⟩ := ih.behind (by decide) hc hs hyes
    obtain ⟨colon, ns, hns, hno, hstop, hspan⟩ := ih.behind (by decide) (hys.ended hc) hcolon hno
    rw [hspan]
    exact ⟨_, hys.trans hns, .cond (hleft.condition hs) hyes hno, hstop, nofun⟩
  -- a call
  · obtain ⟨args, hargs, rfl⟩ := operator_call_eq_ok.1 h
    have hopen := passes_symbol hc hs
    obtain ⟨as, closing, has, hlisted⟩ := ih.list (hopen.ended hc) hargs
    refine ⟨_, hopen.trans has, .of_suffix ?_⟩
    rw [has.previous, List.getLast?_concat]
    exact .call (hleft.base hk rfl) hlisted
  -- an element
  · obtain ⟨position, c₁, hposition, hclose, rfl, rfl⟩ := operator_index_eq_ok.1 h
    obtain ⟨opening, ps, hps, hposition, -, -⟩ := ih.behind (by decide) hc hs hposition
    have hclosing := passes_symbol (hps.ended hc) hclose
    exact ⟨_, hps.trans hclosing, .of_suffix (.index (hleft.base hk rfl) hposition)⟩
  -- a binary operator
  · obtain ⟨right, hright, rfl⟩ := operator_binary_eq_ok.1 h
    have hnext := Precedence.precedes_next hop.ne_suffix
    have hmin : p.next.level ≤ Precedence.unary.level := by cases hop <;> decide
    obtain ⟨sign, rs, hrs, hright, hstop, hspan⟩ := ih.behind hmin hc hs hright
    rw [hspan]
    refine ⟨_, hrs, .binary hop hnext (hleft.operand hop hs) hright, ?_, nofun⟩
    show c'.StopsBelow p.reach
    rwa [hop.reach_eq, ← (Precedence.level_next hnext).2]

theorem Sound.list_succ (ih : Sound fuel) {close : Symbol} {es : List Expr} (hc : c.Ended)
    (h : Parser.list (fuel + 1) close c = .ok es c') :
    ∃ ts span, c.Passes (ts ++ [⟨span, .symbol close⟩]) c' ∧ Listed ts es := by
  obtain ⟨hclose, rfl, rfl⟩ | ⟨-, c₁, hitems, hclose, rfl⟩ := list_eq_ok.1 h
  · exact ⟨[], _, passes_symbol hc hclose, .nil⟩
  · obtain ⟨ts, hts, hitems⟩ := ih.items hc hitems
    exact ⟨ts, _, hts.trans (passes_symbol (hts.ended hc) hclose), .items hitems⟩

theorem Sound.items_succ (ih : Sound fuel) {es : List Expr} (hc : c.Ended)
    (h : Parser.items (fuel + 1) c = .ok es c') : ∃ ts, c.Passes ts c' ∧ Items ts es := by
  obtain ⟨e, c₁, he, hrest⟩ := items_eq_ok.1 h
  obtain ⟨ts, hts, hderives, -⟩ := ih.climb (by decide) hc he
  obtain ⟨hcomma, rest, hitems, rfl⟩ | ⟨-, rfl, rfl⟩ := hrest
  · have hpass := passes_symbol (hts.ended hc) hcomma
    obtain ⟨rs, hrs, hitems⟩ := ih.items (hpass.ended (hts.ended hc)) hitems
    exact ⟨_, hts.trans (hpass.trans hrs), .cons hderives hitems⟩
  · exact ⟨ts, hts, .one hderives⟩

/-- **What is read is an expression of the grammar.** -/
theorem sound (fuel : Nat) : Sound fuel := by
  induction fuel with
  | zero =>
    exact ⟨fun _ _ => nofun, fun _ => nofun, fun _ _ _ => nofun, fun _ _ _ => nofun, fun _ =>
      nofun, fun _ => nofun⟩
  | succ fuel ih =>
    exact ⟨ih.climb_succ, ih.operand_succ, ih.operators_succ, ih.operator_succ,
      ih.list_succ, ih.items_succ⟩

end Parser

end Stackscript
