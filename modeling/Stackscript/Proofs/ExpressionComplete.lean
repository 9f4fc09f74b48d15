import Stackscript.Proofs.ExpressionSound
import Stackscript.Token.Scan

/-!
# Every expression of the grammar is read

Reading is deterministic, and a derivation says what it finds. For each rule, the readers get over
its tokens if they get over the parts. A left operand is read before the level of the operator
behind it is known, so that what is said of a derivation is said with all that is read behind it: if
`operators` goes on from the end of the tokens to some result, then `climb` gets from their start to
the same result.

Each token costs at most five nested calls.

* `Parser.Reads`: a reader has a result under every large bound on the nesting of calls;
* `Parser.ReadsLevel`, `ReadsOperand`, `ReadsList`, `ReadsItems`, with a lemma for every rule of the
  grammar;
* `Cursor.ended_ofTokens_scan`: a text ends with the end of input;
* **`Parser.expression_iff_derives`**: reading succeeds on the expressions of the grammar and on
  nothing else.
-/

namespace Stackscript

namespace Parser

open Grammar

/-- The reader gets from a cursor to another with a result, if it may nest at least `n` calls. -/
def Reads {α : Type} (n : Nat) (x : Nat → Parser α) (c : Cursor) (a : α) (c' : Cursor) : Prop :=
  ∀ fuel, n ≤ fuel → x fuel c = .ok a c'

theorem Reads.mono {α : Type} {n m : Nat} {x : Nat → Parser α} {c c' : Cursor} {a : α}
    (h : Reads n x c a c') (hle : n ≤ m) : Reads m x c a c' :=
  fun fuel hfuel => h fuel (Nat.le_trans hle hfuel)

theorem Reads.of_succ {α : Type} {n : Nat} {x : Nat → Parser α} {c c' : Cursor} {a : α}
    (h : ∀ fuel, n ≤ fuel → x (fuel + 1) c = .ok a c') : Reads (n + 1) x c a c' := by
  intro fuel hfuel
  cases fuel with
  | zero => cases hfuel
  | succ fuel => exact h fuel (Nat.le_of_succ_le_succ hfuel)

variable {p q min : Precedence} {ts ls rs as ps ys ns vs : List (Located Token)}
  {e left right : Expr} {es : List Expr} {c c₁ c' c'' : Cursor} {r : Expr} {n : Nat}

/-! ## Operators -/

theorem reads_operators_stop (h : c.StopsBelow min.level) : Reads 1 (operators · min e) c e c :=
  .of_succ fun _ _ => operators_eq_ok.2 (.inl ⟨h, rfl, rfl⟩)

theorem reads_operators_step {k : Continuation} (hk : Continuation.ofToken? c.current.val = some k)
    (hle : min.level ≤ k.precedence.level) (hop : Reads n (operator · k left) c.advance e c₁)
    (hrest : Reads n (operators · min e) c₁ r c') : Reads (n + 1) (operators · min left) c r c' :=
  .of_succ fun fuel hfuel =>
    operators_eq_ok.2 (.inr ⟨k, e, c₁, hk, hle, hop fuel hfuel, hrest fuel hfuel⟩)

/-! ## Derivations -/

/-- The tokens of an expression of a level are read at every level that is as loose, and so is what
follows them. -/
def ReadsLevel (p : Precedence) (ts : List (Located Token)) (e : Expr) : Prop :=
  ∀ ⦃min : Precedence⦄ ⦃n : Nat⦄ ⦃c c' c'' : Cursor⦄ ⦃r : Expr⦄, c.Passes ts c' →
    min.level ≤ p.level → c'.StopsBelow p.reach → Reads n (operators · min e) c' r c'' →
    Reads (n + 5 * ts.length) (climb · min) c r c''

/-- The tokens are read as one operand, before any operator is looked at. -/
def ReadsOperand (p : Precedence) (ts : List (Located Token)) (e : Expr) : Prop :=
  ∀ ⦃c c' : Cursor⦄, c.Passes ts c' → c'.StopsBelow p.reach → ∀ fuel, 5 * ts.length ≤ fuel + 1 →
    operand fuel c.current c.advance = .ok e c'

def ReadsList (ts : List (Located Token)) (es : List Expr) : Prop :=
  ∀ ⦃close : Symbol⦄ ⦃span : Span⦄ ⦃c c' : Cursor⦄, close = .rightParen ∨ close = .rightBracket →
    c.Passes (ts ++ [⟨span, .symbol close⟩]) c' → Reads (5 * ts.length + 3) (list · close) c es c'

def ReadsItems (ts : List (Located Token)) (es : List Expr) : Prop :=
  ∀ ⦃close : Symbol⦄ ⦃c c' : Cursor⦄, close = .rightParen ∨ close = .rightBracket → c.Passes ts c' →
    c'.current.val = .symbol close → Reads (5 * ts.length + 2) items c es c'

/-- An expression that nothing continues is read on its own. -/
theorem ReadsLevel.alone (h : ReadsLevel p ts e) (hts : c.Passes ts c')
    (hstop : c'.StopsBelow p.level)
    (hreach : p.level ≤ p.reach) : Reads (5 * ts.length + 1) (climb · p) c e c' := by
  have hreads := h hts (Nat.le_refl _) (hstop.mono hreach) (reads_operators_stop hstop)
  exact hreads.mono (by omega)

/-- The expression between brackets or before a colon or a comma. -/
theorem ReadsLevel.enclosed (h : ReadsLevel .assignment ts e) (hts : c.Passes ts c') {s : Symbol}
    (hs : c'.current.val = .symbol s) (hends : (Token.symbol s).isInfix = false) :
    Reads (5 * ts.length + 1) (climb · .assignment) c e c' :=
  h.alone hts (c'.stopsBelow_of_isInfix (by rwa [hs]) _) (Nat.le_refl _)

theorem ReadsLevel.tighter (hpq : p.Precedes q) (h : ReadsLevel q ts e) : ReadsLevel p ts e := by
  intro min n c c' c'' r hts hle hstop hrest
  have hlevel := (Precedence.level_next hpq).2
  exact h hts (by omega) (hstop.mono (Precedence.reach_mono hpq)) hrest

/-- A left operand, and behind it an operator with all that belongs to it. -/
theorem ReadsLevel.operator {k : Continuation} {sign : Located Token} (h : ReadsLevel q ls left)
    (hk : Continuation.ofToken? sign.val = some k) (hq : k.precedence.level ≤ q.level)
    (hreach : k.precedence.level < q.reach)
    (hop : ∀ ⦃c c'⦄, c.Passes ts c' → c'.StopsBelow k.precedence.reach →
      Reads (5 * ts.length + 4) (operator · k left) c e c') :
    ReadsLevel k.precedence (ls ++ sign :: ts) e := by
  intro min n c c' c'' r hts hle hstop hrest
  obtain ⟨c₁, hls, hsign⟩ := hts.of_append
  obtain ⟨rfl, hright⟩ := hsign.uncons
  have hstep : Reads (n + 5 * ts.length + 4 + 1) (operators · min left) c₁ r c'' :=
    reads_operators_step hk hle ((hop hright hstop).mono (by omega)) (hrest.mono (by omega))
  refine (h hls (Nat.le_trans hle hq) ?_ hstep).mono ?_
  · intro k' hk'
    cases hk.symm.trans hk'
    exact hreach
  · rw [List.length_append, List.length_cons]
    omega

theorem ReadsLevel.assign {target sign : Span} {name : String} {value : Expr}
    (h : ReadsLevel .suffix ts (.ident target name)) (hvs : vs ≠ [])
    (hvalue : ReadsLevel .assignment vs value) :
    ReadsLevel .assignment (ts ++ ⟨sign, .symbol .equal⟩ :: vs)
      (.assign (target.join (Grammar.lastSpan vs)) ⟨target, name⟩ value) := by
  refine h.operator (k := .assignment) rfl (by decide) (by decide) fun c c' hts hstop => ?_
  refine .of_succ fun fuel hfuel =>
    operator_assignment_eq_ok.2 ⟨value, ?_, .inl ⟨target, name, rfl, ?_⟩⟩
  · exact hvalue.alone hts hstop (Nat.le_refl _) fuel (by omega)
  · rw [hts.lastSpan hvs]

theorem ReadsLevel.assignAt {target sign : Span} {object position value : Expr}
    (h : ReadsLevel .suffix ts (.index target object position)) (hvs : vs ≠ [])
    (hvalue : ReadsLevel .assignment vs value) :
    ReadsLevel .assignment (ts ++ ⟨sign, .symbol .equal⟩ :: vs)
      (.assignAt (target.join (Grammar.lastSpan vs)) target object position value) := by
  refine h.operator (k := .assignment) rfl (by decide) (by decide) fun c c' hts hstop => ?_
  refine .of_succ fun fuel hfuel =>
    operator_assignment_eq_ok.2 ⟨value, ?_, .inr ⟨target, object, position, rfl, ?_⟩⟩
  · exact hvalue.alone hts hstop (Nat.le_refl _) fuel (by omega)
  · rw [hts.lastSpan hvs]

theorem ReadsLevel.cond {question colon : Span} {test yes no : Expr}
    (h : ReadsLevel .equality ts test)
    (hyes : ReadsLevel .assignment ys yes) (hns : ns ≠ []) (hno : ReadsLevel .conditional ns no) :
    ReadsLevel .conditional (ts ++ ⟨question, .symbol .question⟩ ::
      (ys ++ ⟨colon, .symbol .colon⟩ :: ns))
      (.cond (test.span.join (Grammar.lastSpan ns)) test yes no) := by
  refine h.operator (k := .conditional) rfl (by decide) (by decide) fun c c' hts hstop => ?_
  obtain ⟨c₁, hys, hcolon⟩ := hts.of_append
  obtain ⟨hcur, hns'⟩ := hcolon.uncons
  have hlength : (ys ++ ⟨colon, .symbol .colon⟩ :: ns).length = ys.length + ns.length + 1 := by
    rw [List.length_append, List.length_cons]
    omega
  refine .of_succ fun fuel hfuel => operator_conditional_eq_ok.2
    ⟨yes, c₁, no, ?_, congrArg Located.val hcur, ?_, ?_⟩
  · exact hyes.enclosed hys (congrArg Located.val hcur) rfl fuel (by omega)
  · exact hno.alone hns' hstop (Nat.le_refl _) fuel (by omega)
  · rw [hns'.lastSpan hns]

theorem ReadsLevel.binary {sign : Span} {s : Symbol} {op : BinaryOperator} (hs : s.Operates p op)
    (hpq : p.Precedes q) (h : ReadsLevel p ls left) (hrs : rs ≠ [])
    (hright : ReadsLevel q rs right) :
    ReadsLevel p (ls ++ ⟨sign, .symbol s⟩ :: rs)
      (.binary (left.span.join (Grammar.lastSpan rs)) op left right) := by
  have hreach := hs.reach_eq
  obtain ⟨hnext, hlevel⟩ := Precedence.level_next hpq
  refine h.operator (k := .binary op p) (Continuation.ofToken?_operator hs) (Nat.le_refl _)
    (by show p.level < p.reach; omega) fun c c' hts hstop => ?_
  have hstop : c'.StopsBelow p.reach := hstop
  have hle : q.level ≤ q.reach := by cases hpq <;> decide
  refine .of_succ fun fuel hfuel => operator_binary_eq_ok.2 ⟨right, ?_, by rw [hts.lastSpan hrs]⟩
  rw [hnext]
  refine hright.alone hts ?_ hle fuel (by omega)
  rwa [hlevel, ← hreach]

theorem ReadsLevel.call {opening closing : Span} {args : List Expr} (h : ReadsLevel .suffix ts left)
    (hargs : ReadsList as args) :
    ReadsLevel .suffix (ts ++ ⟨opening, .symbol .leftParen⟩ ::
      (as ++ [⟨closing, .symbol .rightParen⟩])) (.call (left.span.join closing) left args) := by
  refine h.operator (k := .call) rfl (Nat.le_refl _) (by decide) fun c c' hts hstop => ?_
  have hlength : (as ++ [(⟨closing, .symbol .rightParen⟩ : Located Token)]).length = as.length +
      1 := by
    rw [List.length_append, List.length_singleton]
  refine .of_succ fun fuel hfuel =>
    operator_call_eq_ok.2 ⟨args, hargs (.inl rfl) hts fuel (by omega), ?_⟩
  rw [hts.previous, List.getLast?_concat]
  rfl

theorem ReadsLevel.index {opening closing : Span} {position : Expr} (h : ReadsLevel .suffix ts left)
    (hposition : ReadsLevel .assignment ps position) :
    ReadsLevel .suffix (ts ++ ⟨opening, .symbol .leftBracket⟩ ::
      (ps ++ [⟨closing, .symbol .rightBracket⟩]))
      (.index (left.span.join closing) left position) := by
  refine h.operator (k := .index) rfl (Nat.le_refl _) (by decide) fun c c' hts hstop => ?_
  obtain ⟨c₁, hps, hclosing⟩ := hts.of_append
  obtain ⟨hcur, hend⟩ := hclosing.uncons
  have hlength : (ps ++ [(⟨closing, .symbol .rightBracket⟩ : Located Token)]).length = ps.length +
      1 := by
    rw [List.length_append, List.length_singleton]
  refine .of_succ fun fuel hfuel => operator_index_eq_ok.2
    ⟨position, c₁, ?_, congrArg Located.val hcur, ?_, by rw [hcur]⟩
  · exact hposition.enclosed hps (congrArg Located.val hcur) rfl fuel (by omega)
  · exact hend.eq_of_nil

theorem ReadsLevel.of_operand (h : ReadsOperand p ts e) (hts : Starts ts) : ReadsLevel p ts e := by
  intro min n c c' c'' r hpass _ hstop hrest
  obtain ⟨t, rest, rfl, -⟩ := hts
  have hlength : 5 * (t :: rest).length = 5 * rest.length + 4 + 1 := by rw [List.length_cons]; omega
  rw [hlength, ← Nat.add_assoc]
  exact .of_succ fun fuel hfuel =>
    climb_eq_ok.2 ⟨e, c', h hpass hstop fuel (by omega), hrest fuel (by omega)⟩

/-- A bound that allows for the first token allows for one more call. -/
theorem exists_fuel {t : Located Token} {fuel : Nat} (h : 5 * (t :: ts).length ≤ fuel + 1) :
    ∃ f, fuel = f + 1 ∧ 5 * ts.length + 3 ≤ f := by
  rw [List.length_cons] at h
  exact ⟨fuel - 1, by omega, by omega⟩

/-- An operand that is one token. -/
theorem ReadsOperand.of_token {t : Located Token}
    (h : ∀ fuel c, operand (fuel + 1) t c = .ok e c) : ReadsOperand p [t] e := by
  intro c c' hts _ fuel hfuel
  obtain ⟨rfl, hend⟩ := hts.uncons
  obtain ⟨f, rfl, -⟩ := exists_fuel hfuel
  rw [hend.eq_of_nil]
  exact h f c.advance

theorem ReadsOperand.signed {s : Symbol} {op : UnaryOperator} {sign : Span} {arg : Expr}
    (hs : (s = .minus ∧ op = .negate) ∨ (s = .bang ∧ op = .not)) (h : ReadsLevel .unary ts arg) :
    ReadsOperand .unary (⟨sign, .symbol s⟩ :: ts) (.unary (sign.join arg.span) op arg) := by
  intro c c' hts hstop fuel hfuel
  obtain ⟨hcur, hts⟩ := hts.uncons
  obtain ⟨f, rfl, hf⟩ := exists_fuel hfuel
  rw [hcur]
  exact (operand_unary_eq_ok hs).2 ⟨arg, h.alone hts hstop (Nat.le_refl _) f (by omega), rfl⟩

theorem ReadsOperand.parens {opening closing : Span} (h : ReadsLevel .assignment ts e) :
    ReadsOperand p (⟨opening, .symbol .leftParen⟩ :: (ts ++ [⟨closing, .symbol .rightParen⟩]))
      (e.withSpan (opening.join closing)) := by
  intro c c' hts _ fuel hfuel
  obtain ⟨hcur, hts⟩ := hts.uncons
  obtain ⟨f, rfl, hf⟩ := exists_fuel hfuel
  obtain ⟨c₁, hinner, hclosing⟩ := hts.of_append
  obtain ⟨hclose, hend⟩ := hclosing.uncons
  rw [List.length_append] at hf
  rw [hcur]
  refine operand_parens_eq_ok.2 ⟨e, c₁, ?_, congrArg Located.val hclose,
    hend.eq_of_nil, by rw [hclose]⟩
  exact h.enclosed hinner (congrArg Located.val hclose) rfl f (by omega)

theorem ReadsOperand.array {opening closing : Span} (h : ReadsList ts es) :
    ReadsOperand p (⟨opening, .symbol .leftBracket⟩ :: (ts ++ [⟨closing, .symbol .rightBracket⟩]))
      (.array (opening.join closing) es) := by
  intro c c' hts _ fuel hfuel
  obtain ⟨hcur, hts⟩ := hts.uncons
  obtain ⟨f, rfl, hf⟩ := exists_fuel hfuel
  rw [List.length_append] at hf
  rw [hcur]
  refine operand_array_eq_ok.2 ⟨es, h (.inr rfl) hts f (by omega), ?_⟩
  rw [hts.previous, List.getLast?_concat]
  rfl

theorem ReadsList.nil : ReadsList [] [] := by
  intro close span c c' _ hts
  obtain ⟨hcur, hend⟩ := hts.uncons
  exact .of_succ fun fuel _ => list_eq_ok.2 (.inl ⟨congrArg Located.val hcur, rfl, hend.eq_of_nil⟩)

theorem ReadsList.items (h : ReadsItems ts es) (hts : Starts ts) : ReadsList ts es := by
  intro close span c c' hclose hpass
  obtain ⟨c₁, hitems, hclosing⟩ := hpass.of_append
  obtain ⟨hcur, hend⟩ := hclosing.uncons
  have hcur := congrArg Located.val hcur
  have hfirst : c.current.val ≠ .symbol close := by
    obtain ⟨t, rest, rfl, ht⟩ := hts
    rw [hitems.uncons.1]
    intro h
    rw [h] at ht
    obtain rfl | rfl := hclose <;> cases ht
  refine .of_succ fun fuel hfuel => list_eq_ok.2 (.inr ⟨hfirst, c₁, ?_, hcur, hend.eq_of_nil⟩)
  exact h hclose hitems hcur fuel (by omega)

theorem ReadsItems.one (h : ReadsLevel .assignment ts e) : ReadsItems ts [e] := by
  intro close c c' hclose hts hcur
  refine .of_succ fun fuel hfuel => items_eq_ok.2 ⟨e, c', ?_, .inr ⟨?_, rfl, rfl⟩⟩
  · exact h.enclosed hts hcur (by obtain rfl | rfl := hclose <;> rfl) fuel hfuel
  · rw [hcur]
    obtain rfl | rfl := hclose <;> exact nofun

theorem ReadsItems.cons {comma : Span} (h : ReadsLevel .assignment ts e)
    (hrest : ReadsItems rs es) : ReadsItems (ts ++ ⟨comma, .symbol .comma⟩ :: rs) (e :: es) := by
  intro close c c' hclose hts hcur
  obtain ⟨c₁, hfirst, hcomma⟩ := hts.of_append
  obtain ⟨hsep, hrs⟩ := hcomma.uncons
  have hsep := congrArg Located.val hsep
  refine .of_succ fun fuel hfuel => ?_
  rw [List.length_append, List.length_cons] at hfuel
  refine items_eq_ok.2 ⟨e, c₁, ?_, .inl ⟨hsep, es, ?_, rfl⟩⟩
  · exact h.enclosed hfirst hsep rfl fuel (by omega)
  · exact hrest hclose hrs hcur fuel (by omega)

end Parser

/-! ## The grammar -/

namespace Grammar

open Stackscript.Parser

mutual

/-- **Every expression of the grammar is read**, one case for each rule. -/
theorem Derives.reads : ∀ {p : Precedence} {ts : List (Located Token)} {e : Expr},
    Derives p ts e → ReadsLevel p ts e
  | _, _, _, .tighter hpq h => .tighter hpq h.reads
  | _, _, _, .assign h hvalue => .assign h.reads hvalue.starts.ne_nil hvalue.reads
  | _, _, _, .assignAt h hvalue => .assignAt h.reads hvalue.starts.ne_nil hvalue.reads
  | _, _, _, .cond h hyes hno => .cond h.reads hyes.reads hno.starts.ne_nil hno.reads
  | _, _, _, .binary hs hpq h hright => .binary hs hpq h.reads hright.starts.ne_nil hright.reads
  | _, _, _, .negate h => .of_operand (.signed (.inl ⟨rfl, rfl⟩) h.reads) ⟨_, _, rfl, rfl⟩
  | _, _, _, .not h => .of_operand (.signed (.inr ⟨rfl, rfl⟩) h.reads) ⟨_, _, rfl, rfl⟩
  | _, _, _, .call h hargs => .call h.reads hargs.reads
  | _, _, _, .index h hposition => .index h.reads hposition.reads
  | _, _, _, .primary h => .of_operand h.reads h.starts

theorem Primary.reads : ∀ {ts : List (Located Token)} {e : Expr}, Primary ts e →
    ReadsOperand .suffix ts e
  | _, _, .number _ _ => .of_token fun _ _ => rfl
  | _, _, .string _ _ => .of_token fun _ _ => rfl
  | _, _, .true _ => .of_token fun _ _ => rfl
  | _, _, .false _ => .of_token fun _ _ => rfl
  | _, _, .null _ => .of_token fun _ _ => rfl
  | _, _, .ident _ _ => .of_token fun _ _ => rfl
  | _, _, .parens h => .parens h.reads
  | _, _, .array h => .array h.reads

theorem Listed.reads :
    ∀ {ts : List (Located Token)} {es : List Expr}, Listed ts es → ReadsList ts es
  | _, _, .nil => .nil
  | _, _, .items h => .items h.reads h.starts

theorem Items.reads : ∀ {ts : List (Located Token)} {es : List Expr}, Items ts es → ReadsItems ts es
  | _, _, .one h => .one h.reads
  | _, _, .cons h hrest => .cons h.reads hrest.reads

end

end Grammar

/-! ## Texts -/

theorem getLast?_scanFrom (pos : Nat) (cs : List Char) :
    (scanFrom pos cs).tokens.getLast?.map (·.val) = some .endOfInput := by
  fun_induction scanFrom pos cs with
  | case1 => rfl
  | case2 pos cs errors start ch rest _ _ _ s tail ih =>
    rw [List.getLast?_cons]
    cases htail : tail.tokens.getLast? with
    | none => rw [htail] at ih; cases ih
    | some t => rw [htail] at ih; exact ih

/-- Reading a text starts with the end of input last. -/
theorem Cursor.ended_ofTokens_scan (source : String) :
    (Cursor.ofTokens (Token.scan source).tokens).Ended := by
  obtain ⟨t, hlast, ht⟩ := Option.map_eq_some_iff.1 (getLast?_scanFrom 0 source.toList)
  obtain ⟨init, hinit⟩ := List.getLast?_eq_some_iff.1 hlast
  have hkept : (t.val != .invalid) = true := by rw [ht]; rfl
  have hfilter : (Token.scan source).tokens.filter (·.val != .invalid) =
      init.filter (·.val != .invalid) ++ [t] := by
    rw [Token.scan, hinit, List.filter_append, List.filter_singleton, hkept]
    rfl
  have htokens : (Cursor.ofTokens (Token.scan source).tokens).tokens =
      init.filter (·.val != .invalid) ++ [t] := by
    rw [ofTokens]
    split
    · next hnil => rw [hfilter] at hnil; exact absurd hnil (by simp)
    · next hcons => rw [← hfilter, hcons]; rfl
  rw [Ended, htokens, List.getLast?_concat, Option.map_some, ht]

namespace Parser

/-- **The readers accept the expressions of the grammar and nothing else.** Reading stops before a
token that continues nothing. If such a token stands behind some tokens, then reading gets exactly
over these and returns a tree if and only if the grammar derives them with this tree. -/
theorem expression_iff_derives {c : Cursor} (hc : c.Ended) :
    (∀ e c', expression c = .ok e c' → ∃ ts, c.Passes ts c' ∧ c'.current.val.isInfix = false) ∧
      ∀ ts c', c.Passes ts c' → c'.current.val.isInfix = false →
        ∀ e, expression c = .ok e c' ↔ Grammar.Derives .assignment ts e := by
  have hsound : ∀ {e c'}, expression c = .ok e c' →
      ∃ ts, c.Passes ts c' ∧ Grammar.Derives .assignment ts e ∧ c'.StopsBelow 0 :=
    fun h => (sound _).climb (by decide) hc h
  refine ⟨fun e c' h => ?_, fun ts c' hts hnext e => ⟨fun h => ?_, fun h => ?_⟩⟩
  · obtain ⟨ts, hts, -, hstop⟩ := hsound h
    refine ⟨ts, hts, Continuation.ofToken?_eq_none_iff.1 ?_⟩
    exact Option.eq_none_iff_forall_ne_some.2 fun k hk => nomatch hstop k hk
  · obtain ⟨ts', hts', hderives, -⟩ := hsound h
    rwa [hts.unique hts']
  · have hlength := congrArg List.length hts.whole
    rw [List.length_append, Cursor.tokens, Cursor.tokens, List.length_cons,
      List.length_cons] at hlength
    refine h.reads.alone hts (c'.stopsBelow_of_isInfix hnext _) (Nat.le_refl _) _ ?_
    show 5 * ts.length + 1 ≤ 5 * c.upcoming.length + 5
    omega

/-- The tokens of `xs[i] = -y * z ? f(x) : null`. -/
def storedConditional : List (Located Token) :=
  [.identifier "xs", .symbol .leftBracket, .identifier "i", .symbol .rightBracket, .symbol .equal,
    .symbol .minus, .identifier "y", .symbol .star, .identifier "z", .symbol .question,
    .identifier "f", .symbol .leftParen, .identifier "x", .symbol .rightParen, .symbol .colon,
    .keyword .null].mapIdx fun i t => ⟨⟨i, i + 1⟩, t⟩

/-- The tokens of `x + y = z`. -/
def storedSum : List (Located Token) :=
  [.identifier "x", .symbol .plus, .identifier "y", .symbol .equal, .identifier "z"].mapIdx
    fun i t => ⟨⟨i, i + 1⟩, t⟩

/-- The cursor before some tokens with the end of input behind them. -/
def before (ts : List (Located Token)) : Cursor :=
  .ofTokens (ts ++ [⟨⟨ts.length, ts.length⟩, .endOfInput⟩])

/-- The first of the two is an expression, and the second is not. -/
theorem expression_iff_derives_stored :
    Grammar.Derives .assignment storedConditional
        (.assignAt ⟨0, 16⟩ ⟨0, 4⟩ (.ident ⟨0, 1⟩ "xs") (.ident ⟨2, 3⟩ "i")
          (.cond ⟨5, 16⟩
            (.binary ⟨5, 9⟩ .multiply (.unary ⟨5, 7⟩ .negate (.ident ⟨6, 7⟩ "y"))
            (.ident ⟨8, 9⟩ "z"))
            (.call ⟨10, 14⟩ (.ident ⟨10, 11⟩ "f") [.ident ⟨12, 13⟩ "x"]) (.null ⟨15, 16⟩))) ∧
      ¬ ∃ e, Grammar.Derives .assignment storedSum e := by
  constructor
  · exact ((expression_iff_derives (c := before storedConditional) rfl).2 _
      ⟨⟨⟨15, 16⟩, .keyword .null⟩, ⟨⟨16, 16⟩, .endOfInput⟩, [], []⟩ ⟨rfl, rfl, rfl⟩ rfl _).1 rfl
  · rintro ⟨e, h⟩
    cases ((expression_iff_derives (c := before storedSum) rfl).2 _
      ⟨⟨⟨4, 5⟩, .identifier "z"⟩, ⟨⟨5, 5⟩, .endOfInput⟩, [], []⟩ ⟨rfl, rfl, rfl⟩ rfl e).2 h

end Parser

end Stackscript
