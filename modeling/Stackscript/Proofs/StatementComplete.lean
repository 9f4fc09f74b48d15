import Stackscript.Proofs.ScanLossless
import Stackscript.Proofs.StatementSound

/-!
# Every program of the grammar is read

For each rule of the grammar, the readers get over its tokens if they get over the parts, and add no
error. A token that stands behind a statement is looked at only if the statement ends with an `if`
that has no `else`. Each token costs at most two nested calls.

* `Parser.reads_simple`, `ReadsStatement`, `ReadsBody`, `ReadsProgram`, with a lemma for every rule;
* **`Grammar.Statement.reads`**, `Grammar.Statements.readsProgram`;
* `Cursor.tokens_ofTokens_scan`: no token is left out of a text without lexical errors;
* **`Program.parse_iff_derives`**: the programs that are accepted are those of the grammar.
-/

namespace Stackscript

namespace Parser

open Grammar

variable {fuel : Nat} {c c' : Cursor} {s yes no : Stmt} {ss : List Stmt} {test : Expr}
  {ts us ps bs ys ns : List (Located Token)}

theorem current_of_begins {p : Token → Bool} (h : Begins p ts) (hpass : c.Passes (ts ++ us) c') :
    p c.current.val = true := by
  obtain ⟨t, rest, rfl, ht⟩ := h
  rwa [hpass.uncons.1]

/-- A word and a name. -/
theorem reads_named {word : Keyword} {span : Span} {name : Located String}
    (hpass : c.Passes (⟨span, .keyword word⟩ :: ⟨name.span, .identifier name.val⟩ :: ts) c') :
    c.current.val = .keyword word ∧ expectIdentifier c.advance = .ok name c.advance.advance ∧
      c.advance.advance.Passes ts c' := by
  obtain ⟨hword, hpass⟩ := hpass.uncons
  obtain ⟨hname, hpass⟩ := hpass.uncons
  exact ⟨congrArg Located.val hword, expectIdentifier_eq_ok.2 ⟨hname, rfl⟩, hpass⟩

/-! ## Simple statements -/

theorem reads_return_value {semicolon word : Span} {e : Expr} (hc : c.Ended)
    (hpass : c.Passes (⟨word, .keyword .return⟩ :: (ts ++ [⟨semicolon, .symbol .semicolon⟩])) c')
    (h : Derives .assignment ts e) :
    statement (fuel + 1) c = .ok (.return (some e) (word.join semicolon)) c' := by
  obtain ⟨hword, hpass⟩ := hpass.uncons
  refine (statement_return_eq_ok (congrArg Located.val hword)).2 (.inr ⟨?_, e, ?_, ?_⟩)
  · intro hclose
    have hbegins := current_of_begins h.begins hpass
    rw [hclose] at hbegins
    cases hbegins
  · exact (expression_closes hc.advance rfl).2 ⟨ts, semicolon, hpass, h⟩
  · rw [hword, hpass.previous, List.getLast?_concat]
    rfl

theorem reads_simple {semicolon : Span} (hc : c.Ended)
    (hpass : c.Passes (ts ++ [⟨semicolon, .symbol .semicolon⟩]) c') (h : Simple semicolon ts s) :
    statement (fuel + 1) c = .ok s c' := by
  cases h with
  | var hinit =>
    obtain ⟨hword, hname, hpass⟩ := reads_named hpass
    exact (statement_var_eq_ok hword).2
      ⟨_, _, _, hname, (initialValue_closes hc.advance.advance).2 ⟨_, semicolon, hpass, hinit⟩, rfl⟩
  | const hinit =>
    obtain ⟨hword, hname, hpass⟩ := reads_named hpass
    exact (statement_const_eq_ok hword).2
      ⟨_, _, _, hname, (initialValue_closes hc.advance.advance).2 ⟨_, semicolon, hpass, hinit⟩, rfl⟩
  | «return» word =>
    obtain ⟨hword, hpass⟩ := hpass.uncons
    obtain ⟨hclose, hend⟩ := hpass.uncons
    refine (statement_return_eq_ok (congrArg Located.val hword)).2
      (.inl ⟨congrArg Located.val hclose, ?_, hend.eq_of_nil⟩)
    rw [hword, hclose]
  | returnValue h => exact reads_return_value hc hpass h
  | «break» word =>
    obtain ⟨hword, hpass⟩ := hpass.uncons
    obtain ⟨hclose, hend⟩ := hpass.uncons
    exact (statement_word_eq_ok (.inl ⟨rfl, rfl⟩) (congrArg Located.val hword)).2
      ⟨congrArg Located.val hclose, by rw [hword], hend.eq_of_nil⟩
  | «continue» word =>
    obtain ⟨hword, hpass⟩ := hpass.uncons
    obtain ⟨hclose, hend⟩ := hpass.uncons
    exact (statement_word_eq_ok (.inr ⟨rfl, rfl⟩) (congrArg Located.val hword)).2
      ⟨congrArg Located.val hclose, by rw [hword], hend.eq_of_nil⟩
  | expr h =>
    have hfirst := Token.announces_of_beginsExpression (current_of_begins h.begins hpass)
    exact (statement_expr_eq_ok hfirst).2 ⟨_,
      (expression_closes hc rfl).2 ⟨ts, semicolon, hpass, h⟩, rfl⟩
  | empty =>
    obtain ⟨hclose, hend⟩ := hpass.uncons
    exact (statement_empty_eq_ok (congrArg Located.val hclose)).2 ⟨rfl, hend.eq_of_nil⟩

/-! ## Statements -/

/-- The tokens of a statement are read, if no `else` behind them would be a part of it. -/
def ReadsStatement (ts : List (Located Token)) (s : Stmt) : Prop :=
  ∀ ⦃c c' : Cursor⦄, c.Ended → c.Passes ts c' →
    (s.dangles = true → c'.current.val ≠ .keyword .else) → Reads (2 * ts.length) statement c s c'

/-- The tokens of statements are read up to a closing brace. -/
def ReadsBody (ts : List (Located Token)) (ss : List Stmt) : Prop :=
  ∀ ⦃closing : Span⦄ ⦃c c' : Cursor⦄, c.Ended →
    c.Passes (ts ++ [⟨closing, .symbol .rightBrace⟩]) c' → Reads (2 * ts.length + 2) body c ss c'

/-- The tokens of statements are read up to the end of input. -/
def ReadsProgram (ts : List (Located Token)) (ss : List Stmt) : Prop :=
  ∀ ⦃c c' : Cursor⦄, c.Ended → c.Passes ts c' → c'.current.val = .endOfInput →
    Reads (2 * ts.length + 2) statements c ss c'

theorem ReadsStatement.simple {semicolon : Span} (h : Simple semicolon ts s) :
    ReadsStatement (ts ++ [⟨semicolon, .symbol .semicolon⟩]) s := by
  intro c c' hc hpass _
  have hreads : Reads 1 statement c s c' := .of_succ fun _ _ => reads_simple hc hpass h
  refine hreads.mono ?_
  rw [List.length_append, List.length_singleton]
  omega

/-- A first token pays for two calls. -/
theorem ReadsStatement.of_cons {t : Located Token}
    (h : ∀ ⦃c c'⦄, c.Ended → c.current = t → c.advance.Passes ts c' →
      (s.dangles = true → c'.current.val ≠ .keyword .else) → ∀ fuel, 2 * ts.length + 1 ≤ fuel →
        statement (fuel + 1) c = .ok s c') : ReadsStatement (t :: ts) s := by
  intro c c' hc hpass hdangles
  obtain ⟨hcur, hpass⟩ := hpass.uncons
  exact .of_succ fun fuel hfuel => h hc hcur hpass hdangles fuel hfuel

theorem ReadsStatement.block {opening closing : Span} (h : ReadsBody bs ss) :
    ReadsStatement (⟨opening, .symbol .leftBrace⟩ :: (bs ++ [⟨closing, .symbol .rightBrace⟩]))
      (.block ss) := by
  refine .of_cons fun c c' hc hopen hpass _ fuel hfuel => ?_
  rw [List.length_append, List.length_singleton] at hfuel
  exact (statement_block_eq_ok (congrArg Located.val hopen)).2 ⟨ss,
    h hc.advance hpass fuel (by omega), rfl⟩

theorem ReadsStatement.function {word opening closing : Span} {name : Located String}
    {params : List (Located String)} (hparams : Parameters ps params) (h : ReadsBody bs ss) :
    ReadsStatement
      (⟨word, .keyword .function⟩ :: ⟨name.span, .identifier name.val⟩ ::
        (ps ++ ⟨opening, .symbol .leftBrace⟩ :: (bs ++ [⟨closing, .symbol .rightBrace⟩])))
      (.function name params ss) := by
  refine .of_cons fun c c' hc hword hpass _ fuel hfuel => ?_
  obtain ⟨hname, hpass⟩ := hpass.uncons
  obtain ⟨c₁, hps, hpass⟩ := hpass.of_append
  obtain ⟨hopen, hbs⟩ := hpass.uncons
  have hc₁ := hps.ended hc.advance.advance
  simp only [List.length_append, List.length_cons, List.length_nil] at hfuel
  refine (statement_function_eq_ok (congrArg Located.val hword)).2
    ⟨name, _, params, _, ss, expectIdentifier_eq_ok.2 ⟨hname, rfl⟩,
    ⟨c₁, ?_, congrArg Located.val hopen, rfl⟩, ?_, rfl⟩
  · exact (parameters_eq_ok hc.advance.advance).2 ⟨ps, hps, hparams⟩
  · exact h hc₁.advance hbs fuel (by omega)

theorem ReadsStatement.while {word : Span} (htest : Condition ts test) (h : ReadsStatement bs s) :
    ReadsStatement (⟨word, .keyword .while⟩ :: (ts ++ bs)) (.while test s) := by
  refine .of_cons fun c c' hc hword hpass hdangles fuel hfuel => ?_
  obtain ⟨c₁, hts, hbs⟩ := hpass.of_append
  rw [List.length_append] at hfuel
  refine (statement_while_eq_ok (congrArg Located.val hword)).2 ⟨test, c₁, s, ?_, ?_, rfl⟩
  · exact (condition_eq_ok hc.advance).2 ⟨ts, hts, htest⟩
  · exact h (hts.ended hc.advance) hbs hdangles fuel (by omega)

theorem ReadsStatement.ifThen {word : Span} (htest : Condition ts test)
    (h : ReadsStatement ys yes) :
    ReadsStatement (⟨word, .keyword .if⟩ :: (ts ++ ys)) (.ifThen test yes) := by
  refine .of_cons fun c c' hc hword hpass hdangles fuel hfuel => ?_
  obtain ⟨c₁, hts, hys⟩ := hpass.of_append
  rw [List.length_append] at hfuel
  have helse := hdangles rfl
  refine (statement_if_eq_ok (congrArg Located.val hword)).2
    ⟨test, c₁, yes, c', ?_, ?_, .inr ⟨helse, rfl, rfl⟩⟩
  · exact (condition_eq_ok hc.advance).2 ⟨ts, hts, htest⟩
  · exact h (hts.ended hc.advance) hys (fun _ => helse) fuel (by omega)

theorem ReadsStatement.ifElse {word otherwise : Span} (htest : Condition ts test)
    (hyes : ReadsStatement ys yes) (hclosed : yes.dangles = false) (hno : ReadsStatement ns no) :
    ReadsStatement (⟨word, .keyword .if⟩ :: (ts ++ (ys ++ ⟨otherwise, .keyword .else⟩ :: ns)))
      (.ifElse test yes no) := by
  refine .of_cons fun c c' hc hword hpass hdangles fuel hfuel => ?_
  obtain ⟨c₁, hts, hpass⟩ := hpass.of_append
  obtain ⟨c₂, hys, hpass⟩ := hpass.of_append
  obtain ⟨helse, hns⟩ := hpass.uncons
  have hc₁ := hts.ended hc.advance
  simp only [List.length_append, List.length_cons] at hfuel
  refine (statement_if_eq_ok (congrArg Located.val hword)).2
    ⟨test, c₁, yes, c₂, ?_, ?_, .inl ⟨congrArg Located.val helse, no, ?_, rfl⟩⟩
  · exact (condition_eq_ok hc.advance).2 ⟨ts, hts, htest⟩
  · exact hyes hc₁ hys (fun hdangles => nomatch hclosed.symm.trans hdangles) fuel (by omega)
  · exact hno (hys.ended hc₁).advance hns hdangles fuel (by omega)

/-! ## Lists of statements -/

/-- No statement begins with `else`. -/
theorem current_ne_else (h : Statements ts ss) (hpass : c.Passes ts c')
    (hend : c'.current.val ≠ .keyword .else) : c.current.val ≠ .keyword .else := by
  cases h with
  | nil => rwa [← hpass.eq_of_nil]
  | cons hs _ => exact Token.ne_else_of_opensStatement (current_of_begins hs.begins hpass)

/-- A statement before which there is no error, and behind which there is no `else`. -/
theorem reads_declaration (hs : Statement ts s) (h : ReadsStatement ts s) (hc : c.Ended)
    (hpass : c.Passes (ts ++ us) c') (hnext : ∀ ⦃c₁ : Cursor⦄, c₁.Passes us c' →
    c₁.current.val ≠ .keyword .else) :
    c.current.val.endsStatements = false ∧
      ∃ c₁, c₁.Ended ∧ c₁.Passes us c' ∧ Reads (2 * ts.length + 1) declaration c (some s) c₁ := by
  obtain ⟨c₁, hts, hus⟩ := hpass.of_append
  have helse := hnext hus
  refine ⟨Token.endsStatements_of_opensStatement (current_of_begins hs.begins hpass),
    c₁, hts.ended hc, hus, ?_⟩
  exact .of_succ fun fuel hfuel =>
    declaration_eq_ok.2 (.inl ⟨s, h hc hts (fun _ => helse) fuel hfuel, rfl⟩)

theorem ReadsBody.nil : ReadsBody [] [] := by
  intro closing c c' _ hpass
  obtain ⟨hclose, hend⟩ := hpass.uncons
  exact .of_succ fun _ _ => body_eq_ok.2 (.inl ⟨congrArg Located.val hclose, rfl, hend.eq_of_nil⟩)

theorem ReadsBody.cons (hs : Statement ts s) (h : ReadsStatement ts s)
    (hstatements : Statements us ss)
    (hrest : ReadsBody us ss) : ReadsBody (ts ++ us) (s :: ss) := by
  intro closing c c' hc hpass
  rw [List.append_assoc] at hpass
  obtain ⟨hends, c₁, hc₁, hus, hdeclaration⟩ := reads_declaration hs h hc hpass fun c₁ hus => by
    obtain ⟨c₂, hus, hclosing⟩ := hus.of_append
    refine current_ne_else hstatements hus ?_
    rw [hclosing.uncons.1]
    exact nofun
  have hpos := hs.begins.length_pos
  refine .of_succ fun fuel hfuel => body_eq_ok.2 (.inr ⟨hends, some s, c₁, ss, ?_, ?_, rfl⟩)
  · rw [List.length_append] at hfuel
    exact hdeclaration fuel (by omega)
  · rw [List.length_append] at hfuel
    exact hrest hc₁ hus fuel (by omega)

theorem ReadsProgram.nil : ReadsProgram [] [] := by
  intro c c' _ hpass hend
  have hnil := hpass.eq_of_nil
  rw [hnil] at hend
  exact .of_succ fun _ _ => statements_eq_ok.2 (.inl ⟨hend, rfl, hnil⟩)

theorem ReadsProgram.cons (hs : Statement ts s) (h : ReadsStatement ts s)
    (hstatements : Statements us ss)
    (hrest : ReadsProgram us ss) : ReadsProgram (ts ++ us) (s :: ss) := by
  intro c c' hc hpass hend
  obtain ⟨hends, c₁, hc₁, hus, hdeclaration⟩ := reads_declaration hs h hc hpass fun c₁ hus =>
    current_ne_else hstatements hus (by rw [hend]; exact nofun)
  have hpos := hs.begins.length_pos
  have hne : c.current.val ≠ .endOfInput := by
    intro hend
    rw [hend] at hends
    cases hends
  refine .of_succ fun fuel hfuel => statements_eq_ok.2 (.inr ⟨hne, some s, c₁, ss, ?_, ?_, rfl⟩)
  · rw [List.length_append] at hfuel
    exact hdeclaration fuel (by omega)
  · rw [List.length_append] at hfuel
    exact hrest hc₁ hus hend fuel (by omega)

end Parser

namespace Grammar

open Stackscript.Parser

mutual

/-- **Every statement of the grammar is read**, one case for each rule. -/
theorem Statement.reads :
    ∀ {ts : List (Located Token)} {s : Stmt}, Statement ts s → ReadsStatement ts s
  | _, _, .simple h => .simple h
  | _, _, .function hparams h => .function hparams h.reads
  | _, _, .ifThen htest h => .ifThen htest h.reads
  | _, _, .ifElse htest hyes hclosed hno => .ifElse htest hyes.reads hclosed hno.reads
  | _, _, .while htest h => .while htest h.reads
  | _, _, .block h => .block h.reads

theorem Statements.reads :
    ∀ {ts : List (Located Token)} {ss : List Stmt}, Statements ts ss → ReadsBody ts ss
  | _, _, .nil => .nil
  | _, _, .cons h hrest => .cons h h.reads hrest hrest.reads

end

/-- **Every program of the grammar is read.** -/
theorem Statements.readsProgram :
    ∀ {ts : List (Located Token)} {ss : List Stmt}, Statements ts ss → ReadsProgram ts ss
  | _, _, .nil => .nil
  | _, _, .cons h hrest => .cons h h.reads hrest hrest.readsProgram

end Grammar

/-! ## Texts -/

namespace Cursor

theorem errors_ofTokens (tokens : List (Located Token)) : (ofTokens tokens).errors = [] := by
  rw [ofTokens]
  split <;> rfl

/-- If there is no lexical error, then no token is invalid, and none is left out. -/
theorem tokens_ofTokens_scan {source : String} (h : (Token.scan source).errors = []) :
    (ofTokens (Token.scan source).tokens).tokens = (Token.scan source).tokens := by
  have hlaid := Token.laid_scan source
  rw [h] at hlaid
  have hfilter : (Token.scan source).tokens.filter (·.val != .invalid) =
      (Token.scan source).tokens := by
    rw [List.filter_eq_self]
    intro t ht
    rw [bne_iff_ne]
    intro hinvalid
    obtain ⟨e, he, -⟩ := hlaid.reported t ht hinvalid
    cases he
  obtain ⟨init, hinit, -⟩ := hlaid.ends
  rw [ofTokens, hfilter]
  split
  · next hnil => rw [hinit] at hnil; exact absurd hnil (by simp)
  · next hcons => exact hcons.symm

/-- Only the last token of a text is the end of input. -/
theorem upcoming_eq_nil {source : String} {ts : List (Located Token)} {c : Cursor}
    (h : (Token.scan source).tokens = ts ++ c.tokens) (hend : c.current.val = .endOfInput) :
    c.upcoming = [] := by
  obtain ⟨init, hinit, hval⟩ := (Token.laid_scan source).ends
  rw [h, tokens] at hinit
  obtain hnil | ⟨us, t, hus⟩ := List.eq_nil_or_concat' c.upcoming
  · exact hnil
  · rw [hus, ← List.cons_append, ← List.append_assoc] at hinit
    have hbefore := (List.append_inj' hinit rfl).1
    exact absurd hend (hval c.current (by rw [← hbefore]; simp))

end Cursor

theorem Program.parse_eq_ok {source : String} {program : Program} :
    Program.parse source = .ok program ↔ (Token.scan source).errors = [] ∧
      ∃ c, Parser.statements (Parser.statementFuel (.ofTokens (Token.scan source).tokens))
        (.ofTokens (Token.scan source).tokens) = .ok program c ∧ c.errors = [] := by
  simp only [Program.parse]
  split
  · next p c hp =>
    rw [hp]
    simp only [Bool.and_eq_true, List.isEmpty_iff]
    split
    · next hnone =>
      constructor
      · rintro ⟨⟩
        exact ⟨hnone.1, c, rfl, hnone.2⟩
      · rintro ⟨_, _, ⟨⟩, _⟩
        rfl
    · next hsome =>
      refine ⟨nofun, ?_⟩
      rintro ⟨hscan, _, ⟨⟩, herrors⟩
      exact absurd ⟨hscan, herrors⟩ hsome
  · next stop c hp =>
    rw [hp]
    exact ⟨nofun, fun ⟨_, _, h, _⟩ => nomatch h⟩

/-- **The programs that are accepted are those of the grammar.** A text is read as a program with
some tree if and only if scanning it finds no error and its tokens, all but the end of input, are
statements with this tree. So a text from whose errors reading recovers is not accepted, and reading
a program recovers from nothing. -/
theorem Program.parse_iff_derives (source : String) (program : Program) :
    Program.parse source = .ok program ↔ (Token.scan source).errors = [] ∧
      ∃ ts stop, (Token.scan source).tokens = ts ++ [⟨stop, .endOfInput⟩] ∧
        Grammar.Statements ts program := by
  have hc := Cursor.ended_ofTokens_scan source
  rw [Program.parse_eq_ok]
  refine and_congr_right fun hscan => ?_
  have htokens := Cursor.tokens_ofTokens_scan hscan
  constructor
  · rintro ⟨c, hread, herrors⟩
    obtain ⟨ts, hpass, hstatements, hend⟩ := Parser.statements_sound hc herrors hread
    have hwhole := htokens.symm.trans hpass.whole
    refine ⟨ts, c.current.span, ?_, hstatements⟩
    rw [hwhole, Cursor.tokens, Cursor.upcoming_eq_nil hwhole hend, ← hend]
  · rintro ⟨ts, stop, hts, hstatements⟩
    have hpass : (Cursor.ofTokens (Token.scan source).tokens).Passes ts
        ⟨ts.getLast?.getD (Cursor.ofTokens (Token.scan source).tokens).previous,
          ⟨stop, .endOfInput⟩, [], (Cursor.ofTokens (Token.scan source).tokens).errors⟩ :=
          ⟨htokens.trans hts, rfl, rfl⟩
    refine ⟨_, hstatements.readsProgram hc hpass rfl _ ?_, Cursor.errors_ofTokens _⟩
    rw [Parser.statementFuel, hpass.remaining]
    omega

end Stackscript
