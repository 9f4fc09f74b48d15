import Stackscript.Proofs.ErrorRecovery
import Stackscript.Proofs.ExpressionComplete
import Stackscript.Proofs.StatementGrammar

/-!
# What the readers of statements do

For each form of a statement it is said when reading it succeeds. The parts without statements in
them need no bound on the nesting of calls, so that for these it is said at once in terms of the
grammar.

* `Parser.Closes`: a reader gets to just behind a symbol; `expression_closes`,
  `initialValue_closes`;
* `Parser.condition_eq_ok`, `parameters_eq_ok`;
* `Parser.statement_var_eq_ok` and so on, one for each form; `declaration_eq_ok`, `body_eq_ok`,
  `statements_eq_ok`.
-/

namespace Stackscript

theorem Cursor.Ended.advance {c : Cursor} (hc : c.Ended) : c.advance.Ended := by
  cases hup : c.upcoming with
  | nil =>
    have htokens : c.advance.tokens = c.tokens := by
      unfold Cursor.advance tokens
      rw [hup]
    rwa [Ended, htokens]
  | cons t ts => exact (Cursor.passes_advance (by rw [hup]; exact List.cons_ne_nil t ts)).ended hc

theorem Cursor.Passes.remaining {c c' : Cursor} {ts : List (Located Token)} (h : c.Passes ts c') :
    c.remaining = ts.length + c'.remaining := by
  have hlength := congrArg List.length h.whole
  rw [List.length_append, Cursor.tokens, Cursor.tokens, List.length_cons,
    List.length_cons] at hlength
  exact Nat.succ.inj hlength

namespace Parser

open Grammar

variable {α β : Type} {fuel : Nat} {c c' : Cursor} {e : Expr} {s : Stmt}

/-! ## Single tokens -/

theorem pure_eq_ok {a b : α} : (pure a : Parser α) c = .ok b c' ↔ b = a ∧ c' = c :=
  ⟨fun h => by cases h; exact ⟨rfl, rfl⟩, fun ⟨h, h'⟩ => by rw [h, h']; rfl⟩

theorem lastSpan_bind_eq_ok {f : Span → Parser β} {b : β} :
    (lastSpan >>= f) c = .ok b c' ↔ f c.previous.span c = .ok b c' := Iff.rfl

theorem next_bind_eq_ok {f : Located Token → Parser β} {b : β} :
    (next >>= f) c = .ok b c' ↔ f c.current c.advance = .ok b c' := Iff.rfl

theorem expect_bind_eq_ok {symbol : Symbol} {f : Unit → Parser β} {b : β} :
    (expect symbol >>= f) c = .ok b c' ↔ c.current.val = .symbol symbol ∧
      f () c.advance = .ok b c' := by
  simp only [bind_eq_ok, expect_eq_ok]
  exact ⟨fun ⟨_, _, ⟨hc, hadvance⟩, h⟩ => ⟨hc, hadvance ▸ h⟩, fun ⟨hc, h⟩ => ⟨(), _, ⟨hc, rfl⟩, h⟩⟩

theorem expectIdentifier_eq_ok {name : Located String} :
    expectIdentifier c = .ok name c' ↔
      c.current = ⟨name.span, .identifier name.val⟩ ∧ c' = c.advance := by
  rw [expectIdentifier, Reading.expectIdentifier, current_bind_eq_ok]
  cases ht : c.current with
  | mk span token =>
    cases token with
    | identifier n =>
      rw [next_bind_eq_ok, pure_eq_ok]
      constructor
      · rintro ⟨rfl, rfl⟩
        exact ⟨rfl, rfl⟩
      · rintro ⟨h, rfl⟩
        cases h
        exact ⟨rfl, rfl⟩
    | _ => exact ⟨nofun, fun h => nomatch h.1⟩

theorem passes_current {t : Token} (hc : c.Ended) (ht : c.current.val = t) (hne : t ≠ .endOfInput) :
    c.Passes [⟨c.current.span, t⟩] c.advance := by
  subst ht
  exact hc.passes_advance hne

/-! ## Readers before a symbol -/

/-- **The reader gets to just behind a symbol.** -/
def Closes (x : Parser α) (symbol : Symbol) (c : Cursor) (a : α) (c' : Cursor) : Prop :=
  ∃ c₁, x c = .ok a c₁ ∧ c₁.current.val = .symbol symbol ∧ c' = c₁.advance

theorem closed_eq_ok {x : Parser α} {symbol : Symbol} {f : α → Parser β} {b : β} :
    (do let a ← x; expect symbol; f a : Parser β) c = .ok b c' ↔
      ∃ a c₁, Closes x symbol c a c₁ ∧ f a c₁ = .ok b c' := by
  simp only [bind_eq_ok (x := x), expect_bind_eq_ok, Closes]
  constructor
  · rintro ⟨a, c₁, hx, hc, h⟩
    exact ⟨a, _, ⟨c₁, hx, hc, rfl⟩, h⟩
  · rintro ⟨a, _, ⟨c₁, hx, hc, rfl⟩, h⟩
    exact ⟨a, c₁, hx, hc, h⟩

/-- An expression ends before a symbol that does not continue it. -/
theorem expression_closes {symbol : Symbol} (hc : c.Ended)
    (hs : (Token.symbol symbol).isInfix = false) :
    Closes expression symbol c e c' ↔
      ∃ ts span, c.Passes (ts ++ [⟨span, .symbol symbol⟩]) c' ∧ Derives .assignment ts e := by
  constructor
  · rintro ⟨c₁, he, hclose, rfl⟩
    obtain ⟨ts, hts, hderives, -⟩ := (sound _).climb (by decide) hc he
    exact ⟨ts, _, hts.trans (passes_symbol (hts.ended hc) hclose), hderives⟩
  · rintro ⟨ts, span, hpass, hderives⟩
    obtain ⟨c₁, hts, hclosing⟩ := hpass.of_append
    obtain ⟨hclose, hend⟩ := hclosing.uncons
    have hclose : c₁.current.val = .symbol symbol := congrArg Located.val hclose
    refine ⟨c₁, ?_, hclose, hend.eq_of_nil⟩
    refine hderives.reads.enclosed hts hclose hs _ ?_
    show 5 * ts.length + 1 ≤ 5 * c.remaining + 5
    rw [hts.remaining]
    omega

theorem initialValue_closes {init : Option Expr} (hc : c.Ended) :
    Closes initialValue .semicolon c init c' ↔
      ∃ ts span, c.Passes (ts ++ [⟨span, .symbol .semicolon⟩]) c' ∧ Initial ts init := by
  constructor
  · rintro ⟨c₁, h, hclose, rfl⟩
    rw [initialValue, Reading.initialValue, checked_eq_ok] at h
    obtain ⟨hequal, h⟩ | ⟨-, h⟩ := h
    · have hsign := passes_symbol hc hequal
      obtain ⟨e, _, he, h⟩ := bind_eq_ok.1 (next_bind_eq_ok.1 h)
      cases h
      obtain ⟨ts, span, hpass, hderives⟩ :=
        (expression_closes (hsign.ended hc) rfl).1 ⟨c₁, he, hclose, rfl⟩
      exact ⟨⟨_, .symbol .equal⟩ :: ts, span, hsign.trans hpass, .value hderives⟩
    · cases h
      exact ⟨[], _, passes_symbol hc hclose, .none⟩
  · rintro ⟨ts, span, hpass, hinit⟩
    cases hinit with
    | none =>
      obtain ⟨hclose, hend⟩ := hpass.uncons
      have hclose : c.current.val = .symbol .semicolon := congrArg Located.val hclose
      refine ⟨c, ?_, hclose, hend.eq_of_nil⟩
      rw [initialValue, Reading.initialValue, checked_eq_ok]
      exact .inr ⟨by rw [hclose]; exact nofun, rfl⟩
    | value hderives =>
      obtain ⟨hequal, hpass⟩ := hpass.uncons
      have hequal : c.current.val = .symbol .equal := congrArg Located.val hequal
      have hsign := passes_symbol hc hequal
      obtain ⟨c₁, he, hclose, rfl⟩ :=
        (expression_closes (hsign.ended hc) rfl).2 ⟨_, span, hpass, hderives⟩
      refine ⟨c₁, ?_, hclose, rfl⟩
      rw [initialValue, Reading.initialValue, checked_eq_ok]
      exact .inl ⟨hequal, bind_eq_ok.2 ⟨_, _, rfl, bind_eq_ok.2 ⟨_, c₁, he, rfl⟩⟩⟩

theorem condition_eq_ok {test : Expr} (hc : c.Ended) :
    condition c = .ok test c' ↔ ∃ ts, c.Passes ts c' ∧ Condition ts test := by
  rw [condition, Reading.condition, expect_bind_eq_ok, closed_eq_ok]
  constructor
  · rintro ⟨hopen, e, c₁, he, h⟩
    cases h
    have hopening := passes_symbol hc hopen
    obtain ⟨ts, closing, hpass, hderives⟩ := (expression_closes (hopening.ended hc) rfl).1 he
    exact ⟨_, hopening.trans hpass, .parens hderives⟩
  · rintro ⟨_, hpass, ⟨hderives⟩⟩
    obtain ⟨hopen, hpass⟩ := hpass.uncons
    have hopen : c.current.val = .symbol .leftParen := congrArg Located.val hopen
    have hopening := passes_symbol hc hopen
    exact ⟨hopen, test, c', (expression_closes (hopening.ended hc) rfl).2 ⟨_, _, hpass, hderives⟩,
      rfl⟩

/-! ## Parameters -/

theorem names_eq_ok {names' : List (Located String)} : names (fuel + 1) c = .ok names' c' ↔
    ∃ name, c.current = ⟨name.span, .identifier name.val⟩ ∧
      ((c.advance.current.val = .symbol .comma ∧
          ∃ rest, names fuel c.advance.advance = .ok rest c' ∧ names' = name :: rest) ∨
        (c.advance.current.val ≠ .symbol .comma ∧ names' = [name] ∧ c' = c.advance)) := by
  simp only [names, Reading.names, bind_eq_ok (x := expectIdentifier), expectIdentifier_eq_ok,
    checked_eq_ok, next_bind_eq_ok, bind_eq_ok (x := names fuel), pure_eq_ok]
  constructor
  · rintro ⟨name, _, ⟨hname, rfl⟩, ⟨hcomma, rest, _, hrest, rfl, rfl⟩ | ⟨hcomma, rfl, rfl⟩⟩
    · exact ⟨name, hname, .inl ⟨hcomma, rest, hrest, rfl⟩⟩
    · exact ⟨name, hname, .inr ⟨hcomma, rfl, rfl⟩⟩
  · rintro ⟨name, hname, ⟨hcomma, rest, hrest, rfl⟩ | ⟨hcomma, rfl, rfl⟩⟩
    · exact ⟨name, _, ⟨hname, rfl⟩, .inl ⟨hcomma, rest, c', hrest, rfl, rfl⟩⟩
    · exact ⟨name, _, ⟨hname, rfl⟩, .inr ⟨hcomma, rfl, rfl⟩⟩

theorem names_sound {names' : List (Located String)} (hc : c.Ended)
    (h : names fuel c = .ok names' c') : ∃ ts, c.Passes ts c' ∧ Names ts names' := by
  induction fuel generalizing c names' with
  | zero => cases h
  | succ fuel ih =>
    obtain ⟨name, hname, ⟨hcomma, rest, hrest, rfl⟩ | ⟨-, rfl, rfl⟩⟩ := names_eq_ok.1 h
    all_goals
      have hpass := hc.passes_advance (by rw [hname]; exact nofun)
      rw [hname] at hpass
    · have hsep := passes_symbol (hpass.ended hc) hcomma
      obtain ⟨ts, hts, hnames⟩ := ih (hsep.ended (hpass.ended hc)) hrest
      exact ⟨_, hpass.trans (hsep.trans hts), .cons name hnames⟩
    · exact ⟨_, hpass, .one name⟩

theorem reads_names {ts : List (Located Token)} {names' : List (Located String)}
    (h : Names ts names')
    (hpass : c.Passes ts c') (hnext : c'.current.val ≠ .symbol .comma) (hfuel : ts.length ≤ fuel) :
    names fuel c = .ok names' c' := by
  induction h generalizing c fuel with
  | one name =>
    obtain ⟨fuel, rfl⟩ := Nat.exists_eq_add_of_lt hfuel
    obtain ⟨hname, hend⟩ := hpass.uncons
    have hend := hend.eq_of_nil
    exact names_eq_ok.2 ⟨name, hname, .inr ⟨hend ▸ hnext, rfl, hend⟩⟩
  | cons name _ ih =>
    obtain ⟨fuel, rfl⟩ := Nat.exists_eq_add_of_lt (Nat.lt_of_lt_of_le (Nat.zero_lt_succ _) hfuel)
    rw [List.length_cons, List.length_cons] at hfuel
    obtain ⟨hname, hpass⟩ := hpass.uncons
    obtain ⟨hcomma, hpass⟩ := hpass.uncons
    exact names_eq_ok.2 ⟨name, hname,
      .inl ⟨congrArg Located.val hcomma, _, ih hpass (by omega), rfl⟩⟩

theorem parameters_eq_ok_or {params : List (Located String)} : parameters c = .ok params c' ↔
    c.current.val = .symbol .leftParen ∧
      ((c.advance.current.val = .symbol .rightParen ∧ params = [] ∧ c' = c.advance.advance) ∨
        (c.advance.current.val ≠ .symbol .rightParen ∧
          Closes (names (c.advance.remaining + 1)) .rightParen c.advance params c')) := by
  rw [parameters, Reading.parameters, expect_bind_eq_ok, checked_eq_ok]
  refine and_congr_right fun _ => or_congr (and_congr_right fun hclose => ?_)
    (and_congr_right fun _ => ?_)
  · show (expect .rightParen >>= fun _ => pure []) c.advance = .ok params c' ↔ _
    rw [expect_bind_eq_ok, pure_eq_ok]
    exact and_iff_right hclose
  · show (do let params ← names (c.advance.remaining + 1); expect .rightParen; pure params)
      c.advance = _ ↔ _
    rw [closed_eq_ok]
    constructor
    · rintro ⟨_, _, h, hpure⟩
      cases hpure
      exact h
    · intro h
      exact ⟨params, c', h, rfl⟩

theorem parameters_eq_ok {params : List (Located String)} (hc : c.Ended) :
    parameters c = .ok params c' ↔ ∃ ts, c.Passes ts c' ∧ Parameters ts params := by
  rw [parameters_eq_ok_or]
  constructor
  · rintro ⟨hopen, ⟨hclose, rfl, rfl⟩ | ⟨-, c₁, hnames, hclose, rfl⟩⟩
    · have hopening := passes_symbol hc hopen
      exact ⟨_, hopening.trans (passes_symbol (hopening.ended hc) hclose), .none _ _⟩
    · have hopening := passes_symbol hc hopen
      obtain ⟨ts, hts, hnames⟩ := names_sound (hopening.ended hc) hnames
      have hclosing := passes_symbol (hts.ended (hopening.ended hc)) hclose
      exact ⟨_, hopening.trans (hts.trans hclosing), .names hnames⟩
  · rintro ⟨ts, hpass, hparams⟩
    cases hparams with
    | none =>
      obtain ⟨hopen, hpass⟩ := hpass.uncons
      obtain ⟨hclose, hend⟩ := hpass.uncons
      exact ⟨congrArg Located.val hopen, .inl ⟨congrArg Located.val hclose, rfl, hend.eq_of_nil⟩⟩
    | names hnames =>
      obtain ⟨hopen, hpass⟩ := hpass.uncons
      obtain ⟨c₁, hts, hclosing⟩ := hpass.of_append
      obtain ⟨hclose, hend⟩ := hclosing.uncons
      have hclose : c₁.current.val = .symbol .rightParen := congrArg Located.val hclose
      refine ⟨congrArg Located.val hopen, .inr ⟨?_, c₁, ?_, hclose, hend.eq_of_nil⟩⟩
      · cases hnames <;> (rw [hts.uncons.1]; exact nofun)
      · refine reads_names hnames hts (by rw [hclose]; exact nofun) ?_
        rw [hts.remaining]
        omega

/-! ## Statements -/

theorem statement_var_eq_ok (h : c.current.val = .keyword .var) :
    statement (fuel + 1) c = .ok s c' ↔
    ∃ name c₁ init, expectIdentifier c.advance = .ok name c₁ ∧
      Closes initialValue .semicolon c₁ init c' ∧ s = .var name init := by
  simp only [statement, Reading.statement, current_bind_eq_ok, h, next_bind_eq_ok,
    bind_eq_ok (x := expectIdentifier), closed_eq_ok, pure_eq_ok]
  constructor
  · rintro ⟨name, c₁, hname, init, _, hinit, rfl, rfl⟩
    exact ⟨name, c₁, init, hname, hinit, rfl⟩
  · rintro ⟨name, c₁, init, hname, hinit, rfl⟩
    exact ⟨name, c₁, hname, init, c', hinit, rfl, rfl⟩

/-- A constant has a value. -/
theorem statement_const_eq_ok (h : c.current.val = .keyword .const) :
    statement (fuel + 1) c = .ok s c' ↔
    ∃ name c₁ init, expectIdentifier c.advance = .ok name c₁ ∧
      Closes initialValue .semicolon c₁ (some init) c' ∧ s = .const name init := by
  simp only [statement, Reading.statement, current_bind_eq_ok, h, next_bind_eq_ok,
    bind_eq_ok (x := expectIdentifier), bind_eq_ok (x := initialValue)]
  constructor
  · rintro ⟨name, c₁, hname, init, c₂, hinit, hrest⟩
    cases init with
    | none => cases hrest
    | some init =>
      obtain ⟨hclose, hrest⟩ := expect_bind_eq_ok.1 hrest
      cases hrest
      exact ⟨name, c₁, init, hname, ⟨c₂, hinit, hclose, rfl⟩, rfl⟩
  · rintro ⟨name, c₁, init, hname, ⟨c₂, hinit, hclose, rfl⟩, rfl⟩
    exact ⟨name, c₁, hname, some init, c₂, hinit, expect_bind_eq_ok.2 ⟨hclose, rfl⟩⟩

theorem statement_function_eq_ok (h : c.current.val = .keyword .function) :
    statement (fuel + 1) c = .ok s c' ↔
    ∃ name c₁ params c₂ ss, expectIdentifier c.advance = .ok name c₁ ∧
      Closes parameters .leftBrace c₁ params c₂ ∧
      body fuel c₂ = .ok ss c' ∧ s = .function name params ss := by
  simp only [statement, Reading.statement, current_bind_eq_ok, h, next_bind_eq_ok,
    bind_eq_ok (x := expectIdentifier), closed_eq_ok, bind_eq_ok (x := body fuel), pure_eq_ok]
  constructor
  · rintro ⟨name, c₁, hname, params, c₂, hparams, ss, _, hbody, rfl, rfl⟩
    exact ⟨name, c₁, params, c₂, ss, hname, hparams, hbody, rfl⟩
  · rintro ⟨name, c₁, params, c₂, ss, hname, hparams, hbody, rfl⟩
    exact ⟨name, c₁, hname, params, c₂, hparams, ss, c', hbody, rfl, rfl⟩

theorem statement_if_eq_ok (h : c.current.val = .keyword .if) : statement (fuel + 1) c = .ok s c' ↔
    ∃ test c₁ yes c₂, condition c.advance = .ok test c₁ ∧ statement fuel c₁ = .ok yes c₂ ∧
      ((c₂.current.val = .keyword .else ∧ ∃ no, statement fuel c₂.advance = .ok no c' ∧
        s = .ifElse test yes no) ∨
        (c₂.current.val ≠ .keyword .else ∧ s = .ifThen test yes ∧ c' = c₂)) := by
  rw [statement, Reading.statement, current_bind_eq_ok]
  simp only [h, next_bind_eq_ok, bind_eq_ok (x := condition),
    bind_eq_ok (x := statement fuel), current_bind_eq_ok]
  constructor
  · rintro ⟨test, c₁, htest, yes, c₂, hyes, hrest⟩
    refine ⟨test, c₁, yes, c₂, htest, hyes, ?_⟩
    split at hrest
    · next helse =>
      obtain ⟨no, _, hno, hrest⟩ := bind_eq_ok.1 (next_bind_eq_ok.1 hrest)
      cases hrest
      exact .inl ⟨helse, no, hno, rfl⟩
    · next helse =>
      cases hrest
      exact .inr ⟨helse, rfl, rfl⟩
  · rintro ⟨test, c₁, yes, c₂, htest, hyes, hrest⟩
    refine ⟨test, c₁, htest, yes, c₂, hyes, ?_⟩
    obtain ⟨helse, no, hno, rfl⟩ | ⟨helse, rfl, rfl⟩ := hrest
    · rw [if_pos helse]
      exact next_bind_eq_ok.2 (bind_eq_ok.2 ⟨no, c', hno, rfl⟩)
    · rw [if_neg helse]
      rfl

theorem statement_while_eq_ok (h : c.current.val = .keyword .while) :
    statement (fuel + 1) c = .ok s c' ↔
    ∃ test c₁ s', condition c.advance = .ok test c₁ ∧ statement fuel c₁ = .ok s' c' ∧
      s = .while test s' := by
  rw [statement, Reading.statement, current_bind_eq_ok]
  simp only [h, next_bind_eq_ok, bind_eq_ok (x := condition),
    bind_eq_ok (x := statement fuel), pure_eq_ok]
  constructor
  · rintro ⟨test, c₁, htest, s', _, hbody, rfl, rfl⟩
    exact ⟨test, c₁, s', htest, hbody, rfl⟩
  · rintro ⟨test, c₁, s', htest, hbody, rfl⟩
    exact ⟨test, c₁, htest, s', c', hbody, rfl, rfl⟩

theorem statement_return_eq_ok (h : c.current.val = .keyword .return) :
    statement (fuel + 1) c = .ok s c' ↔ (c.advance.current.val = .symbol .semicolon ∧
        s = .return none (c.current.span.join c.advance.current.span) ∧ c' = c.advance.advance) ∨
      (c.advance.current.val ≠ .symbol .semicolon ∧
        ∃ e, Closes expression .semicolon c.advance e c' ∧
        s = .return (some e) (c.current.span.join c'.previous.span)) := by
  rw [statement, Reading.statement, current_bind_eq_ok]
  simp only [h, next_bind_eq_ok, checked_eq_ok]
  refine or_congr (and_congr_right fun hclose => ?_) (and_congr_right fun _ => ?_)
  · show (do expect .semicolon; return Stmt.return none (c.current.span.join (← lastSpan)))
      c.advance = .ok s c' ↔ _
    rw [expect_bind_eq_ok, lastSpan_bind_eq_ok, pure_eq_ok, Cursor.previous_advance]
    exact and_iff_right hclose
  · rw [bind_assoc]
    simp only [pure_bind]
    rw [closed_eq_ok]
    simp only [lastSpan_bind_eq_ok, pure_eq_ok]
    constructor
    · rintro ⟨e, _, he, rfl, rfl⟩
      exact ⟨e, he, rfl⟩
    · rintro ⟨e, he, rfl⟩
      exact ⟨e, c', he, rfl, rfl⟩

/-- A statement that is one word. -/
theorem statement_word_eq_ok {word : Keyword} {f : Span → Stmt}
    (hword : (word = .break ∧ f = .break) ∨ (word = .continue ∧ f = .continue))
    (h : c.current.val = .keyword word) :
    statement (fuel + 1) c = .ok s c' ↔
      c.advance.current.val = .symbol .semicolon ∧ s = f c.current.span ∧
        c' = c.advance.advance := by
  obtain ⟨rfl, rfl⟩ | ⟨rfl, rfl⟩ := hword
  all_goals simp only [statement, Reading.statement, current_bind_eq_ok, h, next_bind_eq_ok,
    expect_bind_eq_ok, pure_eq_ok]

theorem statement_block_eq_ok (h : c.current.val = .symbol .leftBrace) :
    statement (fuel + 1) c = .ok s c' ↔ ∃ ss, body fuel c.advance = .ok ss c' ∧ s = .block ss := by
  simp only [statement, Reading.statement, current_bind_eq_ok, h, next_bind_eq_ok,
    bind_eq_ok (x := body fuel), pure_eq_ok]
  constructor
  · rintro ⟨ss, _, hbody, rfl, rfl⟩
    exact ⟨ss, hbody, rfl⟩
  · rintro ⟨ss, hbody, rfl⟩
    exact ⟨ss, c', hbody, rfl, rfl⟩

theorem statement_empty_eq_ok (h : c.current.val = .symbol .semicolon) :
    statement (fuel + 1) c = .ok s c' ↔ s = .empty ∧ c' = c.advance := by
  simp only [statement, Reading.statement, current_bind_eq_ok, h, next_bind_eq_ok, pure_eq_ok]

theorem statement_expr_eq_ok (h : c.current.val.announces = false) :
    statement (fuel + 1) c = .ok s c' ↔ ∃ e, Closes expression .semicolon c e c' ∧ s = .expr e := by
  have hstep : statement (fuel + 1) c = .ok s c' ↔
      (do let e ← expression; expect .semicolon; return .expr e : Parser Stmt) c = .ok s c' := by
    rw [statement, Reading.statement, current_bind_eq_ok]
    generalize c.current.val = t at h
    cases t with
    | keyword k => cases k <;> first | rfl | cases h
    | symbol symbol => cases symbol <;> first | rfl | cases h
    | _ => rfl
  rw [hstep, closed_eq_ok]
  simp only [pure_eq_ok]
  constructor
  · rintro ⟨e, _, he, rfl, rfl⟩
    exact ⟨e, he, rfl⟩
  · rintro ⟨e, he, rfl⟩
    exact ⟨e, c', he, rfl, rfl⟩

/-! ## Lists of statements -/

/-- Reading goes on behind a statement with an error, which is then added. -/
theorem declaration_eq_ok {r : Option Stmt} : declaration (fuel + 1) c = .ok r c' ↔
    (∃ s, statement fuel c = .ok s c' ∧ r = some s) ∨
      ∃ e c₁, statement fuel c = .error (.error e) c₁ ∧ r = none ∧
        c' = c₁.recover c.current.span e := by
  rw [declaration_eq, recovering]
  cases statement fuel c with
  | ok s c₁ =>
    constructor
    · rintro ⟨⟩
      exact .inl ⟨s, rfl, rfl⟩
    · rintro (⟨_, ⟨⟩, rfl⟩ | ⟨_, _, ⟨⟩, _⟩)
      rfl
  | error stop c₁ =>
    cases stop with
    | error e =>
      constructor
      · rintro ⟨⟩
        exact .inr ⟨e, c₁, rfl, rfl, rfl⟩
      · rintro (⟨_, ⟨⟩, _⟩ | ⟨_, _, ⟨⟩, rfl, rfl⟩)
        rfl
    | outOfFuel =>
      constructor
      · rintro ⟨⟩
      · rintro (⟨_, ⟨⟩, _⟩ | ⟨_, _, ⟨⟩, _⟩)

/-- A statement and then more of them. -/
theorem declarations_eq_ok {x : Parser (List Stmt)} {ss : List Stmt} :
    (do let r ← declaration fuel; return r.toList ++ (← x) : Parser (List Stmt)) c = .ok ss c' ↔
      ∃ r c₁ rest, declaration fuel c = .ok r c₁ ∧ x c₁ = .ok rest c' ∧ ss = r.toList ++ rest := by
  simp only [bind_eq_ok, pure_eq_ok]
  constructor
  · rintro ⟨r, c₁, hr, rest, _, hrest, rfl, rfl⟩
    exact ⟨r, c₁, rest, hr, hrest, rfl⟩
  · rintro ⟨r, c₁, rest, hr, hrest, rfl⟩
    exact ⟨r, c₁, hr, rest, c', hrest, rfl, rfl⟩

theorem body_eq_ok {ss : List Stmt} : body (fuel + 1) c = .ok ss c' ↔
    (c.current.val = .symbol .rightBrace ∧ ss = [] ∧ c' = c.advance) ∨
      (c.current.val.endsStatements = false ∧
        ∃ r c₁ rest, declaration fuel c = .ok r c₁ ∧ body fuel c₁ = .ok rest c' ∧
          ss = r.toList ++ rest) := by
  have hends : (c.current.val == .symbol .rightBrace || c.atEnd) =
      c.current.val.endsStatements := by
    rw [Cursor.atEnd]
    generalize c.current.val = t
    cases t with
    | symbol symbol => cases symbol <;> rfl
    | _ => rfl
  have hstep : body (fuel + 1) c =
      (if c.current.val.endsStatements = true then do expect .rightBrace; return []
      else do let r ← declaration fuel; return r.toList ++ (← body fuel) :
      Parser (List Stmt)) c := by
    rw [body, Reading.body, ← hends]
    rfl
  rw [hstep]
  cases hends : c.current.val.endsStatements with
  | true =>
    rw [if_pos rfl, expect_bind_eq_ok, pure_eq_ok]
    simp only [reduceCtorEq, false_and, or_false]
  | false =>
    have hne : c.current.val ≠ .symbol .rightBrace := by
      intro hbrace
      rw [hbrace] at hends
      cases hends
    rw [if_neg Bool.false_ne_true, declarations_eq_ok]
    simp only [hne, false_and, true_and, false_or]

theorem statements_eq_ok {ss : List Stmt} : statements (fuel + 1) c = .ok ss c' ↔
    (c.current.val = .endOfInput ∧ ss = [] ∧ c' = c) ∨
      (c.current.val ≠ .endOfInput ∧
        ∃ r c₁ rest, declaration fuel c = .ok r c₁ ∧ statements fuel c₁ = .ok rest c' ∧
          ss = r.toList ++ rest) := by
  have hstep : statements (fuel + 1) c = (if (c.current.val == .endOfInput) = true then return []
      else do let r ← declaration fuel; return r.toList ++ (← statements fuel) :
      Parser (List Stmt)) c := by
    rw [statements, Reading.statements]
    rfl
  rw [hstep]
  by_cases hends : c.current.val = .endOfInput
  · rw [if_pos (beq_iff_eq.2 hends), pure_eq_ok]
    simp only [hends, true_and, ne_eq, not_true_eq_false, false_and, or_false]
  · rw [if_neg (beq_iff_eq.not.2 hends), declarations_eq_ok]
    simp only [hends, false_and, ne_eq, not_false_eq_true, true_and, false_or]

end Parser

end Stackscript
