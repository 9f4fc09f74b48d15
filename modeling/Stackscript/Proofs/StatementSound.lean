import Stackscript.Proofs.StatementReaders

/-!
# What is read without an error is a program of the grammar

A reader of statements may leave out what it could not read, and then the cursor behind it has an
error. If the cursor has none, then nothing was left out: the readers are followed from the end to
the start, and as no error is forgotten, there was none at any place on the way.

* `Parser.simple_sound`: statements without statements in them;
* `Parser.SoundStatements`: what every reader does without errors; **`Parser.sound_statements`**;
* `Parser.statements_sound`: programs.
-/

namespace Stackscript

theorem Grammar.Simple.dangles {semicolon : Span} {ts : List (Located Token)} {s : Stmt}
    (h : Grammar.Simple semicolon ts s) : s.dangles = false := by
  cases h <;> rfl

namespace Parser

open Grammar

variable {fuel : Nat} {c c₁ c' : Cursor} {s : Stmt} {ss : List Stmt}

/-- A word and a name are passed over. -/
theorem passes_named {word : Keyword} {name : Located String} (hc : c.Ended)
    (hword : c.current.val = .keyword word) (hname : expectIdentifier c.advance = .ok name c₁) :
    c.Passes [⟨c.current.span, .keyword word⟩, ⟨name.span, .identifier name.val⟩] c₁ := by
  have hpass := passes_current hc hword nofun
  obtain ⟨hcurrent, rfl⟩ := expectIdentifier_eq_ok.1 hname
  have hpass' := (hpass.ended hc).passes_advance (by rw [hcurrent]; exact nofun)
  rw [hcurrent] at hpass'
  exact hpass.trans hpass'

/-- A word and a condition are passed over. -/
theorem passes_condition {word : Keyword} {test : Expr} (hc : c.Ended)
    (hword : c.current.val = .keyword word) (h : condition c.advance = .ok test c₁) :
    ∃ ts, c.Passes (⟨c.current.span, .keyword word⟩ :: ts) c₁ ∧ Condition ts test := by
  have hpass := passes_current hc hword nofun
  obtain ⟨ts, hts, hcondition⟩ := (condition_eq_ok (hpass.ended hc)).1 h
  exact ⟨ts, hpass.trans hts, hcondition⟩

/-! ## Simple statements -/

/-- The cursor gets over a statement that has no statement in it. -/
def PassesSimple (c : Cursor) (s : Stmt) (c' : Cursor) : Prop :=
  ∃ ts semicolon, c.Passes (ts ++ [⟨semicolon, .symbol .semicolon⟩]) c' ∧ Simple semicolon ts s

theorem var_sound (hc : c.Ended) (hword : c.current.val = .keyword .var)
    (h : statement (fuel + 1) c = .ok s c') : PassesSimple c s c' := by
  obtain ⟨name, c₁, init, hname, hinit, rfl⟩ := (statement_var_eq_ok hword).1 h
  have hnamed := passes_named hc hword hname
  obtain ⟨ts, semicolon, hts, hinit⟩ := (initialValue_closes (hnamed.ended hc)).1 hinit
  exact ⟨_ :: _ :: ts, semicolon, hnamed.trans hts, .var hinit⟩

theorem const_sound (hc : c.Ended) (hword : c.current.val = .keyword .const)
    (h : statement (fuel + 1) c = .ok s c') : PassesSimple c s c' := by
  obtain ⟨name, c₁, init, hname, hinit, rfl⟩ := (statement_const_eq_ok hword).1 h
  have hnamed := passes_named hc hword hname
  obtain ⟨ts, semicolon, hts, hinit⟩ := (initialValue_closes (hnamed.ended hc)).1 hinit
  exact ⟨_ :: _ :: ts, semicolon, hnamed.trans hts, .const hinit⟩

theorem return_sound (hc : c.Ended) (hword : c.current.val = .keyword .return)
    (h : statement (fuel + 1) c = .ok s c') : PassesSimple c s c' := by
  have hpass := passes_current hc hword nofun
  obtain ⟨hclose, rfl, rfl⟩ | ⟨-, e, he, rfl⟩ := (statement_return_eq_ok hword).1 h
  · exact ⟨[_], _, hpass.trans (passes_symbol (hpass.ended hc) hclose), .return _⟩
  · obtain ⟨ts, semicolon, hts, hderives⟩ := (expression_closes (hpass.ended hc) rfl).1 he
    refine ⟨_ :: ts, semicolon, hpass.trans hts, ?_⟩
    rw [hts.previous, List.getLast?_concat]
    exact .returnValue hderives

theorem expr_sound (hc : c.Ended) (hfirst : c.current.val.announces = false)
    (h : statement (fuel + 1) c = .ok s c') : PassesSimple c s c' := by
  obtain ⟨e, he, rfl⟩ := (statement_expr_eq_ok hfirst).1 h
  obtain ⟨ts, semicolon, hts, hderives⟩ := (expression_closes hc rfl).1 he
  exact ⟨ts, semicolon, hts, .expr hderives⟩

theorem empty_sound (hc : c.Ended) (hfirst : c.current.val = .symbol .semicolon)
    (h : statement (fuel + 1) c = .ok s c') : PassesSimple c s c' := by
  obtain ⟨rfl, rfl⟩ := (statement_empty_eq_ok hfirst).1 h
  exact ⟨[], _, passes_symbol hc hfirst, .empty⟩

theorem word_sound {word : Keyword} {f : Span → Stmt} (hc : c.Ended)
    (hform : (word = .break ∧ f = .break) ∨ (word = .continue ∧ f = .continue))
    (hword : c.current.val = .keyword word) (h : statement (fuel + 1) c = .ok s c') :
    PassesSimple c s c' := by
  obtain ⟨hclose, rfl, rfl⟩ := (statement_word_eq_ok hform hword).1 h
  have hpass := passes_current hc hword nofun
  refine ⟨[_], _, hpass.trans (passes_symbol (hpass.ended hc) hclose), ?_⟩
  obtain ⟨rfl, rfl⟩ | ⟨rfl, rfl⟩ := hform
  · exact .break _
  · exact .continue _

/-! ## Statements -/

/-- The cursor gets over a statement, and no `else` behind it would be a part of it. -/
def PassesStatement (c : Cursor) (s : Stmt) (c' : Cursor) : Prop :=
  ∃ ts, c.Passes ts c' ∧ Statement ts s ∧ (s.dangles = true → c'.current.val ≠ .keyword .else)

/-- The cursor gets over statements and the brace behind them. -/
def PassesBody (c : Cursor) (ss : List Stmt) (c' : Cursor) : Prop :=
  ∃ ts closing, c.Passes (ts ++ [⟨closing, .symbol .rightBrace⟩]) c' ∧ Statements ts ss

theorem PassesSimple.statement (h : PassesSimple c s c') : PassesStatement c s c' := by
  obtain ⟨ts, semicolon, hts, hsimple⟩ := h
  exact ⟨_, hts, .simple hsimple, fun hdangles => nomatch hsimple.dangles.symm.trans hdangles⟩

/-- **What the readers do without errors**, with a bound on the nesting of calls. -/
structure SoundStatements (fuel : Nat) : Prop where
  statement {c c' : Cursor} {s : Stmt} : c.Ended → c'.errors = [] →
    statement fuel c = .ok s c' → PassesStatement c s c'
  declaration {c c' : Cursor} {r : Option Stmt} : c.Ended → c'.errors = [] →
    declaration fuel c = .ok r c' → ∃ s, r = some s ∧ PassesStatement c s c'
  body {c c' : Cursor} {ss : List Stmt} : c.Ended → c'.errors = [] →
    body fuel c = .ok ss c' → PassesBody c ss c'

namespace SoundStatements

variable (ih : SoundStatements fuel)

include ih

theorem function_succ (hc : c.Ended) (herrors : c'.errors = [])
    (hword : c.current.val = .keyword .function)
    (h : Parser.statement (fuel + 1) c = .ok s c') : PassesStatement c s c' := by
  obtain ⟨name, c₁, params, c₂, ss, hname, ⟨c₃, hparams, hopen, rfl⟩, hbody, rfl⟩ :=
    (statement_function_eq_ok hword).1 h
  have hnamed := passes_named hc hword hname
  have hc₁ := hnamed.ended hc
  obtain ⟨ps, hps, hparams⟩ := (parameters_eq_ok hc₁).1 hparams
  have hopening := passes_symbol (hps.ended hc₁) hopen
  obtain ⟨bs, closing, hbs, hstatements⟩ := ih.body (hopening.ended (hps.ended hc₁)) herrors hbody
  exact ⟨_, hnamed.trans (hps.trans (hopening.trans hbs)), .function hparams hstatements, nofun⟩

theorem if_succ (hc : c.Ended) (herrors : c'.errors = []) (hword : c.current.val = .keyword .if)
    (h : Parser.statement (fuel + 1) c = .ok s c') : PassesStatement c s c' := by
  obtain ⟨test, c₁, yes, c₂, htest, hyes, hrest⟩ := (statement_if_eq_ok hword).1 h
  obtain ⟨ts, hts, htest⟩ := passes_condition hc hword htest
  obtain ⟨helse, no, hno, rfl⟩ | ⟨helse, rfl, rfl⟩ := hrest
  · -- an error before the `else` would still be there at the end
    have herrors₂ : c₂.errors = [] := by
      rw [← c₂.errors_advance]
      exact (remembers_statements fuel).statement.errors_eq_nil hno herrors
    obtain ⟨ys, hys, hyes, hnearest⟩ := ih.statement (hts.ended hc) herrors₂ hyes
    have hotherwise := passes_current (hys.ended (hts.ended hc)) helse nofun
    obtain ⟨ns, hns, hno, hdangles⟩ :=
      ih.statement (hotherwise.ended (hys.ended (hts.ended hc))) herrors hno
    have hclosed : yes.dangles = false := by
      cases hyes : yes.dangles with
      | false => rfl
      | true => exact absurd helse (hnearest hyes)
    exact ⟨_, hts.trans (hys.trans (hotherwise.trans hns)),
      .ifElse htest hyes hclosed hno, hdangles⟩
  · obtain ⟨ys, hys, hyes, -⟩ := ih.statement (hts.ended hc) herrors hyes
    exact ⟨_, hts.trans hys, .ifThen htest hyes, fun _ => helse⟩

theorem while_succ (hc : c.Ended) (herrors : c'.errors = [])
    (hword : c.current.val = .keyword .while)
    (h : Parser.statement (fuel + 1) c = .ok s c') : PassesStatement c s c' := by
  obtain ⟨test, c₁, body, htest, hbody, rfl⟩ := (statement_while_eq_ok hword).1 h
  obtain ⟨ts, hts, htest⟩ := passes_condition hc hword htest
  obtain ⟨bs, hbs, hbody, hdangles⟩ := ih.statement (hts.ended hc) herrors hbody
  exact ⟨_, hts.trans hbs, .while htest hbody, hdangles⟩

theorem block_succ (hc : c.Ended) (herrors : c'.errors = [])
    (hopen : c.current.val = .symbol .leftBrace)
    (h : Parser.statement (fuel + 1) c = .ok s c') : PassesStatement c s c' := by
  obtain ⟨ss, hbody, rfl⟩ := (statement_block_eq_ok hopen).1 h
  have hopening := passes_symbol hc hopen
  obtain ⟨bs, closing, hbs, hstatements⟩ := ih.body (hopening.ended hc) herrors hbody
  exact ⟨_, hopening.trans hbs, .block hstatements, nofun⟩

theorem statement_succ (hc : c.Ended) (herrors : c'.errors = [])
    (h : Parser.statement (fuel + 1) c = .ok s c') : PassesStatement c s c' := by
  cases hfirst : c.current.val with
  | keyword word =>
    cases word with
    | var => exact (var_sound hc hfirst h).statement
    | const => exact (const_sound hc hfirst h).statement
    | function => exact ih.function_succ hc herrors hfirst h
    | «if» => exact ih.if_succ hc herrors hfirst h
    | «while» => exact ih.while_succ hc herrors hfirst h
    | «return» => exact (return_sound hc hfirst h).statement
    | «break» => exact (word_sound hc (.inl ⟨rfl, rfl⟩) hfirst h).statement
    | «continue» => exact (word_sound hc (.inr ⟨rfl, rfl⟩) hfirst h).statement
    | _ => exact (expr_sound hc (by rw [hfirst]; rfl) h).statement
  | symbol symbol =>
    cases symbol with
    | leftBrace => exact ih.block_succ hc herrors hfirst h
    | semicolon => exact (empty_sound hc hfirst h).statement
    | _ => exact (expr_sound hc (by rw [hfirst]; rfl) h).statement
  | _ => exact (expr_sound hc (by rw [hfirst]; rfl) h).statement

/-- Behind a statement that was left out there is an error. -/
theorem declaration_succ {r : Option Stmt} (hc : c.Ended) (herrors : c'.errors = [])
    (h : Parser.declaration (fuel + 1) c = .ok r c') :
    ∃ s, r = some s ∧ PassesStatement c s c' := by
  obtain ⟨s, hs, rfl⟩ | ⟨e, c₁, -, rfl, rfl⟩ := declaration_eq_ok.1 h
  · exact ⟨s, rfl, ih.statement hc herrors hs⟩
  · rw [Cursor.errors_recover] at herrors
    cases herrors

theorem body_succ (hc : c.Ended) (herrors : c'.errors = [])
    (h : Parser.body (fuel + 1) c = .ok ss c') : PassesBody c ss c' := by
  obtain ⟨hclose, rfl, rfl⟩ | ⟨-, r, c₁, rest, hr, hrest, rfl⟩ := body_eq_ok.1 h
  · exact ⟨[], _, passes_symbol hc hclose, .nil⟩
  · have herrors₁ := (remembers_statements fuel).body.errors_eq_nil hrest herrors
    obtain ⟨s, rfl, ts, hts, hs, -⟩ := ih.declaration hc herrors₁ hr
    obtain ⟨rs, closing, hrs, hstatements⟩ := ih.body (hts.ended hc) herrors hrest
    refine ⟨ts ++ rs, closing, ?_, .cons hs hstatements⟩
    rw [List.append_assoc]
    exact hts.trans hrs

end SoundStatements

/-- **What is read without an error is a statement of the grammar.** -/
theorem sound_statements (fuel : Nat) : SoundStatements fuel := by
  induction fuel with
  | zero => exact ⟨fun _ _ => nofun, fun _ _ => nofun, fun _ _ => nofun⟩
  | succ fuel ih => exact ⟨ih.statement_succ, ih.declaration_succ, ih.body_succ⟩

/-- What is read without an error up to the end of input is a program of the grammar. -/
theorem statements_sound (hc : c.Ended) (herrors : c'.errors = [])
    (h : statements fuel c = .ok ss c') :
    ∃ ts, c.Passes ts c' ∧ Statements ts ss ∧ c'.current.val = .endOfInput := by
  induction fuel generalizing c ss with
  | zero => cases h
  | succ fuel ih =>
    obtain ⟨hend, rfl, rfl⟩ | ⟨-, r, c₁, rest, hr, hrest, rfl⟩ := statements_eq_ok.1 h
    · exact ⟨[], .refl c', .nil, hend⟩
    · have herrors₁ := (remembers_program fuel).errors_eq_nil hrest herrors
      obtain ⟨s, rfl, ts, hts, hs, -⟩ := (sound_statements fuel).declaration hc herrors₁ hr
      obtain ⟨rs, hrs, hstatements, hend⟩ := ih (hts.ended hc) hrest
      exact ⟨ts ++ rs, hts.trans hrs, .cons hs hstatements, hend⟩

end Parser

end Stackscript
