import Stackscript.Proofs.Reading
import Stackscript.Proofs.ScanBoundaries
import Stackscript.Proofs.StatementComplete

/-!
# Reading ends

Each declaration that is read begins before the end of input and takes a token at least, whether it
is a statement or an error is recovered from in it. So there are no more of them than tokens, and no
more errors. To say this, the readers keep a record of the declarations that they read, in all
blocks; without the record they are the readers of `Parser`.

A reader that gets forward needs no bound on the nesting of calls but one that grows with the number
of tokens. So the bounds that are chosen are never reached, and larger ones would change nothing.

* `DeclarationCall`, `Trace`, `Traced`: reading with a record;
* `Trace.Advances`: what a reader may do to the cursor and to the record;
* `Traced.Runs`: a reader ends, with or without a result, and gets forward;
* `Traced.runs_expressions`, **`Traced.runs_statements`**: every reader does, by induction on the
  bound;
* `Program.Run`, **`Program.parse_terminates`**: what is done to read a text.
-/

namespace Stackscript

/-! ## Getting forward -/

namespace Cursor

theorem remaining_le {c c' : Cursor} (h : c'.tokens <:+ c.tokens) : c'.remaining ≤ c.remaining :=
  Nat.le_of_succ_le_succ h.length_le

theorem Ended.of_suffix {c c' : Cursor} (hc : c.Ended) (h : c'.tokens <:+ c.tokens) : c'.Ended := by
  obtain ⟨ts, hts⟩ := h
  have hne : c'.tokens ≠ [] := List.cons_ne_nil _ _
  rwa [Ended, ← hts, List.getLast?_append_of_ne_nil _ hne] at hc

/-- Before the end of input there is a token to pass over. -/
theorem Ended.remaining_pos {c : Cursor} (hc : c.Ended) (hcurrent : c.current.val ≠ .endOfInput) :
    0 < c.remaining := by
  have := (hc.passes_advance hcurrent).remaining
  rw [List.length_singleton] at this
  omega

theorem tokens_advance_suffix (c : Cursor) : c.advance.tokens <:+ c.tokens := by
  by_cases hc : c.upcoming = []
  · refine ⟨[], ?_⟩
    unfold advance tokens
    rw [hc]
    rfl
  · rw [tokens_advance hc]
    exact List.suffix_cons _ _

theorem tokens_synchronizeFrom_suffix (errors : List (Located SyntaxError))
    (previous current : Located Token)
    (ts : List (Located Token)) :
    (synchronizeFrom errors previous current ts).tokens <:+ current :: ts := by
  induction ts generalizing previous current with
  | nil => exact List.suffix_refl _
  | cons t ts ih =>
    rw [synchronizeFrom]
    split
    · exact List.suffix_refl _
    · exact (ih current t).trans (List.suffix_cons _ _)

theorem tokens_recover_suffix (c : Cursor) (start : Span) (e : Located SyntaxError) :
    (c.recover start e).tokens <:+ c.tokens := by
  have hsynchronize := tokens_synchronizeFrom_suffix (e :: c.errors) c.previous c.current c.upcoming
  simp only [recover]
  split
  · exact (tokens_advance_suffix _).trans hsynchronize
  · exact hsynchronize

end Cursor

/-! ## Records -/

/-- A declaration that was read: the cursor before it and the one behind it. -/
structure DeclarationCall where
  start : Cursor
  stop : Cursor

/-- The declaration begins before the end of input and takes some tokens. -/
def DeclarationCall.Consumes (call : DeclarationCall) : Prop :=
  call.start.current.val ≠ .endOfInput ∧ ∃ used, used ≠ [] ∧
    call.start.tokens = used ++ call.stop.tokens

/-- A cursor and the declarations that were read up to it, latest first. -/
structure Trace where
  cursor : Cursor
  calls : List DeclarationCall

namespace Trace

def advance (s : Trace) : Trace := { s with cursor := s.cursor.advance }

/-- The declaration that began at `start` ends here. -/
def record (s : Trace) (start : Cursor) : Trace := { s with calls := ⟨start, s.cursor⟩ :: s.calls }

def recover (s : Trace) (start : Span) (e : Located SyntaxError) : Trace :=
  { s with cursor := s.cursor.recover start e }

end Trace

/-- A reader that keeps a record of the declarations. -/
abbrev Traced := EStateM Stop Trace

instance : Reading Traced where
  stop := throw
  current s := .ok s.cursor.current s
  lastSpan s := .ok s.cursor.previous.span s
  next s := .ok s.cursor.current s.advance
  ahead s := .ok s.cursor.remaining s
  recovering x s :=
    match x s with
    | .ok a s' => .ok (some a) (s'.record s.cursor)
    | .error (.error e) s' => .ok none ((s'.recover s.cursor.current.span e).record s.cursor)
    | .error .outOfFuel s' => .error .outOfFuel s'

open Reading

/-- **The record changes nothing** of what is read. -/
def Traced.erasure : Simulation Traced Parser where
  Matches x y := Tracks (·.cursor = ·) x y
  pure a := fun _ _ h => .ok a h
  bind := Tracks.bind
  outOfFuel y := fun s _ _ => .outOfFuel s _
  error e := fun _ _ h => .error e h
  current := by
    rintro s _ rfl
    exact .ok _ rfl
  lastSpan := by
    rintro s _ rfl
    exact .ok _ rfl
  next := by
    rintro s _ rfl
    exact .ok _ rfl
  ahead hf := by
    rintro s _ rfl
    exact hf _ _ (Nat.le_refl _) s _ rfl
  recovering {_ x y} hx := by
    rintro s _ rfl
    have houtcome := hx s _ rfl
    simp only [recovering, Parser.recovering]
    generalize x s = r at houtcome
    generalize y s.cursor = r' at houtcome
    cases houtcome with
    | ok a h => exact .ok (some a) h
    | error e h => exact .ok none (congrArg (Cursor.recover · _ e) h)
    | outOfFuel s r' => exact .outOfFuel s _

/-! ## Readers that get forward -/

/-- **What a reader may do.** It passes over tokens, every declaration that it adds takes some of
them, and there is no more than one error for each.

* `spent`: each declaration that is added is paid for by a token that is passed over. -/
structure Trace.Advances (s s' : Trace) : Prop where
  tokens : s'.cursor.tokens <:+ s.cursor.tokens
  consume : ∀ call ∈ s'.calls, call ∈ s.calls ∨ call.Consumes
  spent : s'.calls.length + s'.cursor.remaining ≤ s.calls.length + s.cursor.remaining
  errors : s'.cursor.errors.length + s.calls.length ≤ s.cursor.errors.length + s'.calls.length

namespace Trace

variable {s s' s'' : Trace}

theorem Advances.refl (s : Trace) : s.Advances s :=
  ⟨List.suffix_refl _, fun _ h => .inl h, Nat.le_refl _, Nat.le_refl _⟩

theorem Advances.trans (h : s.Advances s') (h' : s'.Advances s'') : s.Advances s'' where
  tokens := h'.tokens.trans h.tokens
  consume := fun call hcall => (h'.consume call hcall).elim (h.consume call) .inr
  spent := Nat.le_trans h'.spent h.spent
  errors := by
    have := h.errors
    have := h'.errors
    omega

theorem Advances.ended (h : s.Advances s') (hs : s.cursor.Ended) : s'.cursor.Ended :=
  hs.of_suffix h.tokens

theorem Advances.remaining_le (h : s.Advances s') : s'.cursor.remaining ≤ s.cursor.remaining :=
  Cursor.remaining_le h.tokens

theorem advances_advance (s : Trace) : s.Advances s.advance where
  tokens := s.cursor.tokens_advance_suffix
  consume := fun _ h => .inl h
  spent := by
    have := s.cursor.remaining_advance
    show s.calls.length + s.cursor.advance.remaining ≤ _
    omega
  errors := by
    show s.cursor.advance.errors.length + _ ≤ _
    rw [Cursor.errors_advance]
    exact Nat.le_refl _

theorem remaining_advance_lt (hs : s.cursor.Ended) (h : s.cursor.current.val ≠ .endOfInput) :
    s.advance.cursor.remaining < s.cursor.remaining := by
  have hpos := hs.remaining_pos h
  have := s.cursor.remaining_advance
  show s.cursor.advance.remaining < _
  omega

/-- A declaration takes the token that was passed over first, and whatever is passed over behind
it. -/
theorem consumes_of_suffix {c : Cursor} (hs : s.cursor.Ended)
    (hend : s.cursor.current.val ≠ .endOfInput)
    (h : c.tokens <:+ s.advance.cursor.tokens) : DeclarationCall.Consumes ⟨s.cursor, c⟩ := by
  obtain ⟨passed, hpassed⟩ := h
  refine ⟨hend, s.cursor.current :: passed, List.cons_ne_nil _ _, ?_⟩
  rw [(hs.passes_advance hend).whole, List.cons_append]
  exact congrArg _ hpassed.symm

/-- **A declaration is recorded** behind a reader that passed over a token first. It may recover
from one error. -/
theorem advances_record {c : Cursor} (hs : s.cursor.Ended)
    (hend : s.cursor.current.val ≠ .endOfInput)
    (h : s.advance.Advances s') (htokens : c.tokens <:+ s'.cursor.tokens)
    (herrors : c.errors.length ≤ s'.cursor.errors.length + 1) :
    s.Advances (record ⟨c, s'.calls⟩ s.cursor) ∧ c.remaining < s.cursor.remaining := by
  have hlt := remaining_advance_lt hs hend
  have hle := Cursor.remaining_le (htokens.trans h.tokens)
  refine ⟨⟨(htokens.trans h.tokens).trans s.advances_advance.tokens, ?_, ?_, ?_⟩, by omega⟩
  · intro call hcall
    obtain rfl | hcall := List.mem_cons.1 hcall
    · exact .inr (consumes_of_suffix hs hend (htokens.trans h.tokens))
    · exact h.consume call hcall
  · have hspent := h.spent
    have hleft := Cursor.remaining_le htokens
    have hcalls : s.advance.calls.length = s.calls.length := rfl
    show s'.calls.length + 1 + c.remaining ≤ _
    omega
  · have hadded := h.errors
    have hbefore : s.advance.cursor.errors = s.cursor.errors := s.cursor.errors_advance
    rw [hbefore] at hadded
    have hcalls : s.advance.calls.length = s.calls.length := rfl
    show c.errors.length + s.calls.length ≤ s.cursor.errors.length + (s'.calls.length + 1)
    omega

end Trace

namespace Traced

variable {α β : Type} {s b : Trace}

/-- The reader has an outcome other than that the bound on the nesting of calls was reached, and a
property holds where it ends. -/
def Ends (P : Trace → Prop) : EStateM.Result Stop Trace α → Prop
  | .ok _ s => P s
  | .error (.error _) s => P s
  | .error .outOfFuel _ => False

/-- **The reader ends, and gets forward.** -/
def Runs (x : Traced α) (s : Trace) : Prop := Ends s.Advances (x s)

/-- The reader passes over a token first. -/
def Takes (x : Traced α) (s : Trace) : Prop := Ends s.advance.Advances (x s)

/-- The reader has a result, and leaves fewer tokens than there were. -/
def Shortens (x : Traced α) (s : Trace) : Prop :=
  ∃ a s', x s = .ok a s' ∧ s.Advances s' ∧ s'.cursor.remaining < s.cursor.remaining

theorem Ends.mono {P Q : Trace → Prop} {r : EStateM.Result Stop Trace α} (h : Ends P r)
    (hPQ : ∀ s, P s → Q s) : Ends Q r := by
  cases r with
  | ok a s => exact hPQ s h
  | error stop s =>
    cases stop with
    | error e => exact hPQ s h
    | outOfFuel => exact h

theorem Ends.bind {x : Traced α} {f : α → Traced β} (hx : Ends b.Advances (x s))
    (hf : ∀ a s', b.Advances s' → Runs (f a) s') : Ends b.Advances ((x >>= f) s) := by
  show Ends b.Advances (EStateM.bind x f s)
  rw [EStateM.bind]
  cases hxs : x s with
  | ok a s' =>
    rw [hxs] at hx
    exact (hf a s' hx).mono fun _ h => hx.trans h
  | error stop s' =>
    rw [hxs] at hx
    cases stop with
    | error e => exact hx
    | outOfFuel => exact hx

theorem Shortens.bind {x : Traced α} {f : α → Traced β} (hx : Shortens x s)
    (hf : ∀ a s', s.Advances s' → s'.cursor.remaining < s.cursor.remaining → Runs (f a) s') :
    Runs (x >>= f) s := by
  obtain ⟨a, s', hxs, h, hlt⟩ := hx
  have hbind : (x >>= f) s = f a s' := by
    show EStateM.bind x f s = _
    rw [EStateM.bind, hxs]
  rw [Runs, hbind]
  exact (hf a s' h hlt).mono fun _ h' => h.trans h'

theorem runs_pure (a : α) : Runs (pure a) s := Trace.Advances.refl s

theorem runs_fail (span : Span) (e : SyntaxError) : Runs (α := α) (fail span e) s :=
  Trace.Advances.refl s

theorem runs_current {f : Located Token → Traced α} (h : Runs (f s.cursor.current) s) :
    Runs (current >>= f) s := h

theorem runs_lastSpan {f : Span → Traced α} (h : Runs (f s.cursor.previous.span) s) :
    Runs (lastSpan >>= f) s := h

theorem takes_current {f : Located Token → Traced α} (h : Takes (f s.cursor.current) s) :
    Takes (current >>= f) s := h

theorem takes_ahead {f : Nat → Traced α} (h : Takes (f s.cursor.remaining) s) :
    Takes (ahead >>= f) s := h

theorem takes_next {f : Located Token → Traced α} (h : Runs (f s.cursor.current) s.advance) :
    Takes (next >>= f) s := h

theorem Takes.runs {x : Traced α} (h : Takes x s) : Runs x s :=
  Ends.mono h fun _ h => s.advances_advance.trans h

theorem runs_next {f : Located Token → Traced α} (h : Runs (f s.cursor.current) s.advance) :
    Runs (next >>= f) s :=
  (takes_next h).runs

/-- A reader that looks for a symbol first. -/
theorem runs_checked {x y : Traced α} {symbol : Symbol}
    (hx : s.cursor.current.val = .symbol symbol → Runs x s)
    (hy : Runs y s) : Runs (do if ← check symbol then x else y) s := by
  show Runs (if s.cursor.current.val == .symbol symbol then x else y) s
  split
  · next h => exact hx (beq_iff_eq.1 h)
  · exact hy

theorem runs_expect (symbol : Symbol) : Runs (expect symbol) s := by
  refine runs_current ?_
  split
  · exact runs_next (runs_pure ())
  · exact runs_fail _ _

theorem runs_expectIdentifier : Runs expectIdentifier s := by
  refine runs_current ?_
  split
  · exact runs_next (runs_pure _)
  · exact runs_fail _ _

/-- A reader whose result ends with a symbol. -/
theorem Ends.closed {x : Traced α} {f : α → Traced β} (symbol : Symbol) (hx : Ends b.Advances (x s))
    (hf : ∀ a s', b.Advances s' → Runs (f a) s') :
    Ends b.Advances ((do let a ← x; expect symbol; f a) s) :=
  hx.bind fun a _ h => (runs_expect symbol).bind fun _ _ h' => hf a _ (h.trans h')

/-- A reader whose result has the span up to where it ends. -/
theorem Ends.spanned {x : Traced α} {f : α → Span → β} (hx : Ends b.Advances (x s)) :
    Ends b.Advances ((do let a ← x; return f a (← lastSpan)) s) :=
  hx.bind fun _ _ _ => runs_lastSpan (runs_pure _)

/-- **A declaration takes some tokens**, whether or not it recovers from an error. -/
theorem Takes.recovering {x : Traced α} (hx : Takes x s) (hs : s.cursor.Ended)
    (hend : s.cursor.current.val ≠ .endOfInput) : Shortens (recovering x) s := by
  rw [Takes] at hx
  simp only [Shortens, Reading.recovering]
  cases hxs : x s with
  | ok a s' =>
    rw [hxs] at hx
    exact ⟨_, _, rfl, Trace.advances_record hs hend hx (List.suffix_refl _) (Nat.le_succ _)⟩
  | error stop s' =>
    rw [hxs] at hx
    cases stop with
    | error e =>
      refine ⟨_, _, rfl, Trace.advances_record hs hend hx (Cursor.tokens_recover_suffix _ _ e) ?_⟩
      rw [Cursor.errors_recover]
      exact Nat.le_refl _
    | outOfFuel => exact False.elim hx

/-! ## Expressions -/

/-- The readers of expressions end, if they may nest some calls for each token that is left. -/
structure RunsExpressions (fuel : Nat) : Prop where
  climb {s : Trace} (min : Precedence) : s.cursor.Ended → 4 * s.cursor.remaining + 2 ≤ fuel →
    Takes (climb fuel min) s
  operand {s : Trace} (t : Located Token) : s.cursor.Ended → 4 * s.cursor.remaining + 5 ≤ fuel →
    Runs (operand fuel t) s
  operators {s : Trace} (min : Precedence) (left : Expr) : s.cursor.Ended →
    4 * s.cursor.remaining + 2 ≤ fuel → Runs (operators fuel min left) s
  operator {s : Trace} (k : Continuation) (left : Expr) : s.cursor.Ended →
    4 * s.cursor.remaining + 5 ≤ fuel → Runs (operator fuel k left) s
  list {s : Trace} (close : Symbol) : s.cursor.Ended → 4 * s.cursor.remaining + 4 ≤ fuel →
    Runs (list fuel close) s
  items {s : Trace} : s.cursor.Ended → 4 * s.cursor.remaining + 3 ≤ fuel → Runs (items fuel) s

/-- No expression begins with the end of input. -/
theorem operand_endOfInput (fuel : Nat) {t : Located Token} (ht : t.val = .endOfInput) :
    operand (m := Traced) (fuel + 1) t = fail t.span (.expectedExpression .endOfInput) := by
  obtain ⟨span, token⟩ := t
  cases ht
  rw [Reading.operand.eq_def]

namespace RunsExpressions

variable {fuel : Nat} (ih : RunsExpressions fuel) (hs : s.cursor.Ended)

include ih hs

theorem climb_succ (min : Precedence) (hfuel : 4 * s.cursor.remaining + 2 ≤ fuel + 1) :
    Takes (Reading.climb (fuel + 1) min) s := by
  rw [Reading.climb]
  refine takes_next ?_
  by_cases hend : s.cursor.current.val = .endOfInput
  · obtain ⟨f, rfl⟩ : ∃ f, fuel = f + 1 := ⟨fuel - 1, by omega⟩
    rw [operand_endOfInput f hend]
    exact Trace.Advances.refl _
  · have hlt := Trace.remaining_advance_lt hs hend
    have hended := s.advances_advance.ended hs
    refine (ih.operand _ hended (by omega)).bind fun left s' h => ?_
    have hle := h.remaining_le
    exact ih.operators min left (h.ended hended) (by omega)

theorem operand_succ (t : Located Token) (hfuel : 4 * s.cursor.remaining + 5 ≤ fuel + 1) :
    Runs (Reading.operand (fuel + 1) t) s := by
  have hclimb : ∀ min, Runs (Reading.climb fuel min) s :=
    fun min => (ih.climb min hs (by omega)).runs
  obtain ⟨span, token⟩ := t
  rw [Reading.operand.eq_def]
  cases token with
  | number n | string s | identifier name => exact runs_pure _
  | keyword k => cases k <;> first | exact runs_pure _ | exact runs_fail _ _
  | symbol symbol =>
    cases symbol with
    | leftParen =>
      exact (hclimb .assignment).closed .rightParen fun _ _ _ => runs_lastSpan (runs_pure _)
    | leftBracket => exact (ih.list .rightBracket hs (by omega)).spanned
    | minus | bang => exact (hclimb .unary).bind fun _ _ _ => runs_pure _
    | _ => exact runs_fail _ _
  | invalid | endOfInput => exact runs_fail _ _

theorem operators_succ (min : Precedence) (left : Expr)
    (hfuel : 4 * s.cursor.remaining + 2 ≤ fuel + 1) :
    Runs (Reading.operators (fuel + 1) min left) s := by
  rw [Reading.operators]
  refine runs_current ?_
  split
  · exact runs_pure left
  · next k hk =>
    split
    · exact runs_pure left
    · have hend : s.cursor.current.val ≠ .endOfInput := by
        intro hend
        rw [hend] at hk
        cases hk
      have hlt := Trace.remaining_advance_lt hs hend
      have hended := s.advances_advance.ended hs
      refine runs_next ((ih.operator k left hended (by omega)).bind fun e s' h => ?_)
      have hle := h.remaining_le
      exact ih.operators min e (h.ended hended) (by omega)

theorem operator_succ (k : Continuation) (left : Expr)
    (hfuel : 4 * s.cursor.remaining + 5 ≤ fuel + 1) :
    Runs (Reading.operator (fuel + 1) k left) s := by
  have hclimb : ∀ min s', s.Advances s' → Runs (Reading.climb fuel min) s' := fun min s' h => by
    have hle := h.remaining_le
    exact (ih.climb min (h.ended hs) (by omega)).runs
  have hfirst := fun min => hclimb min s (.refl s)
  rw [Reading.operator.eq_def]
  cases k with
  | assignment =>
    cases left with
    | ident => exact (hfirst .assignment).spanned
    | index => exact (hfirst .assignment).spanned
    | _ => exact runs_fail _ _
  | conditional =>
    exact (hfirst .assignment).closed .colon fun _ s' h => (hclimb .conditional s' h).spanned
  | call => exact (ih.list .rightParen hs (by omega)).spanned
  | index =>
    exact (hfirst .assignment).closed .rightBracket fun _ _ _ => runs_lastSpan (runs_pure _)
  | binary op p => exact (hfirst p.next).spanned

theorem list_succ (close : Symbol) (hfuel : 4 * s.cursor.remaining + 4 ≤ fuel + 1) :
    Runs (Reading.list (fuel + 1) close) s := by
  rw [Reading.list]
  have hitems := ih.items hs (Nat.le_of_succ_le_succ hfuel)
  exact runs_checked (fun _ => runs_next (runs_pure []))
    (hitems.closed close fun _ _ _ => runs_pure _)

theorem items_succ (hfuel : 4 * s.cursor.remaining + 3 ≤ fuel + 1) :
    Runs (Reading.items (fuel + 1)) s := by
  rw [Reading.items]
  refine (ih.climb .assignment hs (by omega)).runs.bind fun e s' h =>
    runs_checked (fun hcomma => ?_) (runs_pure _)
  have hlt := Trace.remaining_advance_lt (h.ended hs) (by rw [hcomma]; exact Token.noConfusion)
  have hle := h.remaining_le
  exact runs_next ((ih.items (s'.advances_advance.ended (h.ended hs)) (by omega)).bind fun _ _ _ =>
    runs_pure _)

end RunsExpressions

theorem runs_expressions (fuel : Nat) : RunsExpressions fuel := by
  induction fuel with
  | zero => constructor <;> intros <;> omega
  | succ fuel ih =>
    exact ⟨fun min hs => ih.climb_succ hs min, fun t hs => ih.operand_succ hs t,
      fun min left hs => ih.operators_succ hs min left, fun k left hs => ih.operator_succ hs k left,
      fun close hs => ih.list_succ hs close, ih.items_succ⟩

theorem takes_expression (hs : s.cursor.Ended) : Takes expression s :=
  takes_ahead ((runs_expressions _).climb .assignment hs (by omega))

/-! ## Statements -/

theorem runs_initialValue (hs : s.cursor.Ended) : Runs initialValue s := by
  refine runs_checked (fun _ => runs_next ?_) (runs_pure none)
  exact (takes_expression (s.advances_advance.ended hs)).runs.bind fun _ _ _ => runs_pure _

theorem runs_names {fuel : Nat} (hs : s.cursor.Ended) (hfuel : s.cursor.remaining + 1 ≤ fuel) :
    Runs (names fuel) s := by
  induction fuel generalizing s with
  | zero => omega
  | succ fuel ih =>
    rw [names]
    refine runs_expectIdentifier.bind fun name s' h => runs_checked (fun hcomma => ?_) (runs_pure _)
    have hlt := Trace.remaining_advance_lt (h.ended hs) (by rw [hcomma]; exact Token.noConfusion)
    have hle := h.remaining_le
    exact runs_next ((ih (s'.advances_advance.ended (h.ended hs)) (by omega)).bind fun _ _ _ =>
      runs_pure _)

theorem runs_parameters (hs : s.cursor.Ended) : Runs parameters s := by
  refine (runs_expect .leftParen).bind fun _ s' h => ?_
  show Runs (if s'.cursor.current.val == .symbol .rightParen then _ else _) s'
  split
  · exact (runs_pure []).closed .rightParen fun _ _ _ => runs_pure _
  · exact (runs_names (h.ended hs) (Nat.le_refl _)).closed .rightParen fun _ _ _ => runs_pure _

theorem runs_condition (hs : s.cursor.Ended) : Runs condition s :=
  (runs_expect .leftParen).bind fun _ _ h =>
    (takes_expression (h.ended hs)).runs.closed .rightParen fun _ _ _ => runs_pure _

/-- The readers of statements end, if they may nest some calls for each token that is left. -/
structure RunsStatements (fuel : Nat) : Prop where
  statement {s : Trace} : s.cursor.Ended → 3 * s.cursor.remaining + 1 ≤ fuel →
    Takes (statement fuel) s
  declaration {s : Trace} : s.cursor.Ended → s.cursor.current.val ≠ .endOfInput →
    3 * s.cursor.remaining + 2 ≤ fuel → Shortens (declaration fuel) s
  body {s : Trace} : s.cursor.Ended → 3 * s.cursor.remaining + 3 ≤ fuel → Runs (body fuel) s

namespace RunsStatements

variable {fuel : Nat} (ih : RunsStatements fuel) (hs : s.cursor.Ended)

include ih hs

theorem statement_succ (hfuel : 3 * s.cursor.remaining + 1 ≤ fuel + 1) :
    Takes (Reading.statement (fuel + 1)) s := by
  have hended := s.advances_advance.ended hs
  have hlt := Trace.remaining_advance_lt hs
  have hsemicolon : ∀ {s : Stmt} {s' : Trace}, Runs (do expect .semicolon; return s) s' :=
    fun {_ _} =>
    (runs_expect .semicolon).bind fun _ _ _ => runs_pure _
  rw [Reading.statement]
  refine takes_current ?_
  split
  -- `var`
  · refine takes_next (runs_expectIdentifier.bind fun _ _ h => ?_)
    exact (runs_initialValue (h.ended hended)).bind fun _ _ _ => hsemicolon
  -- `const`
  · refine takes_next (runs_expectIdentifier.bind fun _ _ h => ?_)
    refine (runs_initialValue (h.ended hended)).bind fun init _ _ => ?_
    cases init with
    | none => exact runs_fail _ _
    | some init => exact hsemicolon
  -- `function`
  · next hword =>
    have hlt := hlt (by rw [hword]; exact Token.noConfusion)
    refine takes_next (runs_expectIdentifier.bind fun _ _ h₁ => ?_)
    refine (runs_parameters (h₁.ended hended)).bind fun _ _ h₂ =>
      (runs_expect .leftBrace).bind fun _ s' h₃ => ?_
    have h := h₁.trans (h₂.trans h₃)
    have hle := h.remaining_le
    exact (ih.body (h.ended hended) (by omega)).bind fun _ _ _ => runs_pure _
  -- `if`
  · next hword =>
    have hlt := hlt (by rw [hword]; exact Token.noConfusion)
    refine takes_next ((runs_condition hended).bind fun _ s₁ h₁ => ?_)
    have hle₁ := h₁.remaining_le
    refine (ih.statement (h₁.ended hended) (by omega)).runs.bind fun _ s₂ h₂ => runs_current ?_
    split
    · have h := (h₁.trans h₂).trans s₂.advances_advance
      have hle := h.remaining_le
      exact runs_next ((ih.statement (h.ended hended) (by omega)).runs.bind fun _ _ _ =>
        runs_pure _)
    · exact runs_pure _
  -- `while`
  · next hword =>
    have hlt := hlt (by rw [hword]; exact Token.noConfusion)
    refine takes_next ((runs_condition hended).bind fun _ _ h => ?_)
    have hle := h.remaining_le
    exact (ih.statement (h.ended hended) (by omega)).runs.bind fun _ _ _ => runs_pure _
  -- `return`
  · refine takes_next ?_
    show Runs (if s.advance.cursor.current.val == .symbol .semicolon then _ else _) s.advance
    split
    · exact (runs_pure none).bind fun _ _ _ => (runs_expect .semicolon).spanned
    · refine ((takes_expression hended).runs.bind fun _ _ _ => runs_pure _).bind fun _ _ _ => ?_
      exact (runs_expect .semicolon).spanned
  -- `break` and `continue`
  · exact takes_next hsemicolon
  · exact takes_next hsemicolon
  -- a block
  · next hopen =>
    have hlt := hlt (by rw [hopen]; exact Token.noConfusion)
    exact takes_next ((ih.body hended (by omega)).bind fun _ _ _ => runs_pure _)
  -- an empty statement
  · exact takes_next (runs_pure _)
  -- an expression
  · exact Ends.closed .semicolon (takes_expression hs) fun _ _ _ => runs_pure _

theorem body_succ (hfuel : 3 * s.cursor.remaining + 3 ≤ fuel + 1) :
    Runs (Reading.body (fuel + 1)) s := by
  rw [Reading.body]
  show Runs (if (s.cursor.current.val == .symbol .rightBrace || s.cursor.current.val ==
    .endOfInput) then _ else _) s
  split
  · exact (runs_expect .rightBrace).bind fun _ _ _ => runs_pure []
  · next hmore =>
    have hend : s.cursor.current.val ≠ .endOfInput := by
      intro hend
      rw [hend] at hmore
      exact hmore rfl
    refine (ih.declaration hs hend (by omega)).bind fun _ s' h hlt => ?_
    exact (ih.body (h.ended hs) (by omega)).bind fun _ _ _ => runs_pure _

end RunsStatements

/-- **Every reader of statements ends**, if it may nest some calls for each token that is left. -/
theorem runs_statements (fuel : Nat) : RunsStatements fuel := by
  induction fuel with
  | zero => constructor <;> intros <;> omega
  | succ fuel ih =>
    exact ⟨ih.statement_succ, fun hs hend hfuel =>
      (ih.statement hs (by omega)).recovering hs hend, ih.body_succ⟩

/-- Reading a program ends at the end of input. -/
theorem statements_ends {fuel : Nat} (hs : s.cursor.Ended)
    (hfuel : 3 * s.cursor.remaining + 3 ≤ fuel) :
    ∃ program s', statements (m := Traced) fuel s = .ok program s' ∧ s.Advances s' ∧
      s'.cursor.current.val = .endOfInput := by
  induction fuel generalizing s with
  | zero => omega
  | succ fuel ih =>
    rw [statements]
    by_cases hend : s.cursor.current.val = .endOfInput
    · refine ⟨[], s, ?_, .refl s, hend⟩
      show (if s.cursor.current.val == .endOfInput then _ else _ : Traced Program) s = _
      rw [hend]
      rfl
    · obtain ⟨r, s₁, hr, h₁, hlt⟩ := (runs_statements fuel).declaration hs hend (by omega)
      obtain ⟨rest, s', hrest, h', hlast⟩ := ih (h₁.ended hs) (by omega)
      refine ⟨r.toList ++ rest, s', ?_, h₁.trans h', hlast⟩
      show (if s.cursor.current.val == .endOfInput then _ else _ : Traced Program) s = _
      rw [if_neg (by rwa [beq_iff_eq])]
      show EStateM.bind (declaration fuel) _ s = _
      rw [EStateM.bind, hr]
      show EStateM.bind (statements fuel) _ s₁ = _
      rw [EStateM.bind, hrest]
      rfl

end Traced

/-! ## Texts -/

/-- The tokens of a text that a program is made of: all but the invalid ones and the end of
input. -/
def Token.valid (source : String) : List (Located Token) :=
  (Token.scan source).words.filter (·.val != .invalid)

/-- The cursor at the first token of a text. -/
def Cursor.ofText (source : String) : Cursor := .ofTokens (Token.scan source).tokens

theorem Cursor.remaining_ofText (source : String) :
    (Cursor.ofText source).remaining = (Token.valid source).length := by
  obtain ⟨init, hinit, hwords⟩ := (Token.laid_scan source).ends
  have hvalid : Token.valid source = init.filter (·.val != .invalid) := by
    have hself : init.filter (·.val != .endOfInput) = init :=
      List.filter_eq_self.2 fun t ht => bne_iff_ne.2 (hwords t ht)
    rw [Token.valid, Scan.words, hinit, List.filter_append, hself]
    simp
  have hlength : ((Token.scan source).tokens.filter (·.val != .invalid)).length =
      (Token.valid source).length + 1 := by
    rw [hvalid, hinit, List.filter_append, List.length_append]
    rfl
  rw [Cursor.ofText, Cursor.ofTokens]
  split
  · next hnil => rw [hnil] at hlength; cases hlength
  · next hcons => rw [hcons] at hlength; exact Nat.succ.inj hlength

/-- **What is done to read a text.** Reading it, up to the end of input, gives the program and the
record.

* `traced`, `read`: the bound on the nesting of calls is not reached, and neither the record nor a
  larger bound changes what is read;
* `parsed`: the program is accepted unless an error was found, and not for any other reason;
* `consume`: every declaration begins before the end of input and takes a token at least;
* `calls`, `errors`: there are no more declarations, and no more errors recovered from, than valid
  tokens. -/
structure Program.Run (source : String) (program : Program) (s : Trace) : Prop where
  traced : statements (m := Traced) (Parser.statementFuel (.ofText source)) ⟨.ofText source, []⟩ =
    .ok program s
  read : ∀ fuel, Parser.statementFuel (.ofText source) ≤ fuel →
    Parser.statements fuel (.ofText source) = .ok program s.cursor
  parsed : Program.parse source = if (Token.scan source).errors = [] ∧
    s.cursor.errors = [] then .ok program
    else .error ⟨(Token.scan source).errors, s.cursor.errors.reverse⟩
  ended : s.cursor.current.val = .endOfInput
  consume : ∀ call ∈ s.calls, call.Consumes
  calls : s.calls.length ≤ (Token.valid source).length
  errors : s.cursor.errors.length ≤ (Token.valid source).length

/-- What is read with a record is read without it, also under a larger bound. -/
theorem Traced.read_eq {fuel fuel' : Nat} {c : Cursor} {program : Program} {s : Trace}
    (h : statements (m := Traced) fuel ⟨c, []⟩ = .ok program s) (hle : fuel ≤ fuel') :
    Parser.statements fuel' c = .ok program s.cursor := by
  have houtcome := Traced.erasure.statements hle ⟨c, []⟩ c rfl
  rw [h] at houtcome
  change SameOutcome _ _ (Parser.statements fuel' c) at houtcome
  generalize Parser.statements fuel' c = r at houtcome
  cases houtcome with
  | ok _ hcursor => rw [hcursor]

theorem Traced.ends_ofText (source : String) : ∃ program s,
    statements (m := Traced) (Parser.statementFuel (.ofText source)) ⟨.ofText source, []⟩ =
      .ok program s ∧
      Trace.Advances ⟨.ofText source, []⟩ s ∧ s.cursor.current.val = .endOfInput := by
  have hfuel : 3 * (Cursor.ofText source).remaining + 3 ≤
      Parser.statementFuel (.ofText source) := by
    rw [Parser.statementFuel]
    omega
  exact Traced.statements_ends (s := ⟨.ofText source, []⟩) (Cursor.ended_ofTokens_scan source) hfuel

/-- **Reading a text ends.** -/
theorem Program.parse_terminates (source : String) : ∃ program s, Program.Run source program s := by
  obtain ⟨program, s, htraced, hadvances, hend⟩ := Traced.ends_ofText source
  have hlength := Cursor.remaining_ofText source
  have hnone : (Cursor.ofText source).errors = [] := Cursor.errors_ofTokens _
  have hspent : s.calls.length + s.cursor.remaining ≤ 0 + (Cursor.ofText source).remaining :=
    hadvances.spent
  have herrors : s.cursor.errors.length + 0 ≤ (Cursor.ofText source).errors.length +
      s.calls.length := hadvances.errors
  rw [hnone, List.length_nil] at herrors
  have hparse := Traced.read_eq htraced (Nat.le_refl _)
  rw [Cursor.ofText] at hparse
  refine ⟨program, s, htraced, fun _ => Traced.read_eq htraced, ?_, hend, fun call hcall =>
    ?_, by omega, by omega⟩
  · simp only [Program.parse, hparse, Bool.and_eq_true, List.isEmpty_iff]
  · exact (hadvances.consume call hcall).resolve_left List.not_mem_nil

end Stackscript
