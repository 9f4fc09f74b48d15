import Stackscript.Proofs.LexicalErrors
import Stackscript.Proofs.LoweringFrame
import Stackscript.Proofs.Positions
import Stackscript.Proofs.ReadSpans
import Stackscript.Session

/-!
# Diagnostics point at characters

What is wrong with a text is found while its characters are scanned, while its tokens are read and
while its tree is lowered. In each case the span that is reported begins and ends at character
boundaries of the text. So the position that a report shows for it is a count of lines and
characters.

* `Builder.Within`, `Lower.Blames`: lowering reports spans of the tree, `blames_expr`,
  `blames_stmts`; **`LabelCode.errors_ofProgram`**;
* `Span.Bounded`: a span that cuts no character, kept by `Span.join`; `Token.bounded_scan`,
  `LexError.bounded_scan`;
* **`Program.parse_bounded`**: the spans of the tree of a text, or of what is wrong with it;
* `Report.ExactFor`, **`Report.exactFor`**.
-/

namespace Stackscript

variable {V : Span → Prop}

/-! ## Errors of lowering -/

/-- The spans of the errors that were recorded have a property. -/
def Builder.Within (V : Span → Prop) (b : Builder) : Prop := ∀ e ∈ b.errors, V e.span

theorem Builder.Within.of_errors {b b' : Builder} (h : b.Within V)
    (herrors : b'.errors = b.errors) : b'.Within V := by
  intro e he
  rw [herrors] at he
  exact h e he

namespace Lower

variable {α : Type}

/-- **An action reports spans that have the property**, as errors that it records and as the error
with which it fails. -/
abbrev Blames (V : Span → Prop) (x : Lower α) : Prop :=
  Upholds (Builder.Within V) (fun e => V e.span) x fun _ => True

theorem blames_pure (a : α) : Blames V (pure a) := upholds_pure trivial

theorem blames_fail {span : Span} (h : V span) (e : StaticError) :
    Blames V (fail span e : Lower α) := upholds_throw h

theorem blames_emit (i : Instr) : Blames V (emit i) := fun _ hb => .ok hb trivial

theorem blames_reserve : Blames V reserve := fun _ hb => .ok hb trivial

theorem blames_fresh : Blames V fresh := fun _ hb => .ok hb trivial

theorem blames_bindLabel (l : LabelId) : Blames V (Lower.bind l) := fun _ hb => .ok hb trivial

theorem blames_record {e : Located StaticError} (he : V e.span) : Blames V (record e) :=
  fun _ hb => .ok (List.forall_mem_cons.2 ⟨he, hb⟩) trivial

theorem blames_inScope {x : Lower α} (hx : Blames V x) (kind : ScopeKind) :
    Blames V (inScope kind x) := by
  intro b hb
  have hxb := hx { b with scopes := b.scopes.enter kind } hb
  unfold inScope
  generalize x { b with scopes := b.scopes.enter kind } = r at hxb ⊢
  cases hxb with
  | ok hb₁ _ => exact .ok hb₁ trivial
  | error hb₁ he => exact .error hb₁ he

theorem blames_recording {x : Lower Unit} (hx : Blames V x) : Blames V (recording x) := by
  intro b hb
  have hxb := hx b hb
  unfold recording
  generalize x b = r at hxb ⊢
  cases hxb with
  | ok hb₁ _ => exact .ok hb₁ trivial
  | error hb₁ he => exact blames_record he _ hb₁

theorem blames_declareAs {name : Located String} (h : V name.span) (storage : Storage)
    (owner : Option Nat) : Blames V (declareAs name storage owner) := by
  refine upholds_get.bind fun b hb => ?_
  split
  · exact (upholds_set (by exact hb)).bind fun _ _ => blames_pure _
  · exact blames_fail h _

theorem blames_declare {name : Located String} (h : V name.span) (constant : Bool) :
    Blames V (declare name constant) :=
  upholds_get.bind fun b _ => blames_declareAs h _ b.function

theorem blames_resolve (name : String) {span : Span} (h : V span) :
    Blames V (resolve name span) := by
  refine upholds_get.bind fun b hb => ?_
  split
  · exact blames_fail h _
  · split
    · exact blames_fail h _
    · split
      · exact (upholds_set (by exact hb)).bind fun _ _ => blames_fail h _
      · exact blames_pure _

theorem blames_checkIndexable {object : Expr} (h : object.Within V) :
    Blames V (checkIndexable object) := by
  unfold checkIndexable
  split
  · exact blames_fail h.span _
  · exact blames_fail h.span _
  · exact blames_fail h.span _
  · exact blames_pure ()

theorem blames_checkCall {span : Span} (hspan : V span) {callee : Expr} (h : callee.Within V)
    (args : List Expr) : Blames V (checkCall span callee args) := by
  unfold checkCall
  split
  · exact blames_fail h.span _
  · split
    · exact blames_fail hspan _
    · exact blames_pure ()

mutual

theorem blames_expr : (e : Expr) → e.Within V → Blames V (expr e)
  | .number .., _ | .string .., _ | .boolean _ true, _ | .boolean _ false, _ | .null _, _ =>
    blames_emit _
  | .array _ items, h => (blames_exprs items h.2).bind fun _ _ => blames_emit _
  | .ident _ name, h => (blames_resolve name h).bind fun _ _ => blames_emit _
  | .binary _ _ left right, h =>
    (blames_expr left h.2.1).bind fun _ _ => (blames_expr right h.2.2).bind fun _ _ => blames_emit _
  | .unary _ _ arg, h => (blames_expr arg h.2).bind fun _ _ => blames_emit _
  | .cond _ test yes no, h =>
    (blames_expr test h.2.1).bind fun _ _ => blames_reserve.bind fun _ _ =>
      blames_reserve.bind fun _ _ =>
      (blames_emit _).bind fun _ _ => blames_fresh.bind fun _ _ =>
        (blames_expr yes h.2.2.1).bind fun _ _ =>
      (blames_emit _).bind fun _ _ => (blames_bindLabel _).bind fun _ _ =>
        (blames_expr no h.2.2.2).bind fun _ _ =>
      blames_bindLabel _
  | .assign _ target value, h => by
    refine (blames_resolve target.val h.2.1).bind fun r _ => ?_
    obtain ⟨id, v⟩ := r
    dsimp only
    split
    · exact blames_fail h.2.1 _
    · exact (blames_expr value h.2.2).bind fun _ _ => (blames_emit _).bind fun _ _ => blames_emit _
  | .assignAt _ _ object position value, h =>
    (blames_checkIndexable h.2.2.1).bind fun _ _ => (blames_expr object h.2.2.1).bind fun _ _ =>
      (blames_expr position h.2.2.2.1).bind fun _ _ => (blames_expr value h.2.2.2.2).bind fun _ _ =>
        blames_emit _
  | .index _ object position, h =>
    (blames_checkIndexable h.2.1).bind fun _ _ => (blames_expr object h.2.1).bind fun _ _ =>
      (blames_expr position h.2.2).bind fun _ _ => blames_emit _
  | .call _ callee args, h =>
    (blames_checkCall h.1 h.2.1 args).bind fun _ _ => (blames_exprs args h.2.2).bind fun _ _ =>
      (blames_expr callee h.2.1).bind fun _ _ => blames_emit _

theorem blames_exprs : (es : List Expr) → Expr.WithinAll V es → Blames V (exprs es)
  | [], _ => blames_pure ()
  | e :: es, h => (blames_expr e h.1).bind fun _ _ => blames_exprs es h.2

end

theorem blames_initialValue (init : Option Expr) (h : Expr.WithinOptional V init) :
    Blames V (initialValue init) := by
  cases init with
  | none => exact blames_emit _
  | some e => exact blames_expr e (h e rfl)

theorem blames_declareAndStore {name : Located String} (h : V name.span) (constant : Bool) :
    Blames V (declareAndStore name constant) :=
  (blames_declare h constant).bind fun _ _ => blames_emit _

/-- A parameter that cannot be declared is reported where it stands. -/
theorem blames_parameters (owner : Nat) (ps : List (Located String)) (h : ∀ p ∈ ps, V p.span) :
    Blames V (parameters owner ps) := by
  induction ps with
  | nil => exact blames_pure []
  | cons p ps ih =>
    obtain ⟨hp, hps⟩ := List.forall_mem_cons.1 h
    intro b hb
    have hdeclare := blames_declareAs hp .functionMutable (some owner) b hb
    unfold parameters
    generalize declareAs p .functionMutable (some owner) b = r at hdeclare ⊢
    cases hdeclare with
    | ok hb₁ _ => exact ((ih hps).bind fun _ _ => blames_pure _) _ hb₁
    | error hb₁ he => exact ((blames_record he).bind fun _ _ => ih hps) _ hb₁

theorem blames_beginFunction {name : Located String} (h : V name.span)
    (params : List (Located String)) : Blames V (beginFunction name params) := by
  rw [beginFunction_eq]
  refine (blames_declare h true).bind fun id _ => ?_
  intro b hb
  dsimp only
  split
  · exact .error hb h
  · exact .ok (hb.of_errors rfl) trivial

theorem blames_inFunction (index : Nat) {action : Lower (List VarId)} (h : Blames V action) :
    Blames V (inFunction index action) := by
  intro b hb
  rw [inFunction_eq]
  have hinner := blames_inScope h .function { b with block := .empty, function := some index } hb
  generalize inScope .function action { b with block := .empty, function := some index } =
    r at hinner ⊢
  cases hinner with
  | ok hb₁ _ => exact .ok hb₁ trivial
  | error hb₁ he => exact .error hb₁ he

mutual

theorem blames_stmt : (s : Stmt) → s.Within V → Blames V (stmt s)
  | .var _ init, h =>
    (blames_initialValue init h.2).bind fun _ _ => blames_declareAndStore h.1 false
  | .const _ init, h => (blames_expr init h.2).bind fun _ _ => blames_declareAndStore h.1 true
  | .function _ params body, h => by
    refine (blames_beginFunction h.1 params).bind fun index _ => blames_inFunction index ?_
    refine (blames_parameters index params h.2.1).bind fun ids _ =>
      (blames_stmts body h.2.2).bind fun _ _ => ?_
    split
    · exact blames_pure ids
    · exact (blames_emit _).bind fun _ _ => (blames_emit _).bind fun _ _ => blames_pure ids
  | .expr e, h => (blames_expr e h).bind fun _ _ => blames_emit _
  | .block body, h => blames_inScope (blames_stmts body h) .normal
  | .ifThen test yes, h =>
    (blames_expr test h.1).bind fun _ _ => blames_reserve.bind fun _ _ =>
      (blames_emit _).bind fun _ _ =>
      blames_fresh.bind fun _ _ => (blames_stmt yes h.2).bind fun _ _ => blames_bindLabel _
  | .ifElse test yes no, h =>
    (blames_expr test h.1).bind fun _ _ => blames_reserve.bind fun _ _ =>
      (blames_emit _).bind fun _ _ =>
      blames_fresh.bind fun _ _ => (blames_stmt yes h.2.1).bind fun _ _ =>
        blames_reserve.bind fun _ _ =>
      (blames_emit _).bind fun _ _ => (blames_bindLabel _).bind fun _ _ =>
        (blames_stmt no h.2.2).bind fun _ _ =>
      blames_bindLabel _
  | .while test body, h =>
    blames_reserve.bind fun _ _ => blames_fresh.bind fun _ _ =>
      (blames_expr test h.1).bind fun _ _ =>
      (blames_emit _).bind fun _ _ => blames_fresh.bind fun _ _ =>
      (blames_inScope (blames_stmt body h.2) _).bind fun _ _ => (blames_emit _).bind fun _ _ =>
        blames_bindLabel _
  | .return value _, h => by
    refine upholds_get.bind fun b _ => ?_
    split
    · exact (blames_initialValue value h.1).bind fun _ _ => blames_emit _
    · exact blames_fail h.2 _
  | .break _, h | .continue _, h => by
    refine upholds_get.bind fun b _ => ?_
    split
    · exact blames_emit _
    · exact blames_fail h _
  | .empty, _ => blames_pure ()

theorem blames_stmts : (ss : List Stmt) → Stmt.WithinAll V ss → Blames V (stmts ss)
  | [], _ => blames_pure ()
  | s :: ss, h => (blames_recording (blames_stmt s h.1)).bind fun _ _ => blames_stmts ss h.2

end

theorem blames_program (p : Program) (h : Stmt.WithinAll V p) : Blames V (program p) :=
  (blames_inScope (blames_stmts p h) .normal).bind fun _ _ => blames_fresh.bind fun _ _ =>
    blames_emit _

end Lower

/-- **What is wrong with a tree is reported at spans of the tree.** -/
theorem LabelCode.errors_ofProgram {p : Program} {errors : List (Located StaticError)}
    (hp : Stmt.WithinAll V p)
    (h : LabelCode.ofProgram p = .error errors) : ∀ e ∈ errors, V e.span := by
  have hprogram := Lower.blames_program p hp .initial (List.forall_mem_nil _)
  unfold LabelCode.ofProgram at h
  generalize Lower.program p .initial = r at hprogram h
  cases hprogram with
  | ok hb _ =>
    dsimp only at h
    split at h
    · cases h
    · cases h
      exact fun e he => hb e (List.mem_reverse.1 he)
  | error hb he =>
    cases h
    intro e' he'
    obtain rfl | he' := List.mem_cons.1 (List.mem_reverse.1 he')
    · exact he
    · exact hb e' he'

/-! ## Bounded spans -/

/-- **A span that cuts no character** of a text. -/
structure Span.Bounded (source : String) (s : Span) : Prop where
  start : String.Pos.Raw.IsValid source ⟨s.start⟩
  stop : String.Pos.Raw.IsValid source ⟨s.stop⟩
  le : s.start ≤ s.stop

variable {source : String}

theorem Span.Bounded.join {a b : Span} (ha : a.Bounded source) (hb : b.Bounded source) :
    (a.join b).Bounded source := by
  refine ⟨?_, ?_, ?_⟩
  · rcases Nat.le_total a.start b.start with h | h
    · rw [Span.join, Nat.min_eq_left h]
      exact ha.start
    · rw [Span.join, Nat.min_eq_right h]
      exact hb.start
  · rcases Nat.le_total a.stop b.stop with h | h
    · rw [Span.join, Nat.max_eq_right h]
      exact hb.stop
    · rw [Span.join, Nat.max_eq_left h]
      exact ha.stop
  · have := ha.le
    simp only [Span.join]
    omega

theorem Span.bounded_of_covers {s : Span} (h : s.Covers 0 source.toList) : s.Bounded source := by
  obtain ⟨before, part, after, hsource, rfl⟩ := h
  rw [Nat.zero_add, ← byteLength_append]
  refine ⟨isValid_behind ⟨part ++ after, hsource.symm⟩, isValid_behind ⟨after, ?_⟩, ?_⟩
  · rw [hsource, List.append_assoc]
  · rw [byteLength_append]
    exact Nat.le_add_right _ _

theorem Span.bounded_empty (source : String) : Span.Bounded source ⟨0, 0⟩ :=
  bounded_of_covers ⟨[], [], source.toList, rfl, rfl⟩

theorem Token.bounded_scan (source : String) :
    ∀ t ∈ (Token.scan source).tokens, t.span.Bounded source := by
  intro t ht
  obtain ⟨before, after, hts⟩ := List.append_of_mem ht
  obtain ⟨text, gap, lexeme, rest, hsource, -, hspan, -, -⟩ := scan_around hts
  refine Span.bounded_of_covers ⟨text ++ gap, lexeme, rest, ?_, ?_⟩
  · rw [hsource, List.append_assoc]
  · rw [hspan, Nat.zero_add, ← byteLength_append]

theorem LexError.bounded_scan (source : String) :
    ∀ e ∈ (Token.scan source).errors, e.span.Bounded source :=
  fun e he => Span.bounded_of_covers (errors_scanFrom 0 source.toList e he).covers

/-- The cursor at the start of a text knows spans of its tokens only. -/
theorem Cursor.within_ofTokens {ts : List (Located Token)} (h : ∀ t ∈ ts, V t.span)
    (hstart : V ⟨0, 0⟩) : (Cursor.ofTokens ts).Within V := by
  have hvalid : ∀ t ∈ ts.filter (·.val != .invalid), V t.span :=
    fun t ht => h t (List.mem_of_mem_filter ht)
  unfold Cursor.ofTokens
  generalize ts.filter (·.val != .invalid) = us at hvalid
  cases us with
  | nil => exact ⟨hstart, hstart, hvalid, List.forall_mem_nil _⟩
  | cons u us =>
    obtain ⟨hu, hus⟩ := List.forall_mem_cons.1 hvalid
    exact ⟨hstart, hu, hus, List.forall_mem_nil _⟩

/-! ## Reading and lowering a text -/

/-- The statements of a text are read with spans that cut no character. -/
theorem Program.upheld_statements (source : String) (fuel : Nat) :
    Upheld (Cursor.Within (Span.Bounded source)) (Stop.Within (Span.Bounded source))
      (Stmt.WithinAll (Span.Bounded source))
        (Parser.statements fuel (Cursor.ofTokens (Token.scan source).tokens)) :=
  Parser.keepsTo_program (fun _ _ ha hb => ha.join hb) fuel _
    (Cursor.within_ofTokens (Token.bounded_scan source) (Span.bounded_empty source))

/-- **Whole characters are read and reported**, whether or not the text is a program. -/
theorem Program.parse_bounded (source : String) :
    (∃ p, Program.parse source = .ok p ∧ Stmt.WithinAll (Span.Bounded source) p) ∨
      ∃ f, Program.parse source = .error f ∧ (∀ e ∈ f.lexical, e.span.Bounded source) ∧
        ∀ e ∈ f.syntactic, e.span.Bounded source := by
  have hread := Program.upheld_statements source
    (Parser.statementFuel (Cursor.ofTokens (Token.scan source).tokens))
  have hlexical := LexError.bounded_scan source
  unfold Program.parse
  dsimp only
  generalize Parser.statements _ _ = r at hread
  cases hread with
  | @ok p c hc hp =>
    dsimp only
    split
    · exact .inl ⟨p, rfl, hp⟩
    · exact .inr ⟨_, rfl, hlexical, fun e he => hc.errors e (List.mem_reverse.1 he)⟩
  | error hc _ => exact .inr ⟨_, rfl, hlexical, fun e he => hc.errors e (List.mem_reverse.1 he)⟩

theorem Program.within_parse {p : Program} (h : Program.parse source = .ok p) :
    Stmt.WithinAll (Span.Bounded source) p := by
  obtain ⟨p', hp', hwithin⟩ | ⟨f, hf, -⟩ := Program.parse_bounded source
  · cases h.symm.trans hp'
    exact hwithin
  · cases h.symm.trans hf

theorem Program.errors_parse {f : SyntaxFailure} (h : Program.parse source = .error f) :
    (∀ e ∈ f.lexical, e.span.Bounded source) ∧ ∀ e ∈ f.syntactic, e.span.Bounded source := by
  obtain ⟨p, hp, -⟩ | ⟨f', hf', hbounded⟩ := Program.parse_bounded source
  · cases h.symm.trans hp
  · cases h.symm.trans hf'
    exact hbounded

/-- What is wrong with a text is shown at the place where it starts. -/
theorem Report.mem_ofNotices {notices : List Notice} (h : ∀ n ∈ notices, n.span.Bounded source)
    {entry : Position × Notice} (hentry : entry ∈ (Report.ofNotices source notices).entries) :
    entry.2.span.Bounded source ∧ entry.1.line = 1 + lineEnds source entry.2.span.start ∧
      Position.ColumnAt source entry.2.span.start entry.1.column := by
  obtain ⟨n, hn, rfl⟩ := List.mem_map.1 hentry
  exact ⟨h n hn, (LineIndex.countedAt_position source n.span.start).at_boundary (h n hn).start⟩

/-- **The diagnostics of a text are exact.**

* `counted`: the position of an offset is the direct count of lines and characters;
* `increasing`: of two character boundaries, the later one has the later position;
* `malformed`, `unsound`: all spans that reading and lowering report are those of whole characters;
* `shown`: so each entry of a report stands at a character boundary and shows the direct count for
  it. -/
structure Report.ExactFor (source : String) : Prop where
  counted : ∀ offset, ((LineIndex.ofText source).position offset).CountedAt source offset
  increasing : ∀ a b, String.Pos.Raw.IsValid source ⟨a⟩ → String.Pos.Raw.IsValid source ⟨b⟩ →
    a < b → ((LineIndex.ofText source).position a).Before ((LineIndex.ofText source).position b)
  malformed : ∀ f, Program.parse source = .error f →
    (∀ e ∈ f.lexical, e.span.Bounded source) ∧ ∀ e ∈ f.syntactic, e.span.Bounded source
  unsound : ∀ p errors, Program.parse source = .ok p → LabelCode.ofProgram p = .error errors →
    ∀ e ∈ errors, e.span.Bounded source
  shown : ∀ (settings : Settings) r, settings.labelCode source = .error r →
    ∀ entry ∈ r.report.entries, entry.2.span.Bounded source ∧
      entry.1.line = 1 + lineEnds source entry.2.span.start ∧
      Position.ColumnAt source entry.2.span.start entry.1.column

/-- A text that is rejected cannot be read, or its tree breaks a rule. -/
theorem Settings.labelCode_eq_error {settings : Settings} {r : Rejection}
    (h : settings.labelCode source = .error r) :
    (∃ f, Program.parse source = .error f ∧ r = .ofSyntaxFailure source f) ∨
      ∃ p errors, Program.parse source = .ok p ∧ LabelCode.ofProgram p = .error errors ∧
        r = .ofStaticErrors source errors := by
  unfold Settings.labelCode Program.read at h
  cases hparse : Program.parse source with
  | error f =>
    rw [hparse] at h
    cases h
    exact .inl ⟨f, rfl, rfl⟩
  | ok p =>
    rw [hparse] at h
    have hlower : (do
        let code ← (LabelCode.ofProgram p).mapError (Rejection.ofStaticErrors source)
        return if settings.folding then code.fold else code : Except Rejection LabelCode) =
        .error r := h
    cases hcode : LabelCode.ofProgram p with
    | error errors =>
      rw [hcode] at hlower
      cases hlower
      exact .inr ⟨p, errors, rfl, hcode, rfl⟩
    | ok code =>
      rw [hcode] at hlower
      cases hlower

theorem Report.exactFor (source : String) : Report.ExactFor source where
  counted := LineIndex.countedAt_position source
  increasing _ _ ha hb hlt := LineIndex.before_position ha hb hlt
  malformed _ := Program.errors_parse
  unsound _ _ hp := LabelCode.errors_ofProgram (Program.within_parse hp)
  shown settings r h := by
    obtain ⟨f, hparse, rfl⟩ | ⟨p, errors, hparse, hcode, rfl⟩ := Settings.labelCode_eq_error h
    · obtain ⟨hlexical, hsyntactic⟩ := Program.errors_parse hparse
      refine fun entry => Report.mem_ofNotices (List.forall_mem_append.2 ⟨?_, ?_⟩)
      · exact List.forall_mem_map.2 hlexical
      · exact List.forall_mem_map.2 hsyntactic
    · exact fun entry => Report.mem_ofNotices
        (List.forall_mem_map.2 (LabelCode.errors_ofProgram (Program.within_parse hparse) hcode))

/-- A text in which an error stands behind characters of more than one byte. -/
def umlautSource : String := "\"é\";\n\"ß\" + x;"

theorem Report.exactFor_umlaut :
    ∃ r entry, Settings.standard.labelCode umlautSource = .error r ∧ entry ∈ r.report.entries ∧
      entry.2.span = ⟨13, 14⟩ ∧ entry.1 = ⟨2, 7⟩ ∧ entry.2.span.Bounded umlautSource ∧
      entry.1.line = 1 + lineEnds umlautSource entry.2.span.start ∧
      Position.ColumnAt umlautSource entry.2.span.start entry.1.column := by
  let notice : Notice := ⟨.lowering, ⟨13, 14⟩, StaticError.message (.unknownVariable "x")⟩
  have h : Settings.standard.labelCode umlautSource = .error (.unsound ⟨[(⟨2, 7⟩, notice)]⟩) := by
    decide +kernel
  have hentry : (⟨2, 7⟩, notice) ∈ (Rejection.unsound ⟨[(⟨2, 7⟩, notice)]⟩).report.entries :=
    List.mem_singleton_self _
  exact ⟨_, _, h, hentry, rfl, rfl, (Report.exactFor umlautSource).shown _ _ h _ hentry⟩

end Stackscript
