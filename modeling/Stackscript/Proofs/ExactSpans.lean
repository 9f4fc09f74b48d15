import Stackscript.Proofs.ExpressionParts
import Stackscript.Proofs.ScanBoundaries
import Stackscript.Proofs.StatementComplete

/-!
# Exact spans

The span of an expression tells where its text stands: the text at the span of a node, taken on its
own, is read as an expression up to its end, with the tree of the node. All spans in it are smaller
by the start of the node's own span. Three facts make this up. The tokens of the node are those of
its text, as that is cut at the ends of tokens. The grammar does not look at spans but to join them,
so that tokens which are moved derive the tree that is moved. And the tree of some tokens is unique.

* `Expr.mapSpan`, `Expr.shift`: trees that are moved;
* `Grammar.Derives.mapSpan`, `Grammar.Derives.unique`;
* `scan_part`: the text of some tokens in a row;
* `Expr.ReadAt`, `Expr.ExactIn`: what a span says;
* **`Program.spans_exact`**: the span of every node says it.
-/

namespace Stackscript

/-! ## Moved trees -/

namespace Expr

mutual

/-- The expression with each of its spans replaced by the function's value for it. -/
def mapSpan (f : Span → Span) : Expr → Expr
  | .number s n => .number (f s) n
  | .string s t => .string (f s) t
  | .boolean s b => .boolean (f s) b
  | .null s => .null (f s)
  | .array s items => .array (f s) (mapSpanAll f items)
  | .ident s name => .ident (f s) name
  | .binary s op left right => .binary (f s) op (left.mapSpan f) (right.mapSpan f)
  | .unary s op arg => .unary (f s) op (arg.mapSpan f)
  | .cond s test yes no => .cond (f s) (test.mapSpan f) (yes.mapSpan f) (no.mapSpan f)
  | .assign s target value => .assign (f s) ⟨f target.span, target.val⟩ (value.mapSpan f)
  | .assignAt s target object position value =>
    .assignAt (f s) (f target) (object.mapSpan f) (position.mapSpan f) (value.mapSpan f)
  | .index s object position => .index (f s) (object.mapSpan f) (position.mapSpan f)
  | .call s callee args => .call (f s) (callee.mapSpan f) (mapSpanAll f args)

def mapSpanAll (f : Span → Span) : List Expr → List Expr
  | [] => []
  | e :: es => e.mapSpan f :: mapSpanAll f es

end

/-- The expression in a text that begins `n` bytes further on. -/
def shift (n : Nat) (e : Expr) : Expr := e.mapSpan (Span.shift n)

theorem span_mapSpan (f : Span → Span) (e : Expr) : (e.mapSpan f).span = f e.span := by
  cases e <;> simp only [mapSpan, span]

theorem mapSpan_withSpan (f : Span → Span) (s : Span) (e : Expr) :
    (e.withSpan s).mapSpan f = (e.mapSpan f).withSpan (f s) := by
  cases e <;> simp only [mapSpan, withSpan]

end Expr

/-- The value at another place. -/
def Located.mapSpan {α : Type} (f : Span → Span) (a : Located α) : Located α := ⟨f a.span, a.val⟩

namespace Grammar

theorem lastSpan_map (f : Span → Span) {ts : List (Located Token)} (hts : ts ≠ []) :
    lastSpan (ts.map (·.mapSpan f)) = f (lastSpan ts) := by
  obtain ⟨init, last, rfl⟩ := (List.eq_nil_or_concat' ts).resolve_left hts
  simp [lastSpan, Located.mapSpan]

variable {f : Span → Span}

mutual

/-- **The grammar does not look at spans** but to join them. -/
theorem Derives.mapSpan (hf : ∀ a b, f (a.join b) = (f a).join (f b)) :
    ∀ {p : Precedence} {ts : List (Located Token)} {e : Expr}, Derives p ts e →
      Derives p (ts.map (·.mapSpan f)) (e.mapSpan f)
  | _, _, _, .tighter hpq h => .tighter hpq (h.mapSpan hf)
  | _, _, _, .assign h hvalue => by
    rw [List.map_append, Expr.mapSpan, hf, ← lastSpan_map f hvalue.starts.ne_nil]
    exact .assign (h.mapSpan hf) (hvalue.mapSpan hf)
  | _, _, _, .assignAt h hvalue => by
    have htarget := h.mapSpan hf
    rw [Expr.mapSpan] at htarget
    rw [List.map_append, Expr.mapSpan, hf, ← lastSpan_map f hvalue.starts.ne_nil]
    exact .assignAt htarget (hvalue.mapSpan hf)
  | _, _, _, .cond h hyes hno => by
    rw [List.map_append, List.map_cons, List.map_append, Expr.mapSpan, hf,
      ← lastSpan_map f hno.starts.ne_nil, ← Expr.span_mapSpan f]
    exact .cond (h.mapSpan hf) (hyes.mapSpan hf) (hno.mapSpan hf)
  | _, _, _, .binary hs hpq h hright => by
    rw [List.map_append, Expr.mapSpan, hf,
      ← lastSpan_map f hright.starts.ne_nil, ← Expr.span_mapSpan f]
    exact .binary hs hpq (h.mapSpan hf) (hright.mapSpan hf)
  | _, _, _, .negate h => by
    rw [Expr.mapSpan, hf, ← Expr.span_mapSpan f]
    exact .negate (h.mapSpan hf)
  | _, _, _, .not h => by
    rw [Expr.mapSpan, hf, ← Expr.span_mapSpan f]
    exact .not (h.mapSpan hf)
  | _, _, _, .call h hargs => by
    rw [List.map_append, List.map_cons, List.map_append, Expr.mapSpan, hf, ← Expr.span_mapSpan f]
    exact .call (h.mapSpan hf) (hargs.mapSpan hf)
  | _, _, _, .index h hposition => by
    rw [List.map_append, List.map_cons, List.map_append, Expr.mapSpan, hf, ← Expr.span_mapSpan f]
    exact .index (h.mapSpan hf) (hposition.mapSpan hf)
  | _, _, _, .primary h => .primary (h.mapSpan hf)

theorem Primary.mapSpan (hf : ∀ a b, f (a.join b) = (f a).join (f b)) :
    ∀ {ts : List (Located Token)} {e : Expr}, Primary ts e →
      Primary (ts.map (·.mapSpan f)) (e.mapSpan f)
  | _, _, .number span n => .number (f span) n
  | _, _, .string span s => .string (f span) s
  | _, _, .true span => .true (f span)
  | _, _, .false span => .false (f span)
  | _, _, .null span => .null (f span)
  | _, _, .ident span name => .ident (f span) name
  | _, _, .parens h => by
    rw [List.map_cons, List.map_append, Expr.mapSpan_withSpan, hf]
    exact .parens (h.mapSpan hf)
  | _, _, .array h => by
    rw [List.map_cons, List.map_append, Expr.mapSpan, hf]
    exact .array (h.mapSpan hf)

theorem Listed.mapSpan (hf : ∀ a b, f (a.join b) = (f a).join (f b)) :
    ∀ {ts : List (Located Token)} {es : List Expr}, Listed ts es →
      Listed (ts.map (·.mapSpan f)) (Expr.mapSpanAll f es)
  | _, _, .nil => .nil
  | _, _, .items h => .items (h.mapSpan hf)

theorem Items.mapSpan (hf : ∀ a b, f (a.join b) = (f a).join (f b)) :
    ∀ {ts : List (Located Token)} {es : List Expr}, Items ts es →
      Items (ts.map (·.mapSpan f)) (Expr.mapSpanAll f es)
  | _, _, .one h => .one (h.mapSpan hf)
  | _, _, .cons h hrest => by
    rw [List.map_append, Expr.mapSpanAll]
    exact .cons (h.mapSpan hf) (hrest.mapSpan hf)

end

/-! ## Reading the tokens of an expression -/

/-- The tokens of an expression are read if what follows them does not continue it. -/
theorem Derives.expression_eq_ok {ts : List (Located Token)} {e : Expr} {c c' : Cursor}
    (h : Derives .assignment ts e) (hts : c.Passes ts c') (hnext : c'.current.val.isInfix = false) :
    Parser.expression c = .ok e c' := by
  refine h.reads.alone hts (c'.stopsBelow_of_isInfix hnext _) (Nat.le_refl _) _ ?_
  have hremaining := hts.remaining
  show 5 * ts.length + 1 ≤ 5 * c.remaining + 5
  omega

/-- **Tokens have one tree.** -/
theorem Derives.unique {ts : List (Located Token)} {e e' : Expr} (h : Derives .assignment ts e)
    (h' : Derives .assignment ts e') : e = e' := by
  let last : Located Token := ⟨⟨0, 0⟩, .endOfInput⟩
  obtain ⟨t, rest, rfl, -⟩ := h.starts
  have hts : Cursor.Passes ⟨last, t, rest ++ [last], []⟩ (t :: rest)
      ⟨(t :: rest).getLast?.getD last, last, [], []⟩ := ⟨rfl, rfl, rfl⟩
  cases (h.expression_eq_ok hts rfl).symm.trans (h'.expression_eq_ok hts rfl)
  rfl

end Grammar

/-! ## Texts -/

/-- The span moved back by `n` bytes. -/
def Span.back (n : Nat) (s : Span) : Span := ⟨s.start - n, s.stop - n⟩

theorem Span.shift_join (n : Nat) (a b : Span) :
    (a.join b).shift n = (a.shift n).join (b.shift n) := by
  simp only [join, shift, Nat.add_min_add_right, Nat.add_max_add_right]

theorem Span.back_join (n : Nat) (a b : Span) : (a.join b).back n = (a.back n).join (b.back n) := by
  simp only [join, back, Nat.sub_min_sub_right, Nat.sub_max_sub_right]

/-- Only the last token of a text is the end of input. -/
theorem Token.words_of_scan {source : String} {ts : List (Located Token)} {stop : Span}
    (h : (Token.scan source).tokens = ts ++ [⟨stop, .endOfInput⟩]) :
    ∀ t ∈ ts, t.val ≠ .endOfInput := by
  obtain ⟨init, hinit, hwords⟩ := (Token.laid_scan source).ends
  rw [h] at hinit
  rwa [(List.append_inj' hinit rfl).1]

theorem Laid.start_lt_stop {errors : List (Located LexError)} {pos : Nat} {cs : List Char}
    {ts : List (Located Token)} (h : Laid errors pos cs ts) :
    ∀ t ∈ ts, t.val ≠ .endOfInput → t.span.start < t.span.stop := by
  induction h with
  | last => exact List.forall_mem_singleton.2 fun hval => absurd rfl hval
  | token _ hlexeme hspan _ _ _ ih =>
    refine List.forall_mem_cons.2 ⟨fun _ => ?_, ih⟩
    rw [hspan]
    exact Nat.lt_add_of_pos_right (byteLength_pos hlexeme)

theorem Grammar.ordered_of_scan {source : String} {ts : List (Located Token)} {stop : Span}
    (h : (Token.scan source).tokens = ts ++ [⟨stop, .endOfInput⟩]) : Grammar.Ordered ts := by
  have hlaid := Token.laid_scan source
  rw [h] at hlaid
  exact ⟨(List.pairwise_append.1 hlaid.ordered).1, fun t ht =>
    hlaid.start_lt_stop t (List.mem_append_left _ ht) (Token.words_of_scan h t ht)⟩

/-- **The text of some tokens in a row**, taken on its own, has these tokens, moved to its start. -/
theorem scan_part {source : String} {before used after : List (Located Token)} {stop : Span}
    (htokens : (Token.scan source).tokens = before ++ (used ++ after) ++ [⟨stop, .endOfInput⟩])
    (herrors : (Token.scan source).errors = []) (hused : used ≠ []) :
    ∃ pre mid post : String, source = pre ++ mid ++ post ∧
      pre.utf8ByteSize = (Grammar.extent used).start ∧
      pre.utf8ByteSize + mid.utf8ByteSize = (Grammar.extent used).stop ∧
      (Token.scan mid).errors = [] ∧
      ∃ ts last, (Token.scan mid).tokens = ts ++ [⟨last, .endOfInput⟩] ∧
        ts.map (·.shift (Grammar.extent used).start) = used := by
  have hwords := Token.words_of_scan htokens
  obtain ⟨t, rest, rfl⟩ := List.exists_cons_of_ne_nil hused
  have hsource : (scanFrom 0 source.toList).tokens = before ++ t ::
      (rest ++ (after ++ [⟨stop, .endOfInput⟩])) :=
    htokens.trans (by simp)
  -- the text is cut before the first of the tokens, and then behind the last of them
  obtain ⟨pre, text, hpre, hstart, htext⟩ := scanFrom_resume
    (fun u hu => hwords u (List.mem_append_left _ hu)) (hwords t (by simp)) hsource herrors
  obtain ⟨mid, post, rfl, hstop, hmid⟩ :=
    scanFrom_part (congrArg Scan.tokens htext) (congrArg Scan.errors htext) fun u hu =>
      hwords u (List.mem_append_right _ (List.mem_append_left _ hu))
  have hextent : Grammar.extent (t :: rest) = ⟨t.span.start, endOf t.span.start (t :: rest)⟩ := by
    rw [Grammar.extent, endOf, Grammar.lastSpan, List.getLast?_eq_some_getLast hused]
    rfl
  have hscan : Token.scan (String.ofList mid) = scanFrom 0 mid := by
    rw [Token.scan, String.toList_ofList]
  have hmoved := scanFrom_add t.span.start 0 mid
  rw [Nat.zero_add, hmid] at hmoved
  obtain ⟨hts, hnone⟩ := Scan.mk.inj hmoved
  obtain ⟨ts, last, hwhole, hts, hlast⟩ := List.map_eq_append_iff.1 hts.symm
  obtain ⟨eof, rfl, heof⟩ := List.map_eq_singleton_iff.1 hlast
  rw [hextent]
  refine ⟨.ofList pre, .ofList mid, .ofList post, ?_, ?_, ?_, ?_, ts, eof.span, ?_, hts⟩
  · rw [← String.ofList_append, ← String.ofList_append, List.append_assoc,
      ← hpre, String.ofList_toList]
  · rw [utf8ByteSize_ofList, ← hstart, Nat.zero_add]
  · rw [utf8ByteSize_ofList, utf8ByteSize_ofList, ← hstop, ← hstart, Nat.zero_add]
  · rw [hscan]
    exact List.map_eq_nil_iff.1 hnone.symm
  · have hval : eof.val = .endOfInput := congrArg Located.val heof
    rw [hscan, hwhole, ← hval]

/-- **The part of a text at a span, taken on its own, is read up to its end as an expression.** The
expression is the given one when its spans are moved to where the part begins. -/
def Expr.ReadAt (source : String) (s : Span) (e : Expr) : Prop :=
  ∃ pre mid post : String, source = pre ++ mid ++ post ∧ pre.utf8ByteSize = s.start ∧
    pre.utf8ByteSize + mid.utf8ByteSize = s.stop ∧ (Token.scan mid).errors = [] ∧
    ∃ read c, Parser.expression (.ofTokens (Token.scan mid).tokens) = .ok read c ∧
      c.current.val = .endOfInput ∧ read.shift s.start = e

theorem Grammar.Derives.readAt {source : String} {before used after : List (Located Token)}
    {stop : Span} {e : Expr} (h : Derives .assignment used e)
    (htokens : (Token.scan source).tokens = before ++ (used ++ after) ++ [⟨stop, .endOfInput⟩])
    (herrors : (Token.scan source).errors = []) : e.ReadAt source (extent used) := by
  obtain ⟨pre, mid, post, hsource, hstart, hstop, hnone, ts, last, hmid, hts⟩ :=
    scan_part htokens herrors h.starts.ne_nil
  refine ⟨pre, mid, post, hsource, hstart, hstop, hnone, ?_⟩
  generalize (extent used).start = n at hts
  -- moved back, the tokens derive the tree that is moved back
  have hback : used.map (·.mapSpan (Span.back n)) = ts := by
    rw [← hts, List.map_map]
    refine (List.map_congr_left fun t _ => ?_).trans (List.map_id ts)
    simp [Located.mapSpan, Located.shift, Span.back, Span.shift]
  have hread := h.mapSpan (Span.back_join n)
  rw [hback] at hread
  have hpass : (Cursor.ofTokens (Token.scan mid).tokens).Passes ts
      ⟨ts.getLast?.getD (Cursor.ofTokens (Token.scan mid).tokens).previous, ⟨last, .endOfInput⟩, [],
        (Cursor.ofTokens (Token.scan mid).tokens).errors⟩ :=
    ⟨(Cursor.tokens_ofTokens_scan hnone).trans hmid, rfl, rfl⟩
  refine ⟨_, _, hread.expression_eq_ok hpass rfl, rfl, ?_⟩
  -- and moved forward again, they are the tokens of the text and have its tree
  have hforth := hread.mapSpan (Span.shift_join n)
  rw [show ts.map (·.mapSpan (Span.shift n)) = used from hts] at hforth
  exact hforth.unique h

/-- The tokens of a program that is accepted. -/
theorem Program.tokens_of_parse {source : String} {program : Program}
    (h : Program.parse source = .ok program) :
    (Token.scan source).errors = [] ∧
      ∃ ts stop, (Token.scan source).tokens = ts ++ [⟨stop, .endOfInput⟩] ∧
        Grammar.Statements ts program := by
  obtain ⟨hscan, c, hread, herrors⟩ := Program.parse_eq_ok.1 h
  obtain ⟨ts, hpass, hstatements, hend⟩ :=
    Parser.statements_sound (Cursor.ended_ofTokens_scan source) herrors hread
  have hwhole := (Cursor.tokens_ofTokens_scan hscan).symm.trans hpass.whole
  refine ⟨hscan, ts, c.current.span, ?_, hstatements⟩
  rw [hwhole, Cursor.tokens, Cursor.upcoming_eq_nil hwhole hend, ← hend]

/-- **What the span of an expression says** about the text in which it stands.

* `tokens`: some tokens in a row derive the expression, and its span goes from the start of the
  first of them to the end of the last;
* `inside`, `disjoint`: the spans of what is directly below it stand in its own span, one behind the
  other;
* `alone`: the part of the text at the span, taken on its own, is read as the expression. -/
structure Expr.ExactIn (source : String) (e : Expr) : Prop where
  tokens : ∃ before used after first last, (Token.scan source).tokens = before ++ used ++ after ∧
    Grammar.Derives .assignment used e ∧ used.head? = some first ∧ used.getLast? = some last ∧
    e.span = ⟨first.span.start, last.span.stop⟩
  inside : ∀ d ∈ e.children,
    e.span.start ≤ d.span.start ∧ d.span.start < d.span.stop ∧ d.span.stop ≤ e.span.stop
  disjoint : e.children.Pairwise (·.span.stop ≤ ·.span.start)
  alone : e.ReadAt source e.span

/-- **Spans are exact**, for every node of every program that is accepted. -/
theorem Program.spans_exact {source : String} {program : Program}
    (h : Program.parse source = .ok program) {e : Expr}
    (he : program.Node e) : e.ExactIn source := by
  obtain ⟨herrors, ts, stop, htokens, hstatements⟩ := Program.tokens_of_parse h
  obtain ⟨root, hroot, hnode⟩ := he
  obtain ⟨before, used, after, rfl, hused⟩ := (hstatements.contains.part root hroot).node hnode
  have hordered := (Grammar.ordered_of_scan htokens).of_append.2.of_append.1
  have hspan := hused.span_eq hordered
  constructor
  case tokens =>
    obtain ⟨first, rest, rfl, -⟩ := hused.starts
    refine ⟨before, first :: rest, after ++ [⟨stop, .endOfInput⟩], first,
      (first :: rest).getLast (List.cons_ne_nil _ _), ?_, hused, rfl,
      List.getLast?_eq_some_getLast _, ?_⟩
    · rw [htokens]
      simp
    · rw [hspan, Grammar.extent, Grammar.lastSpan,
        List.getLast?_eq_some_getLast (List.cons_ne_nil _ _)]
      rfl
  case inside =>
    rw [hspan]
    exact hused.children.inside hordered
  case disjoint => exact hused.children.disjoint hordered
  case alone =>
    rw [hspan]
    exact hused.readAt htokens herrors

/-- A sum in parentheses, with a comment in it, as the place of an element that is assigned. -/
def assignedPlace : Expr := .binary ⟨2, 12⟩ .add (.ident ⟨3, 4⟩ "a") (.number ⟨10, 11⟩ (.ofNat 1))

/-- The tree of `x[(a/*)*/+1)]=2;`. -/
def elementAssignment : Program :=
  [.expr (.assignAt ⟨0, 15⟩ ⟨0, 13⟩ (.ident ⟨0, 1⟩ "x") assignedPlace
    (.number ⟨14, 15⟩ (.ofNat 2)))]

/-- The place, whose text is `(a/*)*/+1)`. -/
theorem Program.spans_exact_parentheses :
    Program.parse "x[(a/*)*/+1)]=2;" = .ok elementAssignment ∧
      Program.Node elementAssignment assignedPlace ∧ assignedPlace.ExactIn "x[(a/*)*/+1)]=2;" := by
  have htokens : (Token.scan "x[(a/*)*/+1)]=2;").tokens =
      [⟨⟨0, 1⟩, .identifier "x"⟩, ⟨⟨1, 2⟩, .symbol .leftBracket⟩, ⟨⟨2, 3⟩, .symbol .leftParen⟩,
        ⟨⟨3, 4⟩, .identifier "a"⟩, ⟨⟨9, 10⟩, .symbol .plus⟩, ⟨⟨10, 11⟩, .number (.ofNat 1)⟩,
        ⟨⟨11, 12⟩, .symbol .rightParen⟩, ⟨⟨12, 13⟩, .symbol .rightBracket⟩,
        ⟨⟨13, 14⟩, .symbol .equal⟩, ⟨⟨14, 15⟩, .number (.ofNat 2)⟩, ⟨⟨15, 16⟩, .symbol .semicolon⟩,
        ⟨⟨16, 16⟩, .endOfInput⟩] := by
    decide +kernel
  have herrors : (Token.scan "x[(a/*)*/+1)]=2;").errors = [] := by decide +kernel
  have hparse : Program.parse "x[(a/*)*/+1)]=2;" = .ok elementAssignment := by
    simp only [Program.parse, htokens, herrors]
    rfl
  have hnode : Program.Node elementAssignment assignedPlace := by
    refine ⟨_, List.mem_singleton.2 rfl, ?_⟩
    apply Expr.NodeOf.child List.mem_cons_self
    exact .child (List.mem_cons_of_mem _ List.mem_cons_self) .self
  exact ⟨hparse, hnode, Program.spans_exact hparse hnode⟩

end Stackscript
