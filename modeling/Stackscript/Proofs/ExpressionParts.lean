import Stackscript.Proofs.StatementGrammar
import Mathlib.Data.List.Basic

/-!
# The tokens of the parts of a tree

Every expression in a tree that the grammar derives is itself derived, by some of the tokens in a
row. Those below one expression stand in its tokens one behind the other, with operators and
brackets between them. As tokens do not overlap, the span of an expression goes from the start of
its first token to the end of its last one.

* `Expr.children`, `Expr.NodeOf`, `Stmt.expressions`, `Program.Node`: the expressions in a tree;
* `Grammar.Contains`: tokens that hold some expressions, one behind the other;
* **`Grammar.Derives.children`**, **`Grammar.Statements.contains`**: what the tokens of a tree hold;
* `Grammar.Part`, `Grammar.Part.node`: the tokens of one node;
* `Grammar.Ordered`, `Grammar.extent`, **`Grammar.Derives.span_eq`**: the span of an expression;
* `Grammar.Contains.inside`, `Grammar.Contains.disjoint`: the spans of what tokens hold.
-/

namespace Stackscript

/-! ## Nodes -/

namespace Expr

/-- The expressions directly below an expression, from left to right. The target of an assignment is
one of them. -/
def children : Expr → List Expr
  | .number .. | .string .. | .boolean .. | .null _ | .ident .. => []
  | .array _ items => items
  | .binary _ _ left right => [left, right]
  | .unary _ _ arg => [arg]
  | .cond _ test yes no => [test, yes, no]
  | .assign _ target value => [.ident target.span target.val, value]
  | .assignAt _ target object position value => [.index target object position, value]
  | .index _ object position => [object, position]
  | .call _ callee args => callee :: args

theorem children_withSpan (s : Span) (e : Expr) : (e.withSpan s).children = e.children := by
  cases e <;> rfl

theorem span_withSpan (s : Span) (e : Expr) : (e.withSpan s).span = s := by cases e <;> rfl

/-- An expression is a node of another: it is the other one, or a node of an expression directly
below it. -/
inductive NodeOf (e : Expr) : Expr → Prop where
  | self : NodeOf e e
  | child {child parent : Expr} : child ∈ parent.children → NodeOf e child → NodeOf e parent

end Expr

mutual

/-- The expressions that stand in a statement and below no other expression, from left to right. -/
def Stmt.expressions : Stmt → List Expr
  | .var _ init => init.toList
  | .const _ init => [init]
  | .function _ _ body => Stmt.expressionsAll body
  | .expr e => [e]
  | .block body => Stmt.expressionsAll body
  | .ifThen test yes => test :: yes.expressions
  | .ifElse test yes no => test :: (yes.expressions ++ no.expressions)
  | .while test body => test :: body.expressions
  | .return value _ => value.toList
  | .break _ | .continue _ | .empty => []

def Stmt.expressionsAll : List Stmt → List Expr
  | [] => []
  | s :: ss => s.expressions ++ Stmt.expressionsAll ss

end

/-- The expression is a node of the tree of a program. -/
def Program.Node (program : Program) (e : Expr) : Prop :=
  ∃ root ∈ Stmt.expressionsAll program, e.NodeOf root

/-! ## Tokens that hold expressions -/

namespace Grammar

/-- **The tokens hold expressions**, one behind the other, each of them derived by its tokens. -/
inductive Contains : List (Located Token) → List Expr → Prop where
  | nil (ts : List (Located Token)) : Contains ts []
  | cons {before used after : List (Located Token)} {e : Expr} {es : List Expr} :
      Derives .assignment used e → Contains after es →
      Contains (before ++ (used ++ after)) (e :: es)

namespace Contains

variable {ts us : List (Located Token)} {es fs : List Expr}

theorem behind (h : Contains ts es) (before : List (Located Token)) :
    Contains (before ++ ts) es := by
  cases h with
  | nil => exact .nil _
  | cons h hafter =>
    rw [← List.append_assoc]
    exact .cons h hafter

theorem append (h : Contains ts es) (h' : Contains us fs) : Contains (ts ++ us) (es ++ fs) := by
  induction h with
  | nil ts => exact h'.behind ts
  | cons h _ ih =>
    rw [List.append_assoc, List.append_assoc]
    exact .cons h ih

theorem before (h : Contains ts es) (after : List (Located Token)) : Contains (ts ++ after) es := by
  have := h.append (.nil after)
  rwa [List.append_nil] at this

end Contains

theorem Derives.contains {p : Precedence} {ts : List (Located Token)} {e : Expr}
    (h : Derives p ts e) : Contains ts [e] := by
  have hts : Contains ([] ++ (ts ++ [])) [e] := .cons (h.loosen (Nat.zero_le _)) (.nil [])
  rwa [List.append_nil] at hts

theorem Items.contains {ts : List (Located Token)} {es : List Expr} (h : Items ts es) :
    Contains ts es := by
  cases h with
  | one h => exact h.contains
  | cons h hrest => exact h.contains.append (hrest.contains.behind [_])

theorem Listed.contains {ts : List (Located Token)} {es : List Expr} (h : Listed ts es) :
    Contains ts es := by
  cases h with
  | nil => exact .nil []
  | items h => exact h.contains

mutual

/-- **The tokens of an expression hold what is directly below it.** Parentheses add tokens around
it. -/
theorem Derives.children : ∀ {p : Precedence} {ts : List (Located Token)} {e : Expr},
    Derives p ts e → Contains ts e.children
  | _, _, _, .tighter _ h => h.children
  | _, _, _, .assign h hvalue => h.contains.append (hvalue.contains.behind [_])
  | _, _, _, .assignAt h hvalue => h.contains.append (hvalue.contains.behind [_])
  | _, _, _, .cond h hyes hno =>
    h.contains.append ((hyes.contains.append (hno.contains.behind [_])).behind [_])
  | _, _, _, .binary _ _ h hright => h.contains.append (hright.contains.behind [_])
  | _, _, _, .negate h => h.contains.behind [_]
  | _, _, _, .not h => h.contains.behind [_]
  | _, _, _, .call h hargs => h.contains.append ((hargs.contains.before [_]).behind [_])
  | _, _, _, .index h hposition => h.contains.append ((hposition.contains.before [_]).behind [_])
  | _, _, _, .primary h => h.children

theorem Primary.children :
    ∀ {ts : List (Located Token)} {e : Expr}, Primary ts e → Contains ts e.children
  | _, _, .number _ _ | _, _, .string _ _ | _, _, .true _ | _, _, .false _ | _, _, .null _
  | _, _, .ident _ _ => .nil _
  | _, _, .parens h => by
    rw [Expr.children_withSpan]
    exact (h.children.before [_]).behind [_]
  | _, _, .array h => (h.contains.before [_]).behind [_]

end

/-! ## Statements -/

theorem Condition.contains {ts : List (Located Token)} {e : Expr} (h : Condition ts e) :
    Contains ts [e] := by
  cases h with
  | parens h => exact (h.contains.before [_]).behind [_]

theorem Initial.contains {ts : List (Located Token)} {init : Option Expr} (h : Initial ts init) :
    Contains ts init.toList := by
  cases h with
  | none => exact .nil []
  | value h => exact h.contains.behind [_]

theorem Simple.contains {semicolon : Span} {ts : List (Located Token)} {s : Stmt}
    (h : Simple semicolon ts s) : Contains ts s.expressions := by
  cases h with
  | var h => exact h.contains.behind [_, _]
  | const h => exact h.contains.behind [_, _]
  | returnValue h => exact h.contains.behind [_]
  | expr h => exact h.contains
  | «return» | «break» | «continue» | empty => exact .nil _

mutual

theorem Statement.contains : ∀ {ts : List (Located Token)} {s : Stmt}, Statement ts s →
    Contains ts s.expressions
  | _, _, .simple h => h.contains.before [_]
  | _, _, .function _ h => (((h.contains.before [_]).behind [_]).behind _).behind [_, _]
  | _, _, .ifThen htest h => (htest.contains.append h.contains).behind [_]
  | _, _, .ifElse htest h _ h' =>
    (htest.contains.append (h.contains.append (h'.contains.behind [_]))).behind [_]
  | _, _, .while htest h => (htest.contains.append h.contains).behind [_]
  | _, _, .block h => (h.contains.before [_]).behind [_]

/-- **The tokens of statements hold the expressions of the statements.** -/
theorem Statements.contains : ∀ {ts : List (Located Token)} {ss : List Stmt}, Statements ts ss →
    Contains ts (Stmt.expressionsAll ss)
  | _, _, .nil => .nil []
  | _, _, .cons h hrest => h.contains.append hrest.contains

end

/-! ## The tokens of one node -/

/-- Some of the tokens in a row derive the expression. -/
def Part (ts : List (Located Token)) (e : Expr) : Prop :=
  ∃ before used after, ts = before ++ (used ++ after) ∧ Derives .assignment used e

theorem Contains.part {ts : List (Located Token)} {es : List Expr} (h : Contains ts es) :
    ∀ e ∈ es, Part ts e := by
  induction h with
  | nil => exact fun _ he => absurd he List.not_mem_nil
  | @cons before used after e es h _ ih =>
    refine List.forall_mem_cons.2 ⟨⟨before, used, after, rfl, h⟩, fun d hd => ?_⟩
    obtain ⟨before', used', after', rfl, hd⟩ := ih d hd
    exact ⟨before ++ (used ++ before'), used', after', by simp only [List.append_assoc], hd⟩

/-- **Every node has tokens of its own.** -/
theorem Part.node {ts : List (Located Token)} {e root : Expr} (h : Part ts root)
    (he : e.NodeOf root) : Part ts e := by
  induction he with
  | self => exact h
  | child hchild _ ih =>
    obtain ⟨before, used, after, rfl, hroot⟩ := h
    obtain ⟨before', used', after', rfl, hchild⟩ := hroot.children.part _ hchild
    exact ih ⟨before ++ before', used', after' ++ after, by simp only [List.append_assoc], hchild⟩

/-! ## Spans -/

/-- The tokens stand for some characters each, and one behind the other. -/
structure Ordered (ts : List (Located Token)) : Prop where
  behind : ts.Pairwise (·.span.stop ≤ ·.span.start)
  nonempty : ∀ t ∈ ts, t.span.start < t.span.stop

/-- From the start of the first token to the end of the last one. -/
def extent (ts : List (Located Token)) : Span :=
  ⟨(ts.head?.map (·.span.start)).getD 0, (lastSpan ts).stop⟩

theorem Ordered.of_append {ts us : List (Located Token)} (h : Ordered (ts ++ us)) :
    Ordered ts ∧ Ordered us := by
  obtain ⟨hts, hus, -⟩ := List.pairwise_append.1 h.behind
  exact ⟨⟨hts, fun t ht => h.nonempty t (List.mem_append_left us ht)⟩,
    ⟨hus, fun t ht => h.nonempty t (List.mem_append_right ts ht)⟩⟩

theorem stop_extent_concat (ts : List (Located Token)) (t : Located Token) :
    (extent (ts ++ [t])).stop = t.span.stop := by
  rw [extent, lastSpan, List.getLast?_concat]
  rfl

theorem extent_append {ts us : List (Located Token)} (hts : ts ≠ []) (hus : us ≠ []) :
    extent (ts ++ us) = ⟨(extent ts).start, (extent us).stop⟩ := by
  simp only [extent, lastSpan, List.getLast?_append_of_ne_nil _ hus,
    List.head?_append_of_ne_nil _ hts]

namespace Ordered

variable {ts us before used after : List (Located Token)}

/-- Every token stands in the extent of all of them. -/
theorem extent_mem (h : Ordered ts) {t : Located Token} (ht : t ∈ ts) :
    (extent ts).start ≤ t.span.start ∧ t.span.stop ≤ (extent ts).stop := by
  have hne := List.ne_nil_of_mem ht
  constructor
  · obtain ⟨first, rest, rfl⟩ := List.exists_cons_of_ne_nil hne
    obtain rfl | hrest := List.mem_cons.1 ht
    · exact Nat.le_refl _
    · have hfirst := h.nonempty first List.mem_cons_self
      have hbehind := (List.pairwise_cons.1 h.behind).1 t hrest
      exact Nat.le_trans (Nat.le_of_lt hfirst) hbehind
  · obtain ⟨init, last, rfl⟩ := (List.eq_nil_or_concat' ts).resolve_left hne
    rw [stop_extent_concat]
    obtain hinit | hlast := List.mem_append.1 ht
    · have hlast := h.nonempty last (List.mem_append_right init (List.mem_singleton.2 rfl))
      have hbehind := (List.pairwise_append.1 h.behind).2.2 t hinit last (List.mem_singleton.2 rfl)
      exact Nat.le_trans hbehind (Nat.le_of_lt hlast)
    · cases List.mem_singleton.1 hlast
      exact Nat.le_refl _

theorem extent_lt (h : Ordered ts) (hne : ts ≠ []) : (extent ts).start < (extent ts).stop := by
  obtain ⟨first, rest, rfl⟩ := List.exists_cons_of_ne_nil hne
  exact Nat.lt_of_lt_of_le (h.nonempty first List.mem_cons_self) (h.extent_mem List.mem_cons_self).2

/-- Some tokens in a row have their extent in that of all of them. -/
theorem extent_part (h : Ordered (before ++ (used ++ after))) (hne : used ≠ []) :
    (extent (before ++ (used ++ after))).start ≤ (extent used).start ∧
      (extent used).stop ≤ (extent (before ++ (used ++ after))).stop := by
  have hmem : ∀ t ∈ used, t ∈ before ++ (used ++ after) := fun t ht =>
    List.mem_append_right before (List.mem_append_left after ht)
  constructor
  · obtain ⟨first, rest, rfl⟩ := List.exists_cons_of_ne_nil hne
    exact (h.extent_mem (hmem first List.mem_cons_self)).1
  · obtain ⟨init, last, rfl⟩ := (List.eq_nil_or_concat' used).resolve_left hne
    rw [stop_extent_concat]
    exact (h.extent_mem (hmem last (List.mem_append_right init (List.mem_singleton.2 rfl)))).2

/-- The tokens behind others begin where those have ended. -/
theorem extent_le (h : Ordered (ts ++ us)) (hts : ts ≠ []) (hus : us ≠ []) :
    (extent ts).stop ≤ (extent us).start := by
  obtain ⟨init, last, rfl⟩ := (List.eq_nil_or_concat' ts).resolve_left hts
  obtain ⟨first, rest, rfl⟩ := List.exists_cons_of_ne_nil hus
  rw [stop_extent_concat]
  exact (List.pairwise_append.1 h.behind).2.2 last
    (List.mem_append_right init (List.mem_singleton.2 rfl)) first List.mem_cons_self

/-- The extent of some tokens, joined with a span that ends with the last of those behind them. -/
theorem join_eq {s : Span} (h : Ordered (ts ++ us)) (hts : ts ≠ []) (hus : us ≠ [])
    (hstart : (extent us).start ≤ s.start) (hstop : s.stop = (extent us).stop) :
    (extent ts).join s = extent (ts ++ us) := by
  have hfirst := (extent_part (show Ordered ([] ++ (ts ++ us)) from h) hts).2
  have hlast : (extent (ts ++ us)).start ≤ (extent us).start := by
    have := (extent_part (show Ordered (ts ++ (us ++ [])) by rwa [List.append_nil]) hus).1
    rwa [List.append_nil] at this
  rw [List.nil_append] at hfirst
  rw [extent_append hts hus] at hfirst hlast ⊢
  rw [Span.join, Nat.min_eq_left (Nat.le_trans hlast hstart), hstop, Nat.max_eq_right hfirst]

/-- The extent of some tokens, joined with the last span of all. -/
theorem join_last (us vs : List (Located Token)) (h : Ordered (ts ++ (us ++ vs))) (hts : ts ≠ [])
    (hvs : vs ≠ []) : (extent ts).join (lastSpan vs) = extent (ts ++ (us ++ vs)) := by
  obtain ⟨init, last, rfl⟩ := (List.eq_nil_or_concat' vs).resolve_left hvs
  have hlast : lastSpan (init ++ [last]) = last.span := by
    rw [lastSpan, List.getLast?_concat]
    rfl
  have hmem : last ∈ us ++ (init ++ [last]) :=
    List.mem_append_right us (List.mem_append_right init (List.mem_singleton.2 rfl))
  rw [hlast]
  refine h.join_eq hts (List.ne_nil_of_mem hmem) (h.of_append.2.extent_mem hmem).1 ?_
  rw [← List.append_assoc, stop_extent_concat]

/-- An operand, an operator and what belongs to it. -/
theorem join_operator {sign : Located Token} (h : Ordered (ts ++ sign :: us)) (hts : ts ≠ [])
    (hus : us ≠ []) : (extent ts).join (lastSpan us) = extent (ts ++ sign :: us) :=
  h.join_last [sign] us hts hus

/-- An operand and brackets behind it. -/
theorem join_closing {opening closing : Located Token}
    (h : Ordered (ts ++ opening :: (us ++ [closing])))
    (hts : ts ≠ []) : (extent ts).join closing.span = extent (ts ++ opening :: (us ++ [closing])) :=
  h.join_last (opening :: us) [closing] hts (List.cons_ne_nil _ _)

/-- Brackets around some tokens. -/
theorem join_enclosing {opening closing : Located Token}
    (h : Ordered (opening :: (us ++ [closing]))) :
    opening.span.join closing.span = extent (opening :: (us ++ [closing])) :=
  join_last us [closing] (show Ordered ([opening] ++ _) from h)
    (List.cons_ne_nil _ _) (List.cons_ne_nil _ _)

/-- A sign before an operand. -/
theorem join_sign {sign : Located Token} (h : Ordered (sign :: us)) (hus : us ≠ []) :
    sign.span.join (extent us) = extent (sign :: us) :=
  join_eq (show Ordered ([sign] ++ us) from h) (List.cons_ne_nil _ _) hus (Nat.le_refl _) rfl

theorem tail {t : Located Token} (h : Ordered (t :: ts)) : Ordered ts :=
  (of_append (show Ordered ([t] ++ ts) from h)).2

end Ordered

theorem Primary.span_eq {ts : List (Located Token)} {e : Expr} (h : Primary ts e)
    (hts : Ordered ts) : e.span = extent ts := by
  cases h with
  | parens =>
    rw [Expr.span_withSpan]
    exact hts.join_enclosing
  | array => exact hts.join_enclosing
  | number | string | true | false | null | ident => rfl

/-- **The span of an expression goes from its first token to its last one.** -/
theorem Derives.span_eq : ∀ {p : Precedence} {ts : List (Located Token)} {e : Expr},
    Derives p ts e → Ordered ts → e.span = extent ts
  | _, _, _, .tighter _ h, hts => h.span_eq hts
  | _, _, _, .assign h hvalue, hts => by
    have htarget := h.span_eq hts.of_append.1
    simp only [Expr.span] at htarget ⊢
    rw [htarget]
    exact hts.join_operator h.starts.ne_nil hvalue.starts.ne_nil
  | _, _, _, .assignAt h hvalue, hts => by
    have htarget := h.span_eq hts.of_append.1
    simp only [Expr.span] at htarget ⊢
    rw [htarget]
    exact hts.join_operator h.starts.ne_nil hvalue.starts.ne_nil
  | _, _, _, .cond h _ hno, hts => by
    rw [Expr.span, h.span_eq hts.of_append.1]
    -- the last span of all is that of the tokens behind the colon
    rw [← List.cons_append, List.append_cons] at hts ⊢
    exact hts.join_last _ _ h.starts.ne_nil hno.starts.ne_nil
  | _, _, _, .binary _ _ h hright, hts => by
    rw [Expr.span, h.span_eq hts.of_append.1]
    exact hts.join_operator h.starts.ne_nil hright.starts.ne_nil
  | _, _, _, .negate h, hts => by
    rw [Expr.span, h.span_eq hts.tail]
    exact hts.join_sign h.starts.ne_nil
  | _, _, _, .not h, hts => by
    rw [Expr.span, h.span_eq hts.tail]
    exact hts.join_sign h.starts.ne_nil
  | _, _, _, .call h _, hts => by
    rw [Expr.span, h.span_eq hts.of_append.1]
    exact hts.join_closing h.starts.ne_nil
  | _, _, _, .index h _, hts => by
    rw [Expr.span, h.span_eq hts.of_append.1]
    exact hts.join_closing h.starts.ne_nil
  | _, _, _, .primary h, hts => h.span_eq hts

namespace Contains

variable {ts : List (Located Token)} {es : List Expr}

/-- What tokens hold stands in their extent. -/
theorem inside (h : Contains ts es) (hts : Ordered ts) : ∀ e ∈ es,
    (extent ts).start ≤ e.span.start ∧ e.span.start < e.span.stop ∧
      e.span.stop ≤ (extent ts).stop := by
  intro e he
  obtain ⟨before, used, after, rfl, he⟩ := h.part e he
  have hused := hts.of_append.2.of_append.1
  have hpart := hts.extent_part he.starts.ne_nil
  rw [he.span_eq hused]
  exact ⟨hpart.1, hused.extent_lt he.starts.ne_nil, hpart.2⟩

/-- What tokens hold does not overlap. -/
theorem disjoint (h : Contains ts es) (hts : Ordered ts) :
    es.Pairwise (·.span.stop ≤ ·.span.start) := by
  induction h with
  | nil => exact .nil
  | @cons before used after e es he hafter ih =>
    have hrest := hts.of_append.2
    refine List.pairwise_cons.2 ⟨fun d hd => ?_, ih hrest.of_append.2⟩
    obtain ⟨between, mine, behind, rfl, hd⟩ := hafter.part d hd
    have hbehind := hrest.of_append.2
    have hne : between ++ (mine ++ behind) ≠ [] := List.append_ne_nil_of_right_ne_nil _
      (List.append_ne_nil_of_left_ne_nil hd.starts.ne_nil _)
    rw [he.span_eq hrest.of_append.1, hd.span_eq hbehind.of_append.2.of_append.1]
    exact Nat.le_trans (hrest.extent_le he.starts.ne_nil hne)
      (hbehind.extent_part hd.starts.ne_nil).1

end Contains

end Grammar

end Stackscript
