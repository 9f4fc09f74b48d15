import Stackscript.Proofs.LoweringPoints

/-!
# Lowering emits the code of the tree

If the lowering of a program reports no error, then the builder has gone through the tree with the
names that are known at each point. A lemma for every form of tree says what it has emitted.

* `Lower.Emits`, `Lower.expr_spec`: expressions;
* `Lower.Builds`, `Lower.stmt_spec`: statements;
* `Builder.top`, `LabelCode.ofProgram_eq_ok`;
* **`LabelCode.ofProgram_spec`**: the label code of an accepted program is what its tree emits, and
  the program keeps the rules.
-/

namespace Stackscript

/-! ## Expressions -/

namespace Lower

theorem checkIndexable_ok {object : Expr} {b b' : Builder}
    (h : checkIndexable object b = .ok () b') : b' = b := by
  unfold checkIndexable at h
  cases hk : object.literalKind? with
  | none =>
    rw [hk] at h
    cases h
    rfl
  | some kind =>
    rw [hk] at h
    cases kind <;> cases h <;> rfl

theorem checkCall_ok {span : Span} {callee : Expr} {args : List Expr} {b b' : Builder}
    (h : checkCall span callee args b = .ok () b') : b' = b ∧ args.length ≤ maxArguments := by
  unfold checkCall at h
  cases hk : callee.literalKind? with
  | some kind =>
    rw [hk] at h
    cases h
  | none =>
    rw [hk] at h
    by_cases hlen : maxArguments < args.length
    · simp only [if_pos hlen] at h
      cases h
    · simp only [if_neg hlen] at h
      cases h
      exact ⟨rfl, Nat.le_of_not_lt hlen⟩

/-- **The lowering of an expression** changes only the block, to which it adds the code of the
expression, and the expression keeps the rules. -/
def Emits (e : Expr) : Prop :=
  ∀ {b b' : Builder} {n : Names} {loop : Option (LabelId × LabelId)}, b.StandsAt n loop →
    expr e b = .ok () b' → b' = { b with block := e.emit n b.block } ∧ e.Accepted b.scopes.vars n

/-- The lowering of expressions in order. -/
def EmitsAll (es : List Expr) : Prop :=
  ∀ {b b' : Builder} {n : Names} {loop : Option (LabelId × LabelId)}, b.StandsAt n loop →
    exprs es b = .ok () b' →
      b' = { b with block := Expr.emitAll n es b.block } ∧ Expr.AcceptedAll b.scopes.vars n es

section Expressions

variable {span target : Span} {e left right test yes no object position value callee : Expr}
  {es : List Expr}

theorem emits_array (hitems : EmitsAll es) : Emits (.array span es) := by
  intro b b' n loop hb h
  obtain ⟨_, _, h₁, h⟩ := bind_eq_ok.1 h
  obtain ⟨rfl, ha⟩ := hitems hb h₁
  cases h
  exact ⟨rfl, ha⟩

theorem emits_ident (name : String) : Emits (.ident span name) := by
  intro b b' n loop hb h
  obtain ⟨⟨id, v⟩, _, h₁, h⟩ := bind_eq_ok.1 h
  obtain ⟨rfl, -, c, hc, rfl⟩ := hb.resolve h₁
  cases h
  refine ⟨?_, c, hc⟩
  rw [Expr.emit, hc.idOf]

theorem emits_binary (op : BinaryOperator) (hleft : Emits left) (hright : Emits right) :
    Emits (.binary span op left right) := by
  intro b b' n loop hb h
  obtain ⟨_, _, h₁, h⟩ := bind_eq_ok.1 h
  obtain ⟨_, _, h₂, h⟩ := bind_eq_ok.1 h
  obtain ⟨rfl, ha₁⟩ := hleft hb h₁
  obtain ⟨rfl, ha₂⟩ := hright (hb.withBlock _) h₂
  cases h
  exact ⟨rfl, ha₁, ha₂⟩

theorem emits_unary (op : UnaryOperator) (harg : Emits e) : Emits (.unary span op e) := by
  intro b b' n loop hb h
  obtain ⟨_, _, h₁, h⟩ := bind_eq_ok.1 h
  obtain ⟨rfl, ha⟩ := harg hb h₁
  cases h
  exact ⟨rfl, ha⟩

theorem emits_cond (htest : Emits test) (hyes : Emits yes) (hno : Emits no) :
    Emits (.cond span test yes no) := by
  intro b b' n loop hb h
  obtain ⟨_, _, h₁, h⟩ := bind_eq_ok.1 h
  obtain ⟨rfl, ha₁⟩ := htest hb h₁
  simp only [reserve_bind, emit_bind, fresh_bind] at h
  obtain ⟨_, _, h₂, h⟩ := bind_eq_ok.1 h
  obtain ⟨rfl, ha₂⟩ := hyes (hb.withBlock _) h₂
  simp only [emit_bind, bindLabel_bind] at h
  obtain ⟨_, _, h₃, h⟩ := bind_eq_ok.1 h
  obtain ⟨rfl, ha₃⟩ := hno (hb.withBlock _) h₃
  cases h
  exact ⟨rfl, ha₁, ha₂, ha₃⟩

/-- Natives are constants, so that the cell of an assignment is none of them. -/
theorem emits_assign {target : Located String} (hvalue : Emits value) :
    Emits (.assign span target value) := by
  intro b b' n loop hb h
  obtain ⟨⟨id, v⟩, _, h₁, h⟩ := bind_eq_ok.1 h
  obtain ⟨rfl, hv, c, hc, rfl⟩ := hb.resolve h₁
  by_cases hconst : v.storage.isConstant = true
  · simp only [if_pos hconst] at h
    cases h
  · simp only [if_neg hconst] at h
    obtain ⟨_, _, h₂, h⟩ := bind_eq_ok.1 h
    obtain ⟨rfl, ha⟩ := hvalue hb h₂
    cases h
    refine ⟨?_, ⟨c, hc, ?_⟩, ha⟩
    · rw [Expr.emit, hc.idOf]
    · rintro slot rfl
      obtain ⟨w, hw, -, -, hstored⟩ := hc.declared
      cases hv.symm.trans hw
      exact hconst (by rw [hstored.1]; rfl)

theorem emits_assignAt (hobject : Emits object) (hposition : Emits position)
    (hvalue : Emits value) : Emits (.assignAt span target object position value) := by
  intro b b' n loop hb h
  obtain ⟨_, _, h₀, h⟩ := bind_eq_ok.1 h
  obtain ⟨_, _, h₁, h⟩ := bind_eq_ok.1 h
  rw [checkIndexable_ok h₀] at h₁
  obtain ⟨_, _, h₂, h⟩ := bind_eq_ok.1 h
  obtain ⟨_, _, h₃, h⟩ := bind_eq_ok.1 h
  obtain ⟨rfl, ha₁⟩ := hobject hb h₁
  obtain ⟨rfl, ha₂⟩ := hposition (hb.withBlock _) h₂
  obtain ⟨rfl, ha₃⟩ := hvalue (hb.withBlock _) h₃
  cases h
  exact ⟨rfl, ha₁, ha₂, ha₃⟩

theorem emits_index (hobject : Emits object) (hposition : Emits position) :
    Emits (.index span object position) := by
  intro b b' n loop hb h
  obtain ⟨_, _, h₀, h⟩ := bind_eq_ok.1 h
  obtain ⟨_, _, h₁, h⟩ := bind_eq_ok.1 h
  rw [checkIndexable_ok h₀] at h₁
  obtain ⟨_, _, h₂, h⟩ := bind_eq_ok.1 h
  obtain ⟨rfl, ha₁⟩ := hobject hb h₁
  obtain ⟨rfl, ha₂⟩ := hposition (hb.withBlock _) h₂
  cases h
  exact ⟨rfl, ha₁, ha₂⟩

theorem emits_call (hargs : EmitsAll es) (hcallee : Emits callee) :
    Emits (.call span callee es) := by
  intro b b' n loop hb h
  obtain ⟨_, _, h₀, h⟩ := bind_eq_ok.1 h
  obtain ⟨hsame, hlen⟩ := checkCall_ok h₀
  obtain ⟨_, _, h₁, h⟩ := bind_eq_ok.1 h
  rw [hsame] at h₁
  obtain ⟨_, _, h₂, h⟩ := bind_eq_ok.1 h
  obtain ⟨rfl, ha₁⟩ := hargs hb h₁
  obtain ⟨rfl, ha₂⟩ := hcallee (hb.withBlock _) h₂
  cases h
  exact ⟨rfl, hlen, ha₁, ha₂⟩

theorem emits_cons (hfirst : Emits e) (hrest : EmitsAll es) : EmitsAll (e :: es) := by
  intro b b' n loop hb h
  obtain ⟨_, _, h₁, h⟩ := bind_eq_ok.1 h
  obtain ⟨rfl, ha₁⟩ := hfirst hb h₁
  obtain ⟨rfl, ha₂⟩ := hrest (hb.withBlock _) h
  exact ⟨rfl, ha₁, ha₂⟩

end Expressions

mutual

theorem expr_spec : (e : Expr) → Emits e
  | .number .. | .string .. | .boolean _ true | .boolean _ false | .null _ => by
    intro hb h
    cases h
    exact ⟨rfl, trivial⟩
  | .array _ items => emits_array (exprs_spec items)
  | .ident _ name => emits_ident name
  | .binary _ op left right => emits_binary op (expr_spec left) (expr_spec right)
  | .unary _ op arg => emits_unary op (expr_spec arg)
  | .cond _ test yes no => emits_cond (expr_spec test) (expr_spec yes) (expr_spec no)
  | .assign _ _ value => emits_assign (expr_spec value)
  | .assignAt _ _ object position value =>
    emits_assignAt (expr_spec object) (expr_spec position) (expr_spec value)
  | .index _ object position => emits_index (expr_spec object) (expr_spec position)
  | .call _ callee args => emits_call (exprs_spec args) (expr_spec callee)

theorem exprs_spec : (es : List Expr) → EmitsAll es
  | [] => by
    intro hb h
    cases h
    exact ⟨rfl, trivial⟩
  | e :: es => emits_cons (expr_spec e) (exprs_spec es)

end

/-! ## Statements -/

theorem map_eq_ok {α β : Type} {f : α → β} {x : Lower α} {b b' : Builder} {r : β}
    (h : (f <$> x) b = .ok r b') : ∃ a, x b = .ok a b' ∧ f a = r := by
  have h : EStateM.map f x b = .ok r b' := h
  unfold EStateM.map at h
  cases hx : x b with
  | ok a b₁ =>
    rw [hx] at h
    cases h
    exact ⟨a, rfl, rfl⟩
  | error e b₁ =>
    rw [hx] at h
    cases h

/-- The parameters of a function get consecutive numbers, under which they are kept in its calls. -/
theorem parameters_spec {owner : Nat} : (ps : List (Located String)) → {b b' : Builder} →
    {n : Names} →
    {loop : Option (LabelId × LabelId)} → {ids : List VarId} → b.StandsAt n loop →
    n.function = some owner → parameters owner ps b = .ok ids b' → b'.errors = [] →
    ids = List.range' n.nextVar ps.length ∧ b.Reaches b' (n.declareAll ps) loop b.block [] ∧
      List.Forall₂ (fun p id => (Cell.own owner id).Declared b'.scopes.vars p.val) ps ids
  | [], _, _, _, _, _, hb, _, h, _ => by
    cases h
    exact ⟨rfl, .refl hb, .nil⟩
  | p :: ps, b, b', n, loop, ids, hb, hn, h, hclean => by
    unfold parameters at h
    cases hp : declareAs p .functionMutable (some owner) b with
    | ok id b₁ =>
      rw [hp] at h
      obtain ⟨rest, hrest, rfl⟩ := map_eq_ok h
      rw [← hn] at hp
      have hcell : n.cell.StoredAs ⟨p.val, .functionMutable, b.scopes.depth, n.function⟩ := by
        rw [Names.cell, hn]
        exact ⟨rfl, fun h => by cases h⟩
      obtain ⟨rfl, hdeclared, h₁⟩ := hb.declareAs hp hcell
      obtain ⟨rfl, h₂, hrest⟩ := parameters_spec ps h₁.standsAt hn hrest hclean
      rw [Names.cell, hn] at hdeclared
      rw [h₁.block] at h₂
      exact ⟨rfl, h₁.trans h₂, .cons (hdeclared.mono h₂.vars) hrest⟩
    | error e b₁ =>
      rw [hp] at h
      cases (keepsErrors_parameters owner ps).clean h hclean

theorem initialValue_spec (init : Option Expr) {b b' : Builder} {n : Names}
    {loop : Option (LabelId × LabelId)} (hb : b.StandsAt n loop)
    (h : initialValue init b = .ok () b') :
    b' = { b with block := Expr.emitOptional n init b.block } ∧
      Expr.AcceptedOptional b.scopes.vars n init := by
  cases init with
  | some e => exact expr_spec e hb h
  | none =>
    cases h
    exact ⟨rfl, trivial⟩

theorem declareAndStore_spec {name : Located String} {constant : Bool} {b b' : Builder} {n : Names}
    {loop : Option (LabelId × LabelId)} (hb : b.StandsAt n loop)
    (h : declareAndStore name constant b = .ok () b') :
    n.cell.Declared b'.scopes.vars name.val ∧
      b.Reaches b' (n.declare name.val) loop (b.block.add (.store n.nextVar)) [] := by
  obtain ⟨id, b₁, hd, hemit⟩ := bind_eq_ok.1 h
  obtain ⟨rfl, hdeclared, hr⟩ := hb.declare hd
  cases hemit
  exact ⟨hdeclared, hr.mapBlock (·.add (.store n.nextVar))⟩

/-- A statement whose error would have been recorded has been lowered. -/
theorem recording_eq_ok {x : Lower Unit} {b b' : Builder} (h : recording x b = .ok () b')
    (hclean : b'.errors = []) : x b = .ok () b' := by
  unfold recording at h
  cases hx : x b with
  | ok a b₁ =>
    rw [hx] at h
    exact h
  | error e b₁ =>
    rw [hx] at h
    cases h
    cases hclean

theorem beginFunction_spec {name : Located String} {params : List (Located String)} {b b' : Builder}
    {n : Names} {loop : Option (LabelId × LabelId)} {index : Nat} (hb : b.StandsAt n loop)
    (h : beginFunction name params b = .ok index b') :
    index = n.nextFunction ∧ params.length ≤ maxArguments ∧
      ∃ b₁, n.cell.Declared b₁.scopes.vars name.val ∧
      b.Reaches b₁ (n.declare name.val) loop b.block [] ∧
      b' = { b₁ with
        block := ((b.block.add (.functionRef n.nextFunction)).add .makeFunction).add
          (.store n.nextVar)
        functions := b₁.functions.push ⟨name.val, [], .empty⟩ } := by
  rw [beginFunction_eq] at h
  obtain ⟨id, b₁, hd, h⟩ := bind_eq_ok.1 h
  obtain ⟨rfl, hdeclared, hr⟩ := hb.declare hd
  by_cases hp : maxArguments < params.length
  · rw [if_pos hp] at h
    cases h
  · rw [if_neg hp] at h
    have hindex : b₁.functions.size = n.nextFunction := hr.standsAt.nextFunction
    rw [hindex, hr.block] at h
    cases h
    exact ⟨rfl, Nat.le_of_not_lt hp, b₁, hdeclared, hr, rfl⟩

theorem inFunction_eq_ok {index : Nat} {action : Lower (List VarId)} {b b' : Builder}
    (h : inFunction index action b = .ok () b') :
    ∃ params b₁, inScope .function action { b with block := .empty, function := some index } =
        .ok params b₁ ∧
      b' = { b₁ with
        block := b.block
        function := b.function
        functions := b₁.functions.modify index
          fun f => { f with parameters := params, block := b₁.block } } := by
  rw [inFunction_eq] at h
  cases hx : inScope .function action { b with block := .empty, function := some index } with
  | ok params b₁ =>
    rw [hx] at h
    cases h
    exact ⟨params, b₁, rfl, rfl⟩
  | error e b₁ =>
    rw [hx] at h
    cases h

/-- The end of a function body. -/
theorem endBody_spec {body : List Stmt} {ids ids' : List VarId} {b b' : Builder}
    (h : (if body.getLast?.any isReturn then return ids
      else do
        emit .pushNull
        emit .ret
        return ids : Lower (List VarId)) b = .ok ids' b') :
    ids' = ids ∧ b' = { b with
      block := if body.getLast?.any isReturn then b.block
        else (b.block.add .pushNull).add .ret } := by
  by_cases hr : body.getLast?.any isReturn = true
  · rw [if_pos hr] at h
    cases h
    exact ⟨rfl, by rw [if_pos hr]⟩
  · rw [if_neg hr] at h
    cases h
    exact ⟨rfl, by rw [if_neg hr]⟩

/-- **The lowering of a statement** without errors goes on behind the statement: it adds the code
and the functions of the statement, which keeps the rules. -/
def Builds (s : Stmt) : Prop :=
  ∀ {b b' : Builder} {n : Names} {loop : Option (LabelId × LabelId)}, b.StandsAt n loop →
    stmt s b = .ok () b' → b'.errors = [] →
      b.Reaches b' (s.after n) loop (s.emit n loop b.block) (s.functions n) ∧
        s.Accepted b'.scopes.vars n loop.isSome

/-- The lowering of statements in order. -/
def BuildsAll (ss : List Stmt) : Prop :=
  ∀ {b b' : Builder} {n : Names} {loop : Option (LabelId × LabelId)}, b.StandsAt n loop →
    stmts ss b = .ok () b' → b'.errors = [] →
      b.Reaches b' (Stmt.afterAll n ss) loop (Stmt.emitAll n loop ss b.block)
          (Stmt.functionsAll n ss) ∧
        Stmt.AcceptedAll b'.scopes.vars n loop.isSome ss

section Statements

variable {yes no body s : Stmt} {ss : List Stmt}

theorem builds_var (name : Located String) (init : Option Expr) : Builds (.var name init) := by
  intro b b' n loop hb h _
  obtain ⟨_, b₁, h₁, h₂⟩ := bind_eq_ok.1 h
  obtain ⟨rfl, ha⟩ := initialValue_spec init hb h₁
  obtain ⟨hdeclared, hr⟩ := declareAndStore_spec (hb.withBlock _) h₂
  exact ⟨hr.ofBlock, Expr.acceptedOptional_mono hr.vars init ha, hdeclared⟩

theorem builds_const (name : Located String) (init : Expr) : Builds (.const name init) := by
  intro b b' n loop hb h _
  obtain ⟨_, b₁, h₁, h₂⟩ := bind_eq_ok.1 h
  obtain ⟨rfl, ha⟩ := expr_spec init hb h₁
  obtain ⟨hdeclared, hr⟩ := declareAndStore_spec (hb.withBlock _) h₂
  exact ⟨hr.ofBlock, init.accepted_mono hr.vars ha, hdeclared⟩

theorem builds_function (name : Located String) (params : List (Located String))
    (hbody : BuildsAll ss) : Builds (.function name params ss) := by
  intro b b' n loop hb h hclean
  obtain ⟨index, b₁, h₁, h₂⟩ := bind_eq_ok.1 h
  obtain ⟨rfl, hparams, b₂, hdeclared, hr, rfl⟩ := beginFunction_spec hb h₁
  obtain ⟨ids, b₃, h₃, rfl⟩ := inFunction_eq_ok h₂
  obtain ⟨b₄, h₄, rfl⟩ := inScope_eq_ok h₃
  obtain ⟨ids', b₅, h₅, h₆⟩ := bind_eq_ok.1 h₄
  obtain ⟨_, b₆, h₇, h₈⟩ := bind_eq_ok.1 h₆
  obtain ⟨hids, rfl⟩ := endBody_spec h₈
  have hstart := hr.standsAt.enterFunction ⟨name.val, [], .empty⟩
  have hclean₁ := (keepsErrors_stmts ss).clean h₇ hclean
  obtain ⟨rfl, hr₁, hcells⟩ := parameters_spec params hstart rfl h₅ hclean₁
  obtain ⟨hr₂, ha⟩ := hbody hr₁.standsAt h₇ hclean
  rw [hr₁.block] at hr₂
  have hr₃ := hr₁.trans hr₂
  have haccepted : FunctionDef.Accepted b₆.scopes.vars
      ⟨name.val, params, ss, n.declare name.val⟩ :=
    ⟨hparams, ha, hcells.imp fun _ _ hd => hd.mono hr₂.vars⟩
  refine ⟨?_, hdeclared.mono hr₃.vars⟩
  rw [hids, hr₂.block]
  exact hr.endFunction hr₃ rfl haccepted _

theorem builds_expr (e : Expr) : Builds (.expr e) := by
  intro b b' n loop hb h _
  obtain ⟨_, b₁, h₁, h₂⟩ := bind_eq_ok.1 h
  obtain ⟨rfl, ha⟩ := expr_spec e hb h₁
  cases h₂
  exact ⟨(Builder.Reaches.refl hb).withBlock _, ha⟩

theorem builds_block (hbody : BuildsAll ss) : Builds (.block ss) := by
  intro b b' n loop hb h hclean
  obtain ⟨b₁, h₁, rfl⟩ := inScope_eq_ok h
  obtain ⟨hr, ha⟩ := hbody hb.enter h₁ hclean
  exact ⟨hr.leave hb, ha⟩

theorem builds_ifThen (test : Expr) (hyes : Builds yes) : Builds (.ifThen test yes) := by
  intro b b' n loop hb h hclean
  obtain ⟨_, b₁, h₁, h⟩ := bind_eq_ok.1 h
  obtain ⟨rfl, ha₁⟩ := expr_spec test hb h₁
  simp only [reserve_bind, emit_bind, fresh_bind] at h
  obtain ⟨_, b₂, h₂, h⟩ := bind_eq_ok.1 h
  cases h
  obtain ⟨hr, ha₂⟩ := hyes (hb.withBlock _) h₂ hclean
  exact ⟨hr.ofBlock.mapBlock (·.bind (test.emit n b.block).nextLabel),
    test.accepted_mono hr.vars ha₁, ha₂⟩

theorem builds_ifElse (test : Expr) (hyes : Builds yes) (hno : Builds no) :
    Builds (.ifElse test yes no) := by
  intro b b' n loop hb h hclean
  obtain ⟨_, b₁, h₁, h⟩ := bind_eq_ok.1 h
  obtain ⟨rfl, ha₁⟩ := expr_spec test hb h₁
  simp only [reserve_bind, emit_bind, fresh_bind] at h
  obtain ⟨_, b₃, h₂, h⟩ := bind_eq_ok.1 h
  simp only [reserve_bind, emit_bind, bindLabel_bind] at h
  obtain ⟨_, b₄, h₃, h⟩ := bind_eq_ok.1 h
  cases h
  have hclean₁ := (keepsErrors_stmt no).clean h₃ hclean
  obtain ⟨hr₁, ha₂⟩ := hyes (hb.withBlock _) h₂ hclean₁
  obtain ⟨hr₂, ha₃⟩ := hno (hr₁.standsAt.withBlock _) h₃ hclean
  refine ⟨?_, test.accepted_mono (hr₁.vars.trans hr₂.vars) ha₁,
    yes.accepted_mono hr₂.vars ha₂, ha₃⟩
  have hblock : Stmt.emit n loop (.ifElse test yes no) b.block =
      (no.emit (yes.after n) loop ((b₃.block.reserve.2.add (.goto b₃.block.nextLabel)).bind
        (test.emit n b.block).nextLabel)).bind b₃.block.nextLabel := by
    rw [hr₁.block]
    rfl
  rw [hblock]
  exact (hr₁.ofBlock.trans hr₂.ofBlock).mapBlock (·.bind b₃.block.nextLabel)

theorem builds_while (test : Expr) (hbody : Builds body) : Builds (.while test body) := by
  intro b b' n loop hb h hclean
  simp only [stmt, reserve_bind, fresh_bind] at h
  obtain ⟨_, b₁, h₁, h⟩ := bind_eq_ok.1 h
  obtain ⟨rfl, ha₁⟩ := expr_spec test (hb.withBlock _) h₁
  simp only [emit_bind, fresh_bind] at h
  obtain ⟨_, b₂, h₂, h⟩ := bind_eq_ok.1 h
  cases h
  obtain ⟨b₃, h₃, rfl⟩ := inScope_eq_ok h₂
  obtain ⟨hr, ha₂⟩ := hbody ((hb.withBlock _).enterLoop _ _) h₃ hclean
  have hleave := (hr.leave (hb.withBlock _)).ofBlock
  exact ⟨hleave.mapBlock fun x => (x.add (.goto (b.block.nextLabel + 1))).bind b.block.nextLabel,
    test.accepted_mono hr.vars ha₁, ha₂⟩

theorem builds_return (value : Option Expr) (span : Span) : Builds (.return value span) := by
  intro b b' n loop hb h _
  obtain ⟨_, b₁, h₁, h₂⟩ := bind_eq_ok.1 h
  cases h₁
  by_cases hf : b.scopes.inFunction = true
  · simp only [if_pos hf] at h₂
    obtain ⟨_, b₁, h₁, h₃⟩ := bind_eq_ok.1 h₂
    obtain ⟨rfl, ha⟩ := initialValue_spec value hb h₁
    cases h₃
    exact ⟨(Builder.Reaches.refl hb).withBlock _, hb.inFunction ▸ hf, ha⟩
  · simp only [if_neg hf] at h₂
    cases h₂

theorem builds_break (span : Span) : Builds (.break span) := by
  intro b b' n loop hb h _
  obtain ⟨_, b₁, h₁, h₂⟩ := bind_eq_ok.1 h
  cases h₁
  simp only [hb.loop] at h₂
  cases loop with
  | none => cases h₂
  | some labels =>
    cases h₂
    exact ⟨(Builder.Reaches.refl hb).withBlock _, rfl⟩

theorem builds_continue (span : Span) : Builds (.continue span) := by
  intro b b' n loop hb h _
  obtain ⟨_, b₁, h₁, h₂⟩ := bind_eq_ok.1 h
  cases h₁
  simp only [hb.loop] at h₂
  cases loop with
  | none => cases h₂
  | some labels =>
    cases h₂
    exact ⟨(Builder.Reaches.refl hb).withBlock _, rfl⟩

theorem builds_cons (hfirst : Builds s) (hrest : BuildsAll ss) : BuildsAll (s :: ss) := by
  intro b b' n loop hb h hclean
  obtain ⟨_, b₁, h₁, h₂⟩ := bind_eq_ok.1 h
  have hclean₁ := (keepsErrors_stmts ss).clean h₂ hclean
  obtain ⟨hr₁, ha₁⟩ := hfirst hb (recording_eq_ok h₁ hclean₁) hclean₁
  obtain ⟨hr₂, ha₂⟩ := hrest hr₁.standsAt h₂ hclean
  rw [hr₁.block] at hr₂
  exact ⟨hr₁.trans hr₂, s.accepted_mono hr₂.vars ha₁, ha₂⟩

end Statements

mutual

theorem stmt_spec : (s : Stmt) → Builds s
  | .var name init => builds_var name init
  | .const name init => builds_const name init
  | .function name params body => builds_function name params (stmts_spec body)
  | .expr e => builds_expr e
  | .block body => builds_block (stmts_spec body)
  | .ifThen test yes => builds_ifThen test (stmt_spec yes)
  | .ifElse test yes no => builds_ifElse test (stmt_spec yes) (stmt_spec no)
  | .while test body => builds_while test (stmt_spec body)
  | .return value span => builds_return value span
  | .break span => builds_break span
  | .continue span => builds_continue span
  | .empty => by
    intro hb h _
    cases h
    exact ⟨.refl hb, trivial⟩

theorem stmts_spec : (ss : List Stmt) → BuildsAll ss
  | [] => by
    intro hb h _
    cases h
    exact ⟨.refl hb, trivial⟩
  | s :: ss => builds_cons (stmt_spec s) (stmts_spec ss)

end

end Lower

/-! ## Programs -/

/-- The builder at the start of a program. -/
def Builder.top : Builder := { Builder.initial with scopes := ScopeTable.initial.enter .normal }

theorem Builder.standsAt_top : Builder.top.StandsAt .top none := by
  refine ⟨rfl, nofun, ?_, ?_, rfl, rfl, rfl, by simp [Builder.top, ScopeTable.enter], nofun, rfl⟩
  · intro slot entry hentry
    show (NativeEntry.table.map _)[slot]? = _
    rw [Array.getElem?_map, hentry]
    rfl
  · show (NativeEntry.table.map _).size = _
    rw [Array.size_map]
    rfl

/-- An accepted program has been gone through without errors, and at its end the run ends. -/
theorem LabelCode.ofProgram_eq_ok {p : Program} {code : LabelCode}
    (h : LabelCode.ofProgram p = .ok code) :
    ∃ b, Lower.stmts p Builder.top = .ok () b ∧ b.errors = [] ∧
      code = ⟨b.block.fresh.2.add .exit, b.functions, b.scopes.vars⟩ := by
  unfold LabelCode.ofProgram at h
  cases hp : Lower.program p .initial with
  | error e b =>
    rw [hp] at h
    cases h
  | ok u b =>
    simp only [hp] at h
    by_cases hclean : b.errors.isEmpty = true
    · rw [if_pos hclean] at h
      cases h
      obtain ⟨_, b₁, h₁, h₂⟩ := bind_eq_ok.1 hp
      cases h₂
      obtain ⟨b₂, h₃, rfl⟩ := Lower.inScope_eq_ok h₁
      exact ⟨b₂, h₃, List.isEmpty_iff.1 hclean, rfl⟩
    · rw [if_neg hclean] at h
      cases h

/-- **The label code of an accepted program** is what its tree emits. -/
theorem LabelCode.ofProgram_spec {p : Program} {code : LabelCode}
    (h : LabelCode.ofProgram p = .ok code) : code.Lowers p := by
  obtain ⟨b, hb, hclean, rfl⟩ := LabelCode.ofProgram_eq_ok h
  obtain ⟨hr, ha⟩ := Lower.stmts_spec p Builder.standsAt_top hb hclean
  refine ⟨?_, hr.functions, ha, hr.accepted⟩
  show b.block.fresh.2.add .exit = p.main
  rw [hr.block]
  rfl

end Stackscript
