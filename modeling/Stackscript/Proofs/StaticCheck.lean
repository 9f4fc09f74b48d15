import Stackscript.Proofs.StaticScopes

/-!
# Lowering accepts the valid programs

The lowering of a program reports no error exactly if the program keeps the rules. Expressions fail
at the first rule that they break; statements that fail are recorded, and what follows them does not
undo that.

* `Lower.expr_decides`;
* `Lower.parameters_reports`, **`Lower.stmt_reports`**;
* **`ofProgram_ok_iff_valid`**.
-/

namespace Stackscript

/-! ## Expressions -/

namespace Lower

variable {α β : Type} {clean : Builder → Prop} {x : Lower α} {f : α → Lower β} {b : Builder}
  {P : Prop} {fs : List Nat} {ctx : Context}

/-- What only changes the block always succeeds. -/
theorem decides_block {a : α} {block : Block} (h : b.Knows fs ctx)
    (hx : x b = .ok a { b with block }) : Decides x b True fun _ b' => b'.Knows fs ctx :=
  ⟨fun _ => ⟨a, _, hx, h.withBlock block⟩, fun _ _ _ _ => trivial⟩

/-- What only changes the block comes last. -/
theorem Checks.thenBlock (hx : Checks clean x b P fun _ b' => b'.Knows fs ctx)
    (hf : ∀ a b', ∃ r block, f a b' = .ok r { b' with block })
    (hclean : ∀ (b' : Builder) (block : Block), clean { b' with block } → clean b') :
    Checks clean (x >>= f) b P fun _ b' => b'.Knows fs ctx := by
  refine Checks.congr (hx.bindOf (fun a b' h => ?_) fun a b₁ r b₂ h hb₂ =>
    ?_) (and_iff_left trivial)
  · obtain ⟨r, block, heq⟩ := hf a b'
    exact (decides_block h heq).weaken
  · obtain ⟨r', block, heq⟩ := hf a b₁
    cases heq.symm.trans h
    exact hclean b₁ block hb₂

theorem Decides.thenBlock (hx : Decides x b P fun _ b' => b'.Knows fs ctx)
    (hf : ∀ a b', ∃ r block, f a b' = .ok r { b' with block }) :
    Decides (x >>= f) b P fun _ b' => b'.Knows fs ctx := Checks.thenBlock hx hf fun _ _ _ => trivial

theorem Reports.thenBlock (hx : Reports x b P fun _ b' => b'.Knows fs ctx)
    (hf : ∀ a b', ∃ r block, f a b' = .ok r { b' with block }) :
    Reports (x >>= f) b P fun _ b' => b'.Knows fs ctx := Checks.thenBlock hx hf fun _ _ h => h

theorem checkIndexable_decides (object : Expr) (b : Builder) :
    Decides (checkIndexable object) b (¬ object.IsScalar) fun _ b' => b' = b := by
  cases object with
  | number | boolean | null => exact ⟨fun h => absurd trivial h, fun _ _ h => nomatch h⟩
  | _ => exact ⟨fun _ => ⟨(), b, rfl, rfl⟩, fun _ _ _ _ h => h⟩

theorem checkCall_decides (span : Span) (callee : Expr) (args : List Expr) (b : Builder) :
    Decides (checkCall span callee args) b (¬ callee.IsLiteral ∧ args.length ≤ 255) fun _ b' =>
      b' = b := by
  have hargs : Decides (if maxArguments < args.length then fail span (.tooManyArguments args.length)
      else pure ()) b (args.length ≤ 255) fun _ b' => b' = b := by
    split
    case isTrue hlt => exact ⟨fun hle => absurd hlt (Nat.not_lt_of_le hle), fun _ _ h => nomatch h⟩
    case isFalse hle => exact ⟨fun _ => ⟨(), b, rfl, rfl⟩, fun _ _ _ _ => Nat.le_of_not_lt hle⟩
  cases callee with
  | number | string | boolean | null | array =>
    exact ⟨fun h => absurd trivial h.1, fun _ _ h => nomatch h⟩
  | _ => exact Checks.congr hargs ⟨fun h => ⟨id, h⟩, And.right⟩

mutual

/-- **The lowering of an expression succeeds exactly if the expression keeps the rules.** -/
theorem expr_decides : (e : Expr) → {b : Builder} → {fs : List Nat} → {ctx : Context} →
    b.Knows fs ctx → Decides (expr e) b (e.Valid ctx) fun _ b' => b'.Knows fs ctx
  | .number .., _, _, _, h | .string .., _, _, _, h | .boolean _ true, _, _, _, h
  | .boolean _ false, _, _, _, h
  | .null _, _, _, _, h => decides_block h rfl
  | .array _ items, _, _, _, h => (exprs_decides items h).thenBlock fun _ _ => ⟨_, _, rfl⟩
  | .ident span name, _, _, _, h => by
    refine Checks.congr ((h.resolve name span).bind fun r b' ⟨hb', _⟩ => ?_) (and_iff_left trivial)
    subst hb'
    exact decides_block h rfl
  | .binary _ _ left right, _, _, _, h =>
    (expr_decides left h).bind fun _ _ h => (expr_decides right h).thenBlock fun _ _ => ⟨_, _, rfl⟩
  | .unary _ _ arg, _, _, _, h => (expr_decides arg h).thenBlock fun _ _ => ⟨_, _, rfl⟩
  | .cond _ test yes no, _, _, _, h => by
    refine (expr_decides test h).bind fun _ _ h => ?_
    refine .after rfl (.after rfl (.after rfl (.after rfl ?_)))
    refine (expr_decides yes (h.withBlock _)).bind fun _ _ h => ?_
    refine .after rfl (.after rfl ?_)
    exact (expr_decides no (h.withBlock _)).thenBlock fun _ _ => ⟨_, _, rfl⟩
  | .assign _ target value, _, _, ctx, h => by
    refine Checks.congr (Q := ctx.Resolves target.val false ∧ value.Valid ctx)
      ((h.resolve target.val target.span).bind (Q := ctx.Resolves target.val false ∧
        value.Valid ctx) fun r b' ⟨hb', hres⟩ => ?_) ⟨And.right, fun hv => ⟨⟨_, hv.1⟩, hv⟩⟩
    subst hb'
    -- a name is fixed exactly if its variable is stored as a constant
    rw [hres]
    by_cases hconst : r.2.storage.isConstant = true
    · simp only [if_pos hconst]
      exact ⟨fun hv => absurd (hv.1.trans hconst) nofun, fun _ _ hx => nomatch hx⟩
    · simp only [if_neg hconst]
      refine Checks.congr ((expr_decides value h).thenBlock fun _ _ => ⟨_, _, rfl⟩) ?_
      exact (and_iff_right (Bool.eq_false_iff.2 hconst).symm).symm
  | .assignAt _ _ object position value, b, _, _, h => by
    refine (checkIndexable_decides object b).bind fun _ b' hb' => ?_
    subst hb'
    exact (expr_decides object h).bind fun _ _ h => (expr_decides position h).bind fun _ _ h =>
      (expr_decides value h).thenBlock fun _ _ => ⟨_, _, rfl⟩
  | .index _ object position, b, _, _, h => by
    refine (checkIndexable_decides object b).bind fun _ b' hb' => ?_
    subst hb'
    exact (expr_decides object h).bind fun _ _ h => (expr_decides position h).thenBlock fun _ _ =>
      ⟨_, _, rfl⟩
  | .call span callee args, b, _, _, h => by
    refine (checkCall_decides span callee args b).bind fun _ b' hb' => ?_
    subst hb'
    exact (exprs_decides args h).bind fun _ _ h => (expr_decides callee h).thenBlock fun _ _ =>
      ⟨_, _, rfl⟩

theorem exprs_decides : (es : List Expr) → {b : Builder} → {fs : List Nat} → {ctx : Context} →
    b.Knows fs ctx → Decides (exprs es) b (Expr.ValidAll ctx es) fun _ b' => b'.Knows fs ctx
  | [], _, _, _, h => decides_block h rfl
  | e :: es, _, _, _, h => (expr_decides e h).bind fun _ _ h => exprs_decides es h

end

theorem initialValue_decides (init : Option Expr) (h : b.Knows fs ctx) :
    Decides (initialValue init) b (Expr.ValidOptional ctx init) fun _ b' => b'.Knows fs ctx :=
  match init with
  | some e => expr_decides e h
  | none => decides_block h rfl

/-! ## Statements -/

theorem declareAndStore_decides (h : b.Knows fs ctx) (name : Located String) (constant : Bool) :
    Decides (declareAndStore name constant) b (ctx.Free name.val)
      fun _ b' => b'.Knows fs (ctx.declare ⟨name.val, constant⟩) :=
  (h.declare name constant).thenBlock fun _ _ => ⟨_, _, rfl⟩

/-- Recording the error of an action instead of failing. -/
theorem Reports.recording {x : Lower Unit} {post : Unit → Builder → Prop} (h : Reports x b P post) :
    Reports (recording x) b P post := by
  refine ⟨fun hp => ?_, fun _ b' hx hclean => h.refuses () b' (recording_eq_ok hx hclean) hclean⟩
  obtain ⟨_, b', hx, hpost⟩ := h.accepts hp
  exact ⟨(), b', by rw [Lower.recording, hx], hpost⟩

theorem Reports.inScope {kind : ScopeKind} {post post' : α → Builder → Prop}
    (h : Reports x { b with scopes := b.scopes.enter kind } P post)
    (hpost : ∀ a b', post a b' → post' a { b' with scopes := b'.scopes.leave }) :
    Reports (inScope kind x) b P post' := by
  refine ⟨fun hp => ?_, fun a b' hok hclean => ?_⟩
  · obtain ⟨a, b', hx, ha⟩ := h.accepts hp
    exact ⟨a, _, by rw [Lower.inScope, hx], hpost a b' ha⟩
  · obtain ⟨b₁, hx, rfl⟩ := inScope_eq_ok hok
    exact h.refuses a b₁ hx hclean

theorem Reports.inFunction {g : Nat} {x : Lower (List VarId)} (h : b.Knows fs ctx)
    (hx : Reports x
      { b with scopes := b.scopes.enter .function, block := .empty, function := some g } P
      fun _ b' => ∃ declared, b'.Knows (g :: fs) (⟨.function, declared⟩ :: ctx)) :
    Reports (inFunction g x) b P fun _ b' => b'.Knows fs ctx := by
  refine ⟨fun hp => ?_, fun _ b' hok hclean => ?_⟩
  · obtain ⟨params, b', hok, declared, hb'⟩ := hx.accepts hp
    have heq : Lower.inScope .function x { b with block := .empty, function := some g } =
        .ok params { b' with scopes := b'.scopes.leave } := by rw [Lower.inScope, hok]
    refine ⟨(), _, by rw [inFunction_eq, heq], ?_⟩
    rw [h.function]
    exact hb'.leaveFunction h.opened _ _
  · obtain ⟨params, b₁, hscope, rfl⟩ := inFunction_eq_ok hok
    obtain ⟨b₂, haction, rfl⟩ := inScope_eq_ok hscope
    exact hx.refuses params b₂ haction hclean

theorem beginFunction_decides (h : b.Knows fs ctx) (name : Located String)
    (params : List (Located String)) :
    Decides (beginFunction name params) b (ctx.Free name.val ∧ params.length ≤ 255) fun index b' =>
      b'.Knows fs (ctx.declare ⟨name.val, true⟩) ∧ (∀ f ∈ fs, f < index) ∧
        index < b'.functions.size := by
  rw [beginFunction_eq]
  refine (h.declare name true).bind fun id b₁ h₁ => ?_
  by_cases hp : maxArguments < params.length
  · refine ⟨fun hle => absurd hp (Nat.not_lt_of_le hle), fun a b' hok => ?_⟩
    simp only [if_pos hp] at hok
    cases hok
  · refine ⟨fun _ =>
      ⟨_, _, if_neg hp, ⟨h₁.mirrors, h₁.natives, h₁.function, fun f hf => ?_, h₁.opened, h₁.clean⟩,
      h₁.functions, ?_⟩, fun _ _ _ _ => Nat.le_of_not_lt hp⟩
    · simp only [Array.size_push]
      exact Nat.lt_succ_of_lt (h₁.functions f hf)
    · simp only [Array.size_push]
      exact Nat.lt_succ_self _

theorem fresh_names_cons (ctx : Context) {p : Located String} {ps : List (Located String)}
    {declared : List Declaration} :
    ((p :: ps).map (·.val)).Nodup ∧ (∀ q ∈ p :: ps, ¬ Region.Declares ⟨.function, declared⟩ q.val) ↔
      Context.Free (⟨.function, declared⟩ :: ctx) p.val ∧ (ps.map (·.val)).Nodup ∧
        ∀ q ∈ ps, ¬ Region.Declares ⟨.function, declared ++ [⟨p.val, false⟩]⟩ q.val := by
  have hdeclares : ∀ name, Region.Declares ⟨.function, declared ++ [⟨p.val, false⟩]⟩ name ↔
      Region.Declares ⟨.function, declared⟩ name ∨ name = p.val := by
    intro name
    simp [Region.Declares, exists_or]
  simp only [List.map_cons, List.nodup_cons, List.forall_mem_cons, hdeclares, not_or, Context.Free,
    List.head?_cons, Option.mem_def, Option.some.injEq, forall_eq',
    List.mem_map, not_exists, not_and]
  grind

/-- **Parameters are declared without errors exactly if their names differ**, also from what is
declared before. -/
theorem parameters_reports {g : Nat} : (ps : List (Located String)) → {b : Builder} →
    {declared : List Declaration} → b.Knows (g :: fs) (⟨.function, declared⟩ :: ctx) →
    Reports (parameters g ps) b
      ((ps.map (·.val)).Nodup ∧ ∀ p ∈ ps, ¬ Region.Declares ⟨.function, declared⟩ p.val)
      fun _ b' => b'.Knows (g :: fs) (⟨.function, declared ++ ps.map (⟨·.val, false⟩)⟩ :: ctx)
  | [], b, declared, h => by
    refine ⟨fun _ => ⟨[], b, rfl, ?_⟩, fun _ _ _ _ => ⟨List.nodup_nil, nofun⟩⟩
    rw [List.map_nil, List.append_nil]
    exact h
  | p :: ps, b, declared, h => by
    have hdeclare := h.declareAs p .functionMutable nofun
    rw [List.head?_cons] at hdeclare
    rw [fresh_names_cons ctx]
    refine ⟨fun ⟨hfree, hvalid⟩ => ?_, fun ids b' hok hclean => ?_⟩
    · obtain ⟨id, b₁, hp, h₁⟩ := hdeclare.accepts hfree
      obtain ⟨ids, b', hps, hb'⟩ := (parameters_reports ps h₁).accepts hvalid
      refine ⟨id :: ids, b', ?_, by rwa [List.append_assoc] at hb'⟩
      unfold parameters
      rw [hp]
      show EStateM.map _ (parameters g ps) b₁ = _
      rw [EStateM.map, hps]
    · unfold parameters at hok
      cases hp : declareAs p .functionMutable (some g) b with
      | ok id b₁ =>
        have hfree := hdeclare.refuses id b₁ hp trivial
        obtain ⟨_, _, hp', h₁⟩ := hdeclare.accepts hfree
        cases hp.symm.trans hp'
        rw [hp] at hok
        obtain ⟨ids', hps, -⟩ := map_eq_ok hok
        exact ⟨hfree, (parameters_reports ps h₁).refuses ids' b' hps hclean⟩
      | error e b₁ =>
        rw [hp] at hok
        cases (keepsErrors_parameters g ps).clean hok hclean

/-- The end of a function body only changes the block. -/
theorem endBody_ok (body : List Stmt) (ids : List VarId) (b : Builder) :
    ∃ block, (if body.getLast?.any isReturn then return ids
      else do
        emit .pushNull
        emit .ret
        return ids : Lower (List VarId)) b = .ok ids { b with block } := by
  split
  · exact ⟨b.block, rfl⟩
  · exact ⟨_, rfl⟩

/-- A jump out of a loop is lowered exactly if there is one. -/
theorem jump_reports (h : b.Knows fs ctx) (span : Span) (e : StaticError) (target : LabelId →
      LabelId → LabelId) :
    Reports (match b.scopes.enclosingLoop? with
      | some (condition, stop) => emit (.goto (target condition stop))
      | none => fail span e) b ctx.InLoop fun _ b' => b'.Knows fs ctx := by
  have hin : b.scopes.enclosingLoop?.isSome = true ↔ ctx.InLoop := h.mirrors.inLoop_iff
  cases hloop : b.scopes.enclosingLoop? with
  | some labels =>
    rw [hloop] at hin
    exact Checks.congr (Decides.weaken (decides_block h rfl)) (iff_of_true trivial (hin.1 rfl))
  | none =>
    rw [hloop] at hin
    exact ⟨fun hv => absurd (hin.2 hv) nofun, fun _ _ hx => nomatch hx⟩

mutual

/-- **The lowering of a statement reports no error exactly if the statement keeps the rules.** -/
theorem stmt_reports : (s : Stmt) → {b : Builder} → {fs : List Nat} → {ctx : Context} →
    b.Knows fs ctx → Reports (stmt s) b (s.Valid ctx) fun _ b' => b'.Knows fs (ctx.after s)
  | .var name init, _, _, _, h =>
    (initialValue_decides init h).bind fun _ _ h => (declareAndStore_decides h name false).weaken
  | .const name init, _, _, _, h =>
    (expr_decides init h).bind fun _ _ h => (declareAndStore_decides h name true).weaken
  | .function name params body, _, _, _, h => by
    refine (beginFunction_decides h name params).bind fun g b₁ ⟨h₁, hlt, hg⟩ =>
      Reports.inFunction h₁ ?_
    -- parameters and body share a region, which is empty at first
    have hparams := Checks.congr (parameters_reports params (h₁.enterFunction hlt hg .empty))
      (and_iff_left fun p _ ⟨_, hp⟩ => nomatch hp)
    refine Reports.bind hparams (fun ids b₂ h₂ => ?_) fun ids =>
      (keepsErrors_stmts body).bind fun _ => ?_
    · obtain ⟨declared, hafter⟩ :=
        Context.afterAll_cons ⟨.function, [] ++ params.map (⟨·.val, false⟩)⟩ _ body
      have hbody := Reports.thenBlock (stmts_reports body h₂) fun _ b₃ =>
        ⟨ids, endBody_ok body ids b₃⟩
      exact hbody.imp fun _ b' h' => ⟨declared, hafter ▸ h'⟩
    · intro b'
      obtain ⟨block, hend⟩ := endBody_ok body ids b'
      exact Nat.le_of_eq (by rw [leaves, hend])
  | .expr e, _, _, _, h => ((expr_decides e h).thenBlock fun _ _ => ⟨_, _, rfl⟩).weaken
  | .block body, _, _, ctx, h => by
    refine Reports.inScope (stmts_reports body (h.enter nofun)) fun _ b' h' => ?_
    obtain ⟨declared, hafter⟩ := Context.afterAll_cons ⟨.plain, []⟩ ctx body
    rw [hafter] at h'
    exact h'.leave nofun h.opened
  | .ifThen test yes, _, _, _, h => by
    refine (expr_decides test h).bind fun _ _ h => .after rfl (.after rfl (.after rfl ?_))
    exact Reports.thenBlock (stmt_reports yes (h.withBlock _)) fun _ _ => ⟨_, _, rfl⟩
  | .ifElse test yes no, _, _, _, h => by
    refine (expr_decides test h).bind fun _ _ h => .after rfl (.after rfl (.after rfl ?_))
    -- what the first branch declares is known in the second, and its errors stay recorded
    refine Reports.bind (stmt_reports yes (h.withBlock _))
      (fun _ _ h => .after rfl (.after rfl (.after rfl ?_))) fun _ => ?_
    · exact Reports.thenBlock (stmt_reports no (h.withBlock _)) fun _ _ => ⟨_, _, rfl⟩
    · exact keepsErrors_reserve.bind fun _ => (keepsErrors_emit _).bind fun _ =>
        (keepsErrors_bindLabel _).bind fun _ =>
        (keepsErrors_stmt no).bind fun _ => keepsErrors_bindLabel _
  | .while test body, _, _, ctx, h => by
    refine .after rfl (.after rfl ?_)
    refine (expr_decides test (h.withBlock _)).bind fun _ _ h => .after rfl (.after rfl ?_)
    refine Reports.thenBlock (Reports.inScope (stmt_reports body ((h.withBlock _).enter nofun))
      fun _ b' h' => ?_) fun _ _ => ⟨_, _, rfl⟩
    obtain ⟨declared, hafter⟩ := Context.after_cons ⟨.loop, []⟩ ctx body
    exact (hafter ▸ h').leave nofun h.opened
  | .return value span, b, _, ctx, h => by
    refine .after (rfl : (get : Lower Builder) b = .ok b b) ?_
    have hin := h.mirrors.inFunction_iff
    split
    case isTrue hf =>
      refine Checks.congr ((initialValue_decides value h).thenBlock fun _ _ =>
        ⟨_, _, rfl⟩).weaken ?_
      exact (and_iff_right (hin.1 hf)).symm
    case isFalse hf => exact ⟨fun hv => absurd (hin.2 hv.1) hf, fun _ _ hx => nomatch hx⟩
  | .break span, b, _, _, h => by
    refine .after (rfl : (get : Lower Builder) b = .ok b b) ?_
    exact jump_reports h span .breakOutside fun _ stop => stop
  | .continue span, b, _, _, h => by
    refine .after (rfl : (get : Lower Builder) b = .ok b b) ?_
    exact jump_reports h span .continueOutside fun condition _ => condition
  | .empty, _, _, _, h => (decides_block h rfl).weaken

theorem stmts_reports : (ss : List Stmt) → {b : Builder} → {fs : List Nat} → {ctx : Context} →
    b.Knows fs ctx →
    Reports (stmts ss) b (Stmt.ValidAll ctx ss) fun _ b' => b'.Knows fs (ctx.afterAll ss)
  | [], _, _, _, h => (decides_block h rfl).weaken
  | s :: ss, _, _, _, h =>
    Reports.bind (stmt_reports s h).recording (fun _ _ h => stmts_reports ss h) fun _ =>
      keepsErrors_stmts ss

end

end Lower

/-! ## Programs -/

theorem Builder.knows_top : Builder.top.Knows [] [⟨.plain, []⟩] :=
  ⟨.inside .nil nofun rfl fun name => binds_empty _ _ _ _ name, Builder.standsAt_top.natives, rfl,
    nofun, List.cons_ne_nil _ _, rfl⟩

theorem Lower.program_reports (p : Program) :
    Reports (Lower.program p) .initial p.Valid fun _ b' => b'.errors = [] := by
  have hbody : Reports (inScope .normal (stmts p)) .initial p.Valid fun _ b' => b'.errors = [] :=
    Reports.inScope (stmts_reports p Builder.knows_top) fun _ _ h => h.clean
  refine Checks.congr (Reports.bind hbody (fun _ b' hclean => ?_)
    fun _ => keepsErrors_fresh.bind fun _ => keepsErrors_emit _) (and_iff_left trivial)
  exact ⟨fun _ => ⟨_, _, rfl, hclean⟩, fun _ _ _ _ => trivial⟩

/-- **Lowering accepts exactly the valid programs.** -/
theorem ofProgram_ok_iff_valid (p : Program) :
    (∃ code, LabelCode.ofProgram p = .ok code) ↔ p.Valid := by
  have hreports := Lower.program_reports p
  constructor
  · rintro ⟨code, h⟩
    unfold LabelCode.ofProgram at h
    split at h
    case h_1 b hb =>
      split at h
      case isTrue hclean => exact hreports.refuses () b hb (List.isEmpty_iff.1 hclean)
      case isFalse => cases h
    case h_2 => cases h
  · intro hvalid
    obtain ⟨_, b, hb, hclean⟩ := hreports.accepts hvalid
    unfold LabelCode.ofProgram
    simp only [hb, hclean, List.isEmpty_nil, if_true]
    exact ⟨_, rfl⟩

end Stackscript
