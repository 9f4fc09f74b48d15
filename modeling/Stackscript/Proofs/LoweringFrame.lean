import Stackscript.Label.OfTree
import Stackscript.Proofs.Lists

/-!
# What lowering leaves behind

Lowering is made up of a few actions on the builder. If a relation between builders holds across
each of these, then it holds between the builder before and after any expression and any statement,
whether or not the lowering of it fails. The body of a function is the one place where the builder
is changed and put back: there it matters that the lowering of statements records errors and goes
on.

* equations for the actions that look at the builder;
* `Lower.leaves`, `Lower.Total`;
* `Lower.Stable`, a relation that holds across single actions; `Lower.Along`;
* **`Lower.along_stmt`**.
-/

namespace Stackscript

namespace Lower

variable {α β : Type}

/-! ## The builder afterwards -/

/-- The builder as an action leaves it. -/
def leaves (x : Lower α) (b : Builder) : Builder :=
  match x b with
  | .ok _ b => b
  | .error _ b => b

theorem leaves_of_ok {x : Lower α} {a : α} {b b' : Builder} (h : x b = .ok a b') :
    leaves x b = b' := by
  rw [leaves, h]

theorem leaves_of_error {x : Lower α} {e : Located StaticError} {b b' : Builder}
    (h : x b = .error e b') :
    leaves x b = b' := by rw [leaves, h]

theorem leaves_bind_of_ok {x : Lower α} {f : α → Lower β} {a : α} {b b' : Builder}
    (h : x b = .ok a b') : leaves (x >>= f) b = leaves (f a) b' := by
  show leaves (EStateM.bind x f) b = _
  unfold leaves EStateM.bind
  rw [h]

theorem leaves_bind_of_error {x : Lower α} {f : α → Lower β} {e : Located StaticError}
    {b b' : Builder} (h : x b = .error e b') : leaves (x >>= f) b = b' := by
  show leaves (EStateM.bind x f) b = _
  unfold leaves EStateM.bind
  rw [h]

/-! ## Actions -/

theorem get_bind (f : Builder → Lower α) (b : Builder) : (get >>= f) b = f b b := rfl

theorem emit_bind (i : Instr) (f : Unit → Lower α) (b : Builder) :
    (emit i >>= f) b = f () { b with block := b.block.add i } := rfl

theorem reserve_bind (f : LabelId → Lower α) (b : Builder) :
    (reserve >>= f) b = f b.block.nextLabel { b with block := b.block.reserve.2 } := rfl

theorem fresh_bind (f : LabelId → Lower α) (b : Builder) :
    (fresh >>= f) b = f b.block.nextLabel { b with block := b.block.fresh.2 } := rfl

theorem bindLabel_bind (id : LabelId) (f : Unit → Lower α) (b : Builder) :
    (Lower.bind id >>= f) b = f () { b with block := b.block.bind id } := rfl

theorem inScope_eq_ok {kind : ScopeKind} {x : Lower α} {a : α} {b b' : Builder}
    (h : inScope kind x b = .ok a b') :
    ∃ b₁, x { b with scopes := b.scopes.enter kind } = .ok a b₁ ∧
      b' = { b₁ with scopes := b₁.scopes.leave } := by
  unfold inScope at h
  cases hx : x { b with scopes := b.scopes.enter kind } with
  | ok a' b₁ =>
    rw [hx] at h
    cases h
    exact ⟨b₁, rfl, rfl⟩
  | error e b₁ =>
    rw [hx] at h
    cases h

theorem declareAs_eq (name : Located String) (storage : Storage) (owner : Option Nat)
    (b : Builder) :
    declareAs name storage owner b =
      match b.scopes.declare name.val storage owner with
      | .ok (id, scopes) => .ok id { b with scopes }
      | .error e => .error ⟨name.span, .declare e⟩ b := by
  rw [declareAs, get_bind]
  cases b.scopes.declare name.val storage owner <;> rfl

/-- A declaration adds a variable to the table and binds its name in the innermost scope. -/
theorem declareAs_eq_ok {name : Located String} {storage : Storage} {owner : Option Nat}
    {id : VarId} {b b' : Builder} (h : declareAs name storage owner b = .ok id b') :
    ∃ s outer, b.scopes.scopes = s :: outer ∧ id = b.scopes.vars.size ∧ b' = { b with
      scopes := ⟨b.scopes.vars.push ⟨name.val, storage, b.scopes.depth, owner⟩,
        { s with bindings := (name.val, b.scopes.vars.size) :: s.bindings } :: outer⟩ } := by
  rw [declareAs_eq, ScopeTable.declare] at h
  cases hs : b.scopes.scopes with
  | nil =>
    rw [hs] at h
    cases h
  | cons s outer =>
    rw [hs] at h
    by_cases hdup : (s.bindings.lookup name.val).isSome = true
    · simp only [if_pos hdup] at h
      cases h
    · simp only [if_neg hdup] at h
      cases h
      exact ⟨s, outer, rfl, rfl, rfl⟩

theorem resolve_eq (name : String) (span : Span) (b : Builder) :
    resolve name span b =
      match b.scopes.lookup? name with
      | none => .error ⟨span, .unknownVariable name⟩ b
      | some id =>
        match b.scopes.vars[id]? with
        | none => .error ⟨span, .unknownVariable name⟩ b
        | some v =>
          if isCaptured b.function v then
            .error ⟨span, .captured name v.owner.isSome⟩ { b with scopes := b.scopes.markClosed id }
          else .ok (id, v) b := by
  rw [resolve, get_bind]
  cases b.scopes.lookup? name with
  | none => rfl
  | some id =>
    simp only
    cases b.scopes.vars[id]? with
    | none => rfl
    | some v =>
      simp only
      split <;> rfl

theorem beginFunction_eq (name : Located String) (params : List (Located String)) :
    beginFunction name params = declare name true >>= fun id b =>
      if maxArguments < params.length then
        .error ⟨name.span, .tooManyParameters name.val params.length⟩ b
      else .ok b.functions.size { b with
        block := ((b.block.add (.functionRef b.functions.size)).add .makeFunction).add (.store id)
        functions := b.functions.push ⟨name.val, [], .empty⟩ } := by
  unfold beginFunction
  congr 1
  funext id b
  split <;> rfl

/-- A function is declared and started, unless its name cannot be declared or it has too many
parameters. -/
theorem beginFunction_cases (name : Located String) (params : List (Located String)) (b : Builder) :
    (∃ e, beginFunction name params b = .error e (leaves (declare name true) b)) ∨
      ∃ id b', declare name true b = .ok id b' ∧
        beginFunction name params b = .ok b'.functions.size { b' with
        block := ((b'.block.add (.functionRef b'.functions.size)).add .makeFunction).add (.store id)
        functions := b'.functions.push ⟨name.val, [], .empty⟩ } := by
  rw [beginFunction_eq]
  show (∃ e, EStateM.bind (declare name true) _ b = _) ∨ ∃ id b', _ ∧
    EStateM.bind (declare name true) _ b = _
  unfold EStateM.bind leaves
  cases declare name true b with
  | error e b' => exact .inl ⟨e, rfl⟩
  | ok id b' =>
    by_cases hp : maxArguments < params.length
    · simp only [if_pos hp]
      exact .inl ⟨_, rfl⟩
    · simp only [if_neg hp]
      exact .inr ⟨id, b', rfl, rfl⟩

theorem inFunction_eq (index : Nat) (action : Lower (List VarId)) (b : Builder) :
    inFunction index action b =
      match inScope .function action { b with block := .empty, function := some index } with
      | .ok params b' => .ok () { b' with
          block := b.block
          function := b.function
          functions := b'.functions.modify index
            fun f => { f with parameters := params, block := b'.block } }
      | .error e b' => .error e b' := by
  unfold inFunction
  show EStateM.bind (inScope .function action) _
    { b with block := .empty, function := some index } = _
  unfold EStateM.bind
  cases inScope .function action { b with block := .empty, function := some index } <;> rfl

theorem inFunction_of_ok {index : Nat} {action : Lower (List VarId)} {params : List VarId}
    {b b' : Builder}
    (h : action { b with
      scopes := b.scopes.enter .function
      block := .empty
      function := some index } = .ok params b') :
    inFunction index action b = .ok () { b' with
      scopes := b'.scopes.leave
      block := b.block
      function := b.function
      functions := b'.functions.modify index fun f =>
        { f with parameters := params, block := b'.block } } := by
  rw [inFunction_eq, inScope, h]

/-! ## Actions that never fail -/

/-- An action never fails. -/
def Total (x : Lower α) : Prop := ∀ b, ∃ a b', x b = .ok a b'

theorem total_pure (a : α) : Total (pure a) := fun b => ⟨a, b, rfl⟩

theorem total_emit (i : Instr) : Total (emit i) := fun _ => ⟨(), _, rfl⟩

theorem total_record (e : Located StaticError) : Total (record e) := fun _ => ⟨(), _, rfl⟩

theorem Total.bind {x : Lower α} {f : α → Lower β} (hx : Total x) (hf : ∀ a, Total (f a)) :
    Total (x >>= f) := by
  intro b
  obtain ⟨a, b₁, h₁⟩ := hx b
  obtain ⟨r, b₂, h₂⟩ := hf a b₁
  exact ⟨r, b₂, bind_eq_ok.2 ⟨a, b₁, h₁, h₂⟩⟩

theorem total_recording (x : Lower Unit) : Total (recording x) := by
  intro b
  unfold recording
  cases x b with
  | ok _ b' => exact ⟨(), b', rfl⟩
  | error e b' => exact total_record e b'

/-- Errors in statements are recorded. -/
theorem total_stmts : (ss : List Stmt) → Total (stmts ss)
  | [] => total_pure ()
  | s :: ss => (total_recording (stmt s)).bind fun _ => total_stmts ss

theorem total_parameters (owner : Nat) : (ps : List (Located String)) → Total (parameters owner ps)
  | [] => total_pure []
  | p :: ps => by
    intro b
    unfold parameters
    cases declareAs p .functionMutable (some owner) b with
    | ok id b' => exact ((total_parameters owner ps).bind fun ids => total_pure (id :: ids)) b'
    | error e b' => exact ((total_record e).bind fun _ => total_parameters owner ps) b'

/-! ## Relations across actions -/

/-- **A relation that holds across single actions**, between the builder before and after. The body
of a function is lowered in a block of its own, for the function that has been added last. -/
structure Stable (R : Builder → Builder → Prop) : Prop where
  refl : ∀ b, R b b
  trans : ∀ {b₁ b₂ b₃}, R b₁ b₂ → R b₂ b₃ → R b₁ b₃
  add : ∀ b i, R b { b with block := b.block.add i }
  reserve : ∀ b, R b { b with block := b.block.reserve.2 }
  start : ∀ b id, R b { b with block := b.block.bind id }
  record : ∀ b e, R b { b with errors := e :: b.errors }
  declare : ∀ {b name storage owner id scopes}, b.scopes.declare name storage owner =
    .ok (id, scopes) → R b { b with scopes }
  markClosed : ∀ b id, R b { b with scopes := b.scopes.markClosed id }
  inScope : ∀ {b b'} kind, R { b with scopes := b.scopes.enter kind } b' →
    R b { b' with scopes := b'.scopes.leave }
  inFunction : ∀ {b b'} name params,
    R { b with
        scopes := b.scopes.enter .function
        block := .empty
        function := some b.functions.size
        functions := b.functions.push ⟨name, [], .empty⟩ } b' →
    R b { b' with
      scopes := b'.scopes.leave
      block := b.block
      function := b.function
      functions := b'.functions.modify b.functions.size fun f =>
        { f with parameters := params, block := b'.block } }

/-- The relation holds between the builder before and after an action. -/
def Along (R : Builder → Builder → Prop) (x : Lower α) : Prop := ∀ b, R b (leaves x b)

variable {R : Builder → Builder → Prop} (hR : Stable R)

include hR

theorem along_pure (a : α) : Along R (pure a) := fun b => hR.refl b

theorem along_fail (span : Span) (e : StaticError) : Along R (fail span e : Lower α) :=
  fun b => hR.refl b

theorem along_get : Along R (get : Lower Builder) := fun b => hR.refl b

theorem along_emit (i : Instr) : Along R (emit i) := fun b => hR.add b i

theorem along_reserve : Along R reserve := fun b => hR.reserve b

theorem along_fresh : Along R fresh :=
  fun b => hR.trans (hR.reserve b) (hR.start _ b.block.nextLabel)

theorem along_bindLabel (id : LabelId) : Along R (bind id) := fun b => hR.start b id

theorem along_record (e : Located StaticError) : Along R (record e) := fun b => hR.record b e

theorem Along.bind {x : Lower α} {f : α → Lower β} (hx : Along R x) (hf : ∀ a, Along R (f a)) :
    Along R (x >>= f) := by
  intro b
  have hb := hx b
  cases h : x b with
  | ok a b' =>
    rw [leaves_of_ok h] at hb
    rw [leaves_bind_of_ok h]
    exact hR.trans hb (hf a b')
  | error e b' =>
    rw [leaves_of_error h] at hb
    rw [leaves_bind_of_error h]
    exact hb

theorem Along.inScope {x : Lower α} (hx : Along R x) (kind : ScopeKind) :
    Along R (inScope kind x) := by
  intro b
  have hb := hR.inScope kind (hx { b with scopes := b.scopes.enter kind })
  unfold leaves at hb ⊢
  unfold Lower.inScope
  cases h : x { b with scopes := b.scopes.enter kind } <;> rw [h] at hb <;> exact hb

theorem Along.recording {x : Lower Unit} (hx : Along R x) : Along R (recording x) := by
  intro b
  have hb := hx b
  unfold leaves at hb ⊢
  unfold Lower.recording
  cases h : x b with
  | ok a b' =>
    rw [h] at hb
    exact hb
  | error e b' =>
    rw [h] at hb
    exact hR.trans hb (hR.record b' e)

theorem along_declareAs (name : Located String) (storage : Storage) (owner : Option Nat) :
    Along R (declareAs name storage owner) := by
  intro b
  unfold leaves
  rw [declareAs_eq]
  cases hd : b.scopes.declare name.val storage owner with
  | ok r => exact hR.declare hd
  | error e => exact hR.refl b

theorem along_declare (name : Located String) (constant : Bool) : Along R (declare name constant) :=
  (along_get hR).bind hR fun b => along_declareAs hR name _ b.function

theorem along_resolve (name : String) (span : Span) : Along R (resolve name span) := by
  intro b
  unfold leaves
  rw [resolve_eq]
  cases b.scopes.lookup? name with
  | none => exact hR.refl b
  | some id =>
    cases hv : b.scopes.vars[id]? with
    | none => simp only [hv]; exact hR.refl b
    | some v =>
      by_cases hc : isCaptured b.function v = true
      · simp only [hv, if_pos hc]
        exact hR.markClosed b id
      · simp only [hv, if_neg hc]
        exact hR.refl b

theorem along_checkIndexable (object : Expr) : Along R (checkIndexable object) := by
  unfold checkIndexable
  split
  · exact along_fail hR _ _
  · exact along_fail hR _ _
  · exact along_fail hR _ _
  · exact along_pure hR ()

theorem along_checkCall (span : Span) (callee : Expr) (args : List Expr) :
    Along R (checkCall span callee args) := by
  unfold checkCall
  split
  · exact along_fail hR _ _
  · split
    · exact along_fail hR _ _
    · exact along_pure hR ()

mutual

theorem along_expr : (e : Expr) → Along R (expr e)
  | .number .. | .string .. | .boolean _ true | .boolean _ false | .null _ => along_emit hR _
  | .array _ items => (along_exprs items).bind hR fun _ => along_emit hR _
  | .ident span name => (along_resolve hR name span).bind hR fun _ => along_emit hR _
  | .binary _ _ left right =>
    (along_expr left).bind hR fun _ => (along_expr right).bind hR fun _ => along_emit hR _
  | .unary _ _ arg => (along_expr arg).bind hR fun _ => along_emit hR _
  | .cond _ test yes no =>
    (along_expr test).bind hR fun _ => (along_reserve hR).bind hR fun _ =>
      (along_reserve hR).bind hR fun _ =>
      (along_emit hR _).bind hR fun _ => (along_fresh hR).bind hR fun _ =>
        (along_expr yes).bind hR fun _ =>
      (along_emit hR _).bind hR fun _ => (along_bindLabel hR _).bind hR fun _ =>
        (along_expr no).bind hR fun _ =>
      along_bindLabel hR _
  | .assign _ target value => by
    refine (along_resolve hR target.val target.span).bind hR fun (id, v) => ?_
    by_cases hc : v.storage.isConstant = true
    · simp only [if_pos hc]
      exact along_fail hR _ _
    · simp only [if_neg hc]
      exact (along_expr value).bind hR fun _ => (along_emit hR _).bind hR fun _ => along_emit hR _
  | .assignAt _ _ object position value =>
    (along_checkIndexable hR object).bind hR fun _ => (along_expr object).bind hR fun _ =>
      (along_expr position).bind hR fun _ => (along_expr value).bind hR fun _ => along_emit hR _
  | .index _ object position =>
    (along_checkIndexable hR object).bind hR fun _ => (along_expr object).bind hR fun _ =>
      (along_expr position).bind hR fun _ => along_emit hR _
  | .call span callee args =>
    (along_checkCall hR span callee args).bind hR fun _ => (along_exprs args).bind hR fun _ =>
      (along_expr callee).bind hR fun _ => along_emit hR _

theorem along_exprs : (es : List Expr) → Along R (exprs es)
  | [] => along_pure hR ()
  | e :: es => (along_expr e).bind hR fun _ => along_exprs es

end

theorem along_initialValue : (init : Option Expr) → Along R (initialValue init)
  | some e => along_expr hR e
  | none => along_emit hR _

theorem along_declareAndStore (name : Located String) (constant : Bool) :
    Along R (declareAndStore name constant) :=
  (along_declare hR name constant).bind hR fun _ => along_emit hR _

theorem along_parameters (owner : Nat) : (ps : List (Located String)) →
    Along R (parameters owner ps)
  | [] => along_pure hR []
  | p :: ps => by
    intro b
    have hp := along_declareAs hR p .functionMutable (some owner) b
    unfold leaves at hp ⊢
    unfold parameters
    cases h : declareAs p .functionMutable (some owner) b with
    | ok id b' =>
      rw [h] at hp
      exact hR.trans hp (((along_parameters owner ps).bind hR fun ids =>
        along_pure hR (id :: ids)) b')
    | error e b' =>
      rw [h] at hp
      exact hR.trans hp (((along_record hR e).bind hR fun _ => along_parameters owner ps) b')

/-- **The builder is put back after the body of a function**, as the lowering of the body does not
fail. -/
theorem along_function (name : Located String) (params : List (Located String)) {body : Nat →
      Lower (List VarId)}
    (hbody : ∀ index, Along R (body index)) (htotal : ∀ index, Total (body index)) :
    Along R (beginFunction name params >>= fun index => inFunction index (body index)) := by
  intro b
  have hdeclare := along_declare hR name true b
  obtain ⟨e, h⟩ | ⟨id, b₁, h₁, h⟩ := beginFunction_cases name params b
  · rw [leaves_bind_of_error h]
    exact hdeclare
  · rw [leaves_of_ok h₁] at hdeclare
    rw [leaves_bind_of_ok h]
    generalize hblock :
      ((b₁.block.add (.functionRef b₁.functions.size)).add .makeFunction).add (.store id) = block
    have hcode : R b₁ { b₁ with block } :=
      hblock ▸ hR.trans (hR.add b₁ _) (hR.trans (hR.add _ .makeFunction) (hR.add _ (.store id)))
    -- the body sees the new function in the table, and nothing of the code that makes its value
    let start : Builder := { b₁ with
      scopes := b₁.scopes.enter .function
      block := .empty
      function := some b₁.functions.size
      functions := b₁.functions.push ⟨name.val, [], .empty⟩ }
    obtain ⟨ids, b₂, h₂⟩ := htotal b₁.functions.size start
    have hinner := hbody b₁.functions.size start
    rw [leaves_of_ok h₂] at hinner
    refine hR.trans hdeclare (hR.trans hcode ?_)
    rw [leaves_of_ok (inFunction_of_ok h₂)]
    exact hR.inFunction name.val ids hinner

mutual

theorem along_stmt : (s : Stmt) → Along R (stmt s)
  | .var name init =>
    (along_initialValue hR init).bind hR fun _ => along_declareAndStore hR name false
  | .const name init => (along_expr hR init).bind hR fun _ => along_declareAndStore hR name true
  | .function name params body => by
    refine along_function hR name params (fun index => ?_) fun index => ?_
    · refine (along_parameters hR index params).bind hR fun ids =>
        (along_stmts body).bind hR fun _ => ?_
      split
      · exact along_pure hR ids
      · exact (along_emit hR _).bind hR fun _ => (along_emit hR _).bind hR fun _ =>
          along_pure hR ids
    · refine (total_parameters index params).bind fun ids => (total_stmts body).bind fun _ => ?_
      split
      · exact total_pure ids
      · exact (total_emit _).bind fun _ => (total_emit _).bind fun _ => total_pure ids
  | .expr e => (along_expr hR e).bind hR fun _ => along_emit hR _
  | .block body => (along_stmts body).inScope hR .normal
  | .ifThen test yes =>
    (along_expr hR test).bind hR fun _ => (along_reserve hR).bind hR fun _ =>
      (along_emit hR _).bind hR fun _ =>
      (along_fresh hR).bind hR fun _ => (along_stmt yes).bind hR fun _ => along_bindLabel hR _
  | .ifElse test yes no =>
    (along_expr hR test).bind hR fun _ => (along_reserve hR).bind hR fun _ =>
      (along_emit hR _).bind hR fun _ =>
      (along_fresh hR).bind hR fun _ => (along_stmt yes).bind hR fun _ =>
        (along_reserve hR).bind hR fun _ =>
      (along_emit hR _).bind hR fun _ => (along_bindLabel hR _).bind hR fun _ =>
        (along_stmt no).bind hR fun _ =>
      along_bindLabel hR _
  | .while test body =>
    (along_reserve hR).bind hR fun _ => (along_fresh hR).bind hR fun _ =>
      (along_expr hR test).bind hR fun _ =>
      (along_emit hR _).bind hR fun _ => (along_fresh hR).bind hR fun _ =>
      ((along_stmt body).inScope hR _).bind hR fun _ => (along_emit hR _).bind hR fun _ =>
        along_bindLabel hR _
  | .return value span => by
    refine (along_get hR).bind hR fun b => ?_
    split
    · exact (along_initialValue hR value).bind hR fun _ => along_emit hR _
    · exact along_fail hR _ _
  | .break span => by
    refine (along_get hR).bind hR fun b => ?_
    split
    · exact along_emit hR _
    · exact along_fail hR _ _
  | .continue span => by
    refine (along_get hR).bind hR fun b => ?_
    split
    · exact along_emit hR _
    · exact along_fail hR _ _
  | .empty => along_pure hR ()

theorem along_stmts : (ss : List Stmt) → Along R (stmts ss)
  | [] => along_pure hR ()
  | s :: ss => ((along_stmt s).recording hR).bind hR fun _ => along_stmts ss

end

end Lower

end Stackscript
