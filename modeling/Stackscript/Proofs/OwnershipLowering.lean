import Stackscript.Proofs.LoweringSpec
import Stackscript.Proofs.Mentions
import Stackscript.Proofs.Ownership
import Stackscript.Tree.Statement

/-!
# Lowered programs respect the owners of variables

The capture of a variable is found by its owner and by the depth of its declaration alone. That
suffices: whatever is declared in a function is declared below the top level and has the function
for its owner, and nothing else has. Every action of lowering adds to the current block and to the
functions a part of a program that respects owners, or else an error is recorded.

* `Variable.Fits`, `Builder.Placed`: what holds of the builder at every point;
* `Builder.Grows`: what an action adds; `Lower.KeepsOwners`;
* `Builder.Placed.resolve`, `Builder.Placed.declare`, `Lower.keepsOwners_function`;
* **`LabelCode.ofProgram_owned`**.
-/

namespace Stackscript

/-! ## The builder -/

/-- The storage, the owner and the depth of a variable fit each other. -/
def Variable.Fits (v : Variable) : Prop :=
  v.storage = .native ∨ (v.storage.isGlobal = true ∧ v.owner = none ∧ 0 ≤ v.scopeIndex) ∨
    (v.storage.isLocal = true ∧ v.owner.isSome = true ∧ 0 < v.scopeIndex)

/-- The kinds of the open scopes, innermost first. -/
def ScopeTable.kinds (t : ScopeTable) : List ScopeKind := t.scopes.map (·.kind)

/-- **The builder at a point of a program**: variables are what they seem, and a function is lowered
exactly if one of the scopes is a function body, which is then not the outermost one. -/
structure Builder.Placed (b : Builder) : Prop where
  vars : ∀ v ∈ b.scopes.vars, v.Fits
  opened : b.scopes.kinds ≠ []
  function : b.scopes.kinds.contains .function = b.function.isSome
  deep : b.function.isSome = true → 2 ≤ b.scopes.kinds.length

/-- **What an action adds to the builder**: variables, instructions and functions that respect
owners. -/
structure Builder.Grows (b b' : Builder) : Prop where
  placed : b'.Placed
  function : b'.function = b.function
  kinds : b'.scopes.kinds = b.scopes.kinds
  vars : VarsGrow b.scopes.vars b'.scopes.vars
  code : ∃ is fs, b'.block.instrs = b.block.instrs ++ is ∧
    b'.functions.toList = b.functions.toList ++ fs ∧
    Respects b'.scopes.vars b.scopes.vars.size (attributed b.function is b.functions.size fs)

theorem Builder.inFunction_eq (b : Builder) :
    b.scopes.inFunction = b.scopes.kinds.contains .function := by
  rw [ScopeTable.inFunction, ScopeTable.kinds, List.contains_eq_any_beq, List.any_map]
  congr 1
  funext s
  exact Bool.beq_comm

/-- Another builder in the same scopes. -/
theorem Builder.Placed.of_kinds {b b' : Builder} (h : b.Placed)
    (hvars : ∀ v ∈ b'.scopes.vars, v.Fits)
    (hkinds : b'.scopes.kinds = b.scopes.kinds) (hfunction : b'.function = b.function) :
    b'.Placed :=
  ⟨hvars, by rw [hkinds]; exact h.opened, by rw [hkinds, hfunction]; exact h.function,
    by rw [hkinds, hfunction]; exact h.deep⟩

namespace Builder.Grows

variable {b b₁ b₂ : Builder}

theorem trans (h₁ : b.Grows b₁) (h₂ : b₁.Grows b₂) : b.Grows b₂ := by
  obtain ⟨is₁, fs₁, hblock₁, hfunctions₁, hrespects₁⟩ := h₁.code
  obtain ⟨is₂, fs₂, hblock₂, hfunctions₂, hrespects₂⟩ := h₂.code
  refine ⟨h₂.placed, h₂.function.trans h₁.function, h₂.kinds.trans h₁.kinds, h₁.vars.trans h₂.vars,
    is₁ ++ is₂, fs₁ ++ fs₂, ?_, ?_, ?_⟩
  · rw [hblock₂, hblock₁, List.append_assoc]
  · rw [hfunctions₂, hfunctions₁, List.append_assoc]
  · have hsize : b₁.functions.size = b.functions.size + fs₁.length := by
      rw [← Array.length_toList, hfunctions₁, List.length_append, Array.length_toList]
    rw [h₁.function, hsize] at hrespects₂
    exact (hrespects₁.append h₁.vars.size_le h₂.vars hrespects₂).perm (attributed_append ..)

end Builder.Grows

namespace Builder.Placed

variable {b : Builder}

/-- What is added to the current block, and only there. -/
theorem withBlock (h : b.Placed) {block : Block} {is : List Instr}
    (hblock : block.instrs = b.block.instrs ++ is)
    (his : ∀ i ∈ is, i.Allowed b.scopes.vars b.function ∧
      ∀ id v, i = .store id → b.scopes.vars[id]? = some v → v.storage.isDeclaredConstant = false) :
    b.Grows { b with block } := by
  refine ⟨⟨h.vars, h.opened, h.function, h.deep⟩, rfl, rfl, .refl _, is, [], hblock,
    (List.append_nil _).symm, ?_⟩
  refine .of_allowed (fun p hp => ?_) fun p hp => ?_
  all_goals
    obtain ⟨i, hi, rfl⟩ :=
      List.mem_map.1 (by simpa [attributed] using hp : p ∈ is.map (b.function, ·))
  · exact (his i hi).1
  · exact (his i hi).2

/-- Instructions that use no variable are added. -/
theorem withPlain (h : b.Placed) {block : Block} {is : List Instr}
    (hblock : block.instrs = b.block.instrs ++ is)
    (his : ∀ i ∈ is, i.isAccess = false) : b.Grows { b with block } := by
  refine h.withBlock hblock fun i hi => ⟨.of_not_isAccess (his i hi), ?_⟩
  rintro id v rfl
  cases his _ hi

theorem refl (h : b.Placed) : b.Grows b := h.withPlain (List.append_nil _).symm nofun

/-- **A name that is resolved** stands for a variable that may be used here. -/
theorem resolve (h : b.Placed) {name : String} {span : Span} {id : VarId} {v : Variable}
    {b' : Builder} (hr : Lower.resolve name span b = .ok (id, v) b') :
    b' = b ∧ b.scopes.vars[id]? = some v ∧ (v.storage = .native ∨ v.UsableIn b.function) := by
  rw [Lower.resolve_eq] at hr
  cases hid : b.scopes.lookup? name with
  | none => rw [hid] at hr; cases hr
  | some id' =>
    simp only [hid] at hr
    cases hv : b.scopes.vars[id']? with
    | none => rw [hv] at hr; cases hr
    | some w =>
      simp only [hv] at hr
      split at hr
      · cases hr
      case isFalse hcaptured =>
        cases hr
        refine ⟨rfl, hv, ?_⟩
        -- what is not captured belongs to the function that is being lowered, or is declared at
        -- depth zero
        simp only [Lower.isCaptured, Bool.and_eq_true, bne_iff_ne,
          decide_eq_true_eq, not_and] at hcaptured
        rcases h.vars v (Array.mem_of_getElem? hv) with hnative | ⟨hglobal, howner,
          hdepth⟩ | ⟨hlocal, howner, hdepth⟩
        · exact .inl hnative
        · refine .inr ?_
          cases hf : b.function with
          | none => exact hglobal
          | some f =>
            refine .inl ⟨hglobal, ?_⟩
            have hnative : v.storage ≠ .native := by rintro hn; rw [hn] at hglobal; cases hglobal
            have hle := hcaptured ⟨hnative, by rw [howner, hf]; exact (Option.some_ne_none f).symm⟩
            omega
        · refine .inr ?_
          have hnative : v.storage ≠ .native := by rintro hn; rw [hn] at hlocal; cases hlocal
          have hsame : v.owner = b.function := by
            by_contra hne
            exact hcaptured ⟨hnative, hne⟩ hdepth
          obtain ⟨f, hf⟩ := Option.isSome_iff_exists.1 howner
          rw [← hsame, hf]
          exact .inr ⟨hlocal, hf⟩

end Builder.Placed

/-- The storage that a declaration gives to a variable. -/
def Storage.Declares (storage : Storage) : (function : Option Nat) → Prop
  | none => storage.isGlobal = true
  | some _ => storage.isLocal = true

/-- **A declaration** adds a variable of the function that is being lowered. -/
theorem Builder.Placed.declareAs {b b' : Builder} (h : b.Placed) {name : Located String}
    {storage : Storage} {id : VarId} (hstorage : storage.Declares b.function)
    (hd : Lower.declareAs name storage b.function b = .ok id b') :
    id = b.scopes.vars.size ∧ ∃ scopes v, b' = { b with scopes } ∧ b'.Placed ∧
      b'.scopes.kinds = b.scopes.kinds ∧ scopes.vars = b.scopes.vars.push v ∧ v.storage = storage ∧
      v.owner = b.function ∧ v.UsableIn b.function := by
  obtain ⟨s, outer, hs, rfl, rfl⟩ := Lower.declareAs_eq_ok hd
  have hlength : b.scopes.kinds.length = b.scopes.scopes.length := List.length_map _
  have hkinds : s.kind :: outer.map (·.kind) = b.scopes.kinds := by rw [ScopeTable.kinds, hs]; rfl
  have hfits : Variable.Fits ⟨name.val, storage, b.scopes.depth, b.function⟩ := by
    have hopen := List.length_pos_iff.2 h.opened
    cases hf : b.function with
    | none =>
      rw [hf] at hstorage
      refine .inr (.inl ⟨hstorage, rfl, ?_⟩)
      show 0 ≤ (b.scopes.scopes.length : Int) - 1
      omega
    | some f =>
      have hdeep := h.deep (by rw [hf]; rfl)
      rw [hf] at hstorage
      refine .inr (.inr ⟨hstorage, rfl, ?_⟩)
      show 0 < (b.scopes.scopes.length : Int) - 1
      omega
  have husable : Variable.UsableIn ⟨name.val, storage, b.scopes.depth, b.function⟩ b.function := by
    cases hf : b.function with
    | none => rw [hf] at hstorage; exact hstorage
    | some f => rw [hf] at hstorage; exact .inr ⟨hstorage, rfl⟩
  refine ⟨rfl, _, ⟨name.val, storage, b.scopes.depth, b.function⟩, rfl,
    h.of_kinds (fun v hv => ?_) hkinds rfl, hkinds, rfl, rfl, rfl, husable⟩
  rcases Array.mem_push.1 hv with hv | rfl
  · exact h.vars v hv
  · exact hfits

theorem Builder.Placed.declare {b b' : Builder} (h : b.Placed) {name : Located String}
    {constant : Bool} {id : VarId} (hd : Lower.declare name constant b = .ok id b') :
    id = b.scopes.vars.size ∧ ∃ scopes v, b' = { b with scopes } ∧ b'.Placed ∧
      b'.scopes.kinds = b.scopes.kinds ∧ scopes.vars = b.scopes.vars.push v ∧ v.owner = b.function ∧
      v.UsableIn b.function := by
  obtain ⟨_, _, hget, hd⟩ := bind_eq_ok.1 hd
  cases hget
  obtain ⟨hid, scopes, v, hb', hplaced, hkinds, hvars, -, howner, husable⟩ := h.declareAs (by
    rw [b.inFunction_eq, h.function]
    cases b.function <;> cases constant <;> rfl) hd
  exact ⟨hid, scopes, v, hb', hplaced, hkinds, hvars, howner, husable⟩

/-- Instructions that use no variable, and the store to a variable that has just been declared. -/
theorem Builder.Placed.declaration {b : Builder} {scopes : ScopeTable} {v : Variable}
    {block : Block} {is : List Instr}
    (h : ({ b with scopes } : Builder).Placed) (hkinds : scopes.kinds = b.scopes.kinds)
    (hvars : scopes.vars = b.scopes.vars.push v) (howner : v.owner = b.function)
    (husable : v.UsableIn b.function)
    (hblock : block.instrs = b.block.instrs ++ (is ++ [.store b.scopes.vars.size]))
    (his : ∀ i ∈ is, i.isAccess = false) : b.Grows { b with scopes, block } := by
  refine ⟨h.of_kinds h.vars rfl rfl, rfl, hkinds,
    by rw [hvars]; exact varsGrow_push _ _, _, [], hblock, (List.append_nil _).symm, ?_⟩
  have hcode : attributed b.function (is ++ [.store b.scopes.vars.size]) b.functions.size [] =
      is.map (b.function, ·) ++ [(v.owner, .store b.scopes.vars.size)] := by
    rw [howner]
    simp [attributed]
  rw [hcode, hvars]
  refine .declaration (howner ▸ husable) fun p hp => ?_
  obtain ⟨i, hi, rfl⟩ := List.mem_map.1 hp
  exact his i hi

/-- Starting a label adds at most a jump. -/
theorem Builder.Placed.bindLabel {b : Builder} (hb : b.Placed) (block : Block)
    (hblock : block.instrs = b.block.instrs) (id : LabelId) :
    b.Grows { b with block := block.bind id } := by
  rcases block.instrs_bind id with h | h
  · exact hb.withPlain (h.trans (hblock.trans (List.append_nil _).symm)) nofun
  · exact hb.withPlain (h.trans (by rw [hblock])) fun j hj => List.mem_singleton.1 hj ▸ rfl

/-- The start of a scope that is not a function body. -/
theorem Builder.Placed.enter {b : Builder} (hb : b.Placed) {kind : ScopeKind}
    (hkind : kind ≠ .function) : ({ b with scopes := b.scopes.enter kind } : Builder).Placed := by
  have hkinds : (b.scopes.enter kind).kinds = kind :: b.scopes.kinds := rfl
  refine ⟨hb.vars, List.cons_ne_nil _ _, ?_, fun hf => Nat.le_succ_of_le (hb.deep hf)⟩
  rw [hkinds, List.contains_cons, hb.function, beq_eq_false_iff_ne.2 (Ne.symm hkind), Bool.false_or]

/-- The start of a function body. -/
theorem Builder.Placed.enterFunction {b : Builder} (hb : b.Placed) (index : Nat) :
    ({ b with scopes := b.scopes.enter .function, block := .empty, function := some index } :
      Builder).Placed :=
  ⟨hb.vars, List.cons_ne_nil _ _, rfl, fun _ => Nat.succ_le_succ (List.length_pos_iff.2 hb.opened)⟩

/-- Closing the scope that was opened leaves the scopes around it. -/
theorem ScopeTable.kinds_leave {t t' : ScopeTable} {kind : ScopeKind}
    (h : t'.kinds = (t.enter kind).kinds) : t'.leave.kinds = t.kinds := by
  rw [ScopeTable.kinds, ScopeTable.leave, List.map_tail]
  exact congrArg List.tail h

/-! ## Actions -/

namespace Lower

variable {α β : Type}

/-- **An action keeps to the owners of variables**, or else records an error. -/
structure KeepsOwners (x : Lower α) : Prop where
  keeps : KeepsErrors x
  grows : ∀ {b b' : Builder} {a : α}, b.Placed → x b = .ok a b' → b'.errors = [] → b.Grows b'

theorem KeepsOwners.bind {x : Lower α} {f : α → Lower β} (hx : KeepsOwners x)
    (hf : ∀ a, KeepsOwners (f a)) : KeepsOwners (x >>= f) := by
  refine ⟨hx.keeps.bind fun a => (hf a).keeps, fun hb h hclean => ?_⟩
  obtain ⟨a, b₁, h₁, h₂⟩ := bind_eq_ok.1 h
  have hgrows := hx.grows hb h₁ ((hf a).keeps.clean h₂ hclean)
  exact hgrows.trans ((hf a).grows hgrows.placed h₂ hclean)

theorem keepsOwners_pure (a : α) : KeepsOwners (pure a) :=
  ⟨keepsErrors_pure a, fun hb h _ => by cases h; exact hb.refl⟩

theorem keepsOwners_fail (span : Span) (e : StaticError) : KeepsOwners (fail span e : Lower α) :=
  ⟨keepsErrors_fail span e, fun _ h _ => nomatch h⟩

theorem keepsOwners_get : KeepsOwners (get : Lower Builder) :=
  ⟨keepsErrors_get, fun hb h _ => by cases h; exact hb.refl⟩

theorem keepsOwners_emit {i : Instr} (hi : i.isAccess = false) : KeepsOwners (emit i) := by
  refine ⟨keepsErrors_emit i, fun {b _ _} hb h _ => ?_⟩
  cases h
  exact hb.withPlain (b.block.instrs_add i) fun j hj => List.mem_singleton.1 hj ▸ hi

theorem keepsOwners_reserve : KeepsOwners reserve :=
  ⟨keepsErrors_reserve, fun hb h _ => by cases h; exact hb.withPlain (List.append_nil _).symm nofun⟩

theorem keepsOwners_fresh : KeepsOwners fresh :=
  ⟨keepsErrors_fresh, fun {b _ _} hb h _ => by cases h; exact hb.bindLabel b.block.reserve.2 rfl _⟩

theorem keepsOwners_bindLabel (id : LabelId) : KeepsOwners (bind id) :=
  ⟨keepsErrors_bindLabel id, fun hb h _ => by cases h; exact hb.bindLabel _ rfl id⟩

theorem KeepsOwners.inScope {x : Lower α} (hx : KeepsOwners x) (kind : ScopeKind)
    (hkind : kind ≠ .function) : KeepsOwners (inScope kind x) := by
  refine ⟨hx.keeps.inScope kind, fun hb h hclean => ?_⟩
  obtain ⟨b₁, h₁, rfl⟩ := inScope_eq_ok h
  have hgrows := hx.grows (hb.enter hkind) h₁ hclean
  have hkinds := ScopeTable.kinds_leave hgrows.kinds
  exact ⟨hb.of_kinds hgrows.placed.vars hkinds hgrows.function, hgrows.function, hkinds,
    hgrows.vars, hgrows.code⟩

theorem KeepsOwners.recording {x : Lower Unit} (hx : KeepsOwners x) : KeepsOwners (recording x) :=
  ⟨hx.keeps.recording, fun hb h hclean => hx.grows hb (recording_eq_ok h hclean) hclean⟩

theorem keepsOwners_checkIndexable (object : Expr) : KeepsOwners (checkIndexable object) :=
  ⟨keepsErrors_checkIndexable object, fun hb h _ => by rw [checkIndexable_ok h]; exact hb.refl⟩

theorem keepsOwners_checkCall (span : Span) (callee : Expr) (args : List Expr) :
    KeepsOwners (checkCall span callee args) :=
  ⟨keepsErrors_checkCall span callee args, fun hb h _ => by rw [(checkCall_ok h).1]; exact hb.refl⟩

/-! ## Expressions -/

theorem keepsOwners_ident (span : Span) (name : String) :
    KeepsOwners (expr (.ident span name)) := by
  refine ⟨keepsErrors_expr _, fun {b b' _} hb h _ => ?_⟩
  obtain ⟨⟨id, v⟩, _, h₁, h₂⟩ := bind_eq_ok.1 h
  obtain ⟨rfl, hv, husable⟩ := hb.resolve h₁
  cases h₂
  refine hb.withBlock (Block.instrs_add _ _) fun i hi => ?_
  rw [List.mem_singleton.1 hi]
  exact ⟨⟨v, hv, husable⟩, nofun⟩

/-- **An assignment** is to a variable that may be used here and is no constant. -/
theorem keepsOwners_assign (span : Span) (target : Located String) {value : Expr}
    (hvalue : KeepsOwners (expr value)) : KeepsOwners (expr (.assign span target value)) := by
  refine ⟨keepsErrors_expr _, fun {b b' _} hb h hclean => ?_⟩
  obtain ⟨⟨id, v⟩, _, h₁, h₂⟩ := bind_eq_ok.1 h
  obtain ⟨rfl, hv, husable⟩ := hb.resolve h₁
  by_cases hconst : v.storage.isConstant = true
  · simp only [if_pos hconst] at h₂
    cases h₂
  · simp only [if_neg hconst] at h₂
    obtain ⟨_, b₁, h₃, h₄⟩ := bind_eq_ok.1 h₂
    cases h₄
    have hgrows := hvalue.grows hb h₃ hclean
    have husable : v.UsableIn b₁.function := by
      rw [hgrows.function]
      exact husable.resolve_left fun hnative => hconst (by rw [hnative]; rfl)
    have hdeclared : v.storage.isDeclaredConstant = false := by
      cases hs : v.storage <;> rw [hs] at hconst <;> first | rfl | exact absurd rfl hconst
    have hv₁ := hgrows.vars id v hv
    have hblock : ((b₁.block.add (.store id)).add (.load id)).instrs = b₁.block.instrs ++
        [.store id, .load id] := by
      rw [Block.instrs_add, Block.instrs_add, List.append_assoc]
      rfl
    refine hgrows.trans (hgrows.placed.withBlock hblock fun i hi => ?_)
    rcases List.mem_cons.1 hi with rfl | hi
    · refine ⟨⟨v, hv₁, husable⟩, fun id' w hid hw => ?_⟩
      cases hid
      cases hv₁.symm.trans hw
      exact hdeclared
    · rw [List.mem_singleton.1 hi]
      exact ⟨⟨v, hv₁, .inr husable⟩, nofun⟩

mutual

theorem keepsOwners_expr : (e : Expr) → KeepsOwners (expr e)
  | .number .. | .string .. | .boolean _ true | .boolean _ false | .null _ => keepsOwners_emit rfl
  | .array _ items => (keepsOwners_exprs items).bind fun _ => keepsOwners_emit rfl
  | .ident span name => keepsOwners_ident span name
  | .binary _ _ left right =>
    (keepsOwners_expr left).bind fun _ => (keepsOwners_expr right).bind fun _ =>
      keepsOwners_emit rfl
  | .unary _ _ arg => (keepsOwners_expr arg).bind fun _ => keepsOwners_emit rfl
  | .cond _ test yes no =>
    (keepsOwners_expr test).bind fun _ => keepsOwners_reserve.bind fun _ =>
      keepsOwners_reserve.bind fun _ =>
      (keepsOwners_emit rfl).bind fun _ => keepsOwners_fresh.bind fun _ =>
        (keepsOwners_expr yes).bind fun _ =>
      (keepsOwners_emit rfl).bind fun _ => (keepsOwners_bindLabel _).bind fun _ =>
        (keepsOwners_expr no).bind fun _ =>
      keepsOwners_bindLabel _
  | .assign span target value => keepsOwners_assign span target (keepsOwners_expr value)
  | .assignAt _ _ object position value =>
    (keepsOwners_checkIndexable object).bind fun _ => (keepsOwners_expr object).bind fun _ =>
      (keepsOwners_expr position).bind fun _ => (keepsOwners_expr value).bind fun _ =>
        keepsOwners_emit rfl
  | .index _ object position =>
    (keepsOwners_checkIndexable object).bind fun _ => (keepsOwners_expr object).bind fun _ =>
      (keepsOwners_expr position).bind fun _ => keepsOwners_emit rfl
  | .call span callee args =>
    (keepsOwners_checkCall span callee args).bind fun _ => (keepsOwners_exprs args).bind fun _ =>
      (keepsOwners_expr callee).bind fun _ => keepsOwners_emit rfl

theorem keepsOwners_exprs : (es : List Expr) → KeepsOwners (exprs es)
  | [] => keepsOwners_pure ()
  | e :: es => (keepsOwners_expr e).bind fun _ => keepsOwners_exprs es

end

theorem keepsOwners_initialValue : (init : Option Expr) → KeepsOwners (initialValue init)
  | some e => keepsOwners_expr e
  | none => keepsOwners_emit rfl

/-! ## Statements -/

theorem keepsOwners_declareAndStore (name : Located String) (constant : Bool) :
    KeepsOwners (declareAndStore name constant) := by
  refine ⟨keepsErrors_declareAndStore name constant, fun {b b' _} hb h _ => ?_⟩
  obtain ⟨id, b₁, h₁, h₂⟩ := bind_eq_ok.1 h
  obtain ⟨rfl, scopes, v, rfl, hplaced, hkinds, hvars, howner, husable⟩ := hb.declare h₁
  cases h₂
  have hblock : (b.block.add (.store b.scopes.vars.size)).instrs =
      b.block.instrs ++ ([] ++ [.store b.scopes.vars.size]) := Block.instrs_add _ _
  exact hplaced.declaration hkinds hvars howner husable hblock nofun

/-- Parameters are declared, and stored to by calls. -/
theorem parameters_grows {owner : Nat} : (ps : List (Located String)) → {b b' : Builder} →
    {ids : List VarId} →
    b.Placed → b.function = some owner → parameters owner ps b = .ok ids b' →
      b'.errors = [] → b.Grows b'
  | [], _, _, _, hb, _, h, _ => by
    cases h
    exact hb.refl
  | p :: ps, b, b', ids, hb, hf, h, hclean => by
    unfold parameters at h
    cases hp : declareAs p .functionMutable (some owner) b with
    | error e b₁ =>
      rw [hp] at h
      cases (keepsErrors_parameters owner ps).clean h hclean
    | ok id b₁ =>
      rw [hp] at h
      obtain ⟨rest, hrest, rfl⟩ := map_eq_ok h
      rw [← hf] at hp
      obtain ⟨-, scopes, v, rfl, hplaced, hkinds, hvars, hstorage, -, -⟩ :=
        hb.declareAs (by rw [hf]; rfl) hp
      have hgrows : b.Grows { b with scopes } := by
        refine ⟨hplaced, rfl, hkinds,
          by rw [hvars]; exact varsGrow_push _ _, [], [], (List.append_nil _).symm,
          (List.append_nil _).symm, ?_⟩
        rw [hvars]
        exact .parameter (by rw [hstorage]; rfl)
      exact hgrows.trans (parameters_grows ps hplaced hf hrest hclean)

/-- The name of a function is declared, and its value stored to it. -/
theorem beginFunction_grows {name : Located String} {params : List (Located String)}
    {b b' : Builder} {index : Nat}
    (hb : b.Placed) (h : beginFunction name params b = .ok index b') :
    index = b.functions.size ∧ ∃ b₁, b.Grows b₁ ∧ b₁.functions = b.functions ∧
      b' = { b₁ with functions := b.functions.push ⟨name.val, [], .empty⟩ } := by
  rw [beginFunction_eq] at h
  obtain ⟨id, b₁, hd, h⟩ := bind_eq_ok.1 h
  obtain ⟨rfl, scopes, v, rfl, hplaced, hkinds, hvars, howner, husable⟩ := hb.declare hd
  split at h
  · cases h
  · cases h
    have hblock : (((b.block.add (.functionRef b.functions.size)).add .makeFunction).add
        (.store b.scopes.vars.size)).instrs = b.block.instrs ++
          ([.functionRef b.functions.size, .makeFunction] ++ [.store b.scopes.vars.size]) := by
      rw [Block.instrs_add, Block.instrs_add, Block.instrs_add,
        List.append_assoc, List.append_assoc]
      rfl
    exact ⟨rfl, _,
      hplaced.declaration hkinds hvars howner husable hblock
      (by simp [Instr.isAccess, Instr.mention?]), rfl, rfl⟩

/-- The end of a function body uses no variable. -/
theorem endBody_grows {body : List Stmt} {ids ids' : List VarId} {b b' : Builder} (hb : b.Placed)
    (h : (if body.getLast?.any isReturn then return ids
      else do
        emit .pushNull
        emit .ret
        return ids : Lower (List VarId)) b = .ok ids' b') (hclean : b'.errors = []) :
    b.Grows b' := by
  by_cases hr : body.getLast?.any isReturn = true
  · rw [if_pos hr] at h
    exact (keepsOwners_pure ids).grows hb h hclean
  · rw [if_neg hr] at h
    exact ((keepsOwners_emit rfl).bind fun _ => (keepsOwners_emit rfl).bind fun _ =>
      keepsOwners_pure ids).grows hb h hclean

/-- **A function**: its name belongs to the function around it, its body to itself. -/
theorem keepsOwners_function (name : Located String) (params : List (Located String))
    {body : List Stmt}
    (hbody : KeepsOwners (stmts body)) : KeepsOwners (stmt (.function name params body)) := by
  refine ⟨keepsErrors_stmt _, fun {b b' _} hb h hclean => ?_⟩
  obtain ⟨index, b₁, h₁, h₂⟩ := bind_eq_ok.1 h
  obtain ⟨rfl, b₀, hname, hfunctions, rfl⟩ := beginFunction_grows hb h₁
  obtain ⟨ids, b₂, h₃, rfl⟩ := inFunction_eq_ok h₂
  obtain ⟨b₃, h₄, rfl⟩ := inScope_eq_ok h₃
  obtain ⟨ids', b₄, h₅, h₆⟩ := bind_eq_ok.1 h₄
  obtain ⟨_, b₅, h₇, h₈⟩ := bind_eq_ok.1 h₆
  have hclean₅ : b₅.errors = [] := by
    rw [(endBody_spec h₈).2] at hclean
    exact hclean
  have hplaced :
      ({ b₀ with functions := b.functions.push ⟨name.val, [], .empty⟩ } : Builder).Placed :=
    hname.placed.of_kinds hname.placed.vars rfl rfl
  -- the body is lowered into an empty block, which takes the place of the entry of the function at
  -- its end
  have hparams := parameters_grows params (hplaced.enterFunction b.functions.size) rfl h₅
    ((keepsErrors_stmts body).clean h₇ hclean₅)
  have hstmts := hbody.grows hparams.placed h₇ hclean₅
  have hinner := (hparams.trans hstmts).trans (endBody_grows hstmts.placed h₈ hclean)
  have hkinds := ScopeTable.kinds_leave hinner.kinds
  -- the block around the function gets the three instructions of its name, and nothing from the
  -- body
  obtain ⟨is, fs, hblock, hfs, hrespects⟩ := hname.code
  obtain ⟨is', fs', hblock', hfs', hrespects'⟩ := hinner.code
  obtain rfl : fs = [] := by
    rw [hfunctions] at hfs
    exact List.self_eq_append_right.1 hfs
  refine ⟨hname.placed.of_kinds hinner.placed.vars hkinds rfl, hname.function,
    hkinds.trans hname.kinds, hname.vars.trans hinner.vars, is,
    ⟨name.val, ids, b₃.block⟩ :: fs', hblock, ?_, ?_⟩
  · rw [Array.toList_modify, hfs', Array.toList_push, List.append_assoc, ← Array.length_toList]
    exact modify_length_append _ _ _ _
  · have hcode : attributed b.function is b.functions.size (⟨name.val, ids, b₃.block⟩ :: fs') =
        attributed b.function is b.functions.size [] ++
          attributed (some b.functions.size) is' (b.functions.size + 1) fs' := by
      have hinstrs : b₃.block.instrs = is' := hblock'
      simp [attributed, List.zipIdx_cons, hinstrs]
    rw [hcode]
    rw [Array.size_push] at hrespects'
    exact hrespects.append hname.vars.size_le hinner.vars hrespects'

mutual

/-- **Lowering keeps to the owners of variables.** -/
theorem keepsOwners_stmt : (s : Stmt) → KeepsOwners (stmt s)
  | .var name init =>
    (keepsOwners_initialValue init).bind fun _ => keepsOwners_declareAndStore name false
  | .const name init => (keepsOwners_expr init).bind fun _ => keepsOwners_declareAndStore name true
  | .function name params body => keepsOwners_function name params (keepsOwners_stmts body)
  | .expr e => (keepsOwners_expr e).bind fun _ => keepsOwners_emit rfl
  | .block body => (keepsOwners_stmts body).inScope .normal nofun
  | .ifThen test yes =>
    (keepsOwners_expr test).bind fun _ => keepsOwners_reserve.bind fun _ =>
      (keepsOwners_emit rfl).bind fun _ =>
      keepsOwners_fresh.bind fun _ => (keepsOwners_stmt yes).bind fun _ => keepsOwners_bindLabel _
  | .ifElse test yes no =>
    (keepsOwners_expr test).bind fun _ => keepsOwners_reserve.bind fun _ =>
      (keepsOwners_emit rfl).bind fun _ =>
      keepsOwners_fresh.bind fun _ => (keepsOwners_stmt yes).bind fun _ =>
        keepsOwners_reserve.bind fun _ =>
      (keepsOwners_emit rfl).bind fun _ => (keepsOwners_bindLabel _).bind fun _ =>
        (keepsOwners_stmt no).bind fun _ =>
      keepsOwners_bindLabel _
  | .while test body =>
    keepsOwners_reserve.bind fun stop => keepsOwners_fresh.bind fun condition =>
      (keepsOwners_expr test).bind fun _ =>
      (keepsOwners_emit rfl).bind fun _ => keepsOwners_fresh.bind fun _ =>
      ((keepsOwners_stmt body).inScope (.loop condition stop) nofun).bind fun _ =>
        (keepsOwners_emit rfl).bind fun _ =>
      keepsOwners_bindLabel _
  | .return value span => by
    refine keepsOwners_get.bind fun b => ?_
    split
    · exact (keepsOwners_initialValue value).bind fun _ => keepsOwners_emit rfl
    · exact keepsOwners_fail _ _
  | .break span => by
    refine keepsOwners_get.bind fun b => ?_
    split
    · exact keepsOwners_emit rfl
    · exact keepsOwners_fail _ _
  | .continue span => by
    refine keepsOwners_get.bind fun b => ?_
    split
    · exact keepsOwners_emit rfl
    · exact keepsOwners_fail _ _
  | .empty => keepsOwners_pure ()

theorem keepsOwners_stmts : (ss : List Stmt) → KeepsOwners (stmts ss)
  | [] => keepsOwners_pure ()
  | s :: ss => (keepsOwners_stmt s).recording.bind fun _ => keepsOwners_stmts ss

end

end Lower

/-! ## Programs -/

theorem Builder.storage_top {v : Variable} (hv : v ∈ Builder.top.scopes.vars) :
    v.storage = .native := by
  obtain ⟨entry, -, rfl⟩ := Array.mem_map.1 hv
  rfl

theorem Builder.placed_top : Builder.top.Placed :=
  ⟨fun _ hv => .inl (storage_top hv), List.cons_ne_nil _ _, rfl, nofun⟩

/-- A program respects owners if all of its constants are declared in it. -/
theorem LabelCode.owned_of_respects {code : LabelCode} {first : Nat}
    (hvars : ∀ v ∈ code.vars, v.Fits)
    (hfirst : ∀ (id : VarId) (v : Variable), id < first → code.vars[id]? = some v →
      v.storage.isDeclaredConstant = false)
    (h : Respects code.vars first code.attributed) : code.Owned where
  storage v hv := by
    have hfits := hvars v hv
    constructor
    all_goals
      intro hclosed
      rw [Variable.Fits, hclosed] at hfits
      rcases hfits with hfits | ⟨hfits, -⟩ | ⟨hfits, -⟩ <;> cases hfits
  main i hi := h.allowed (none, i) (List.mem_append.2 (.inl (List.mem_map.2 ⟨i, hi, rfl⟩)))
  functions k f hf i hi := by
    have hzip : (f, k) ∈ code.functions.toList.zipIdx := by
      rw [List.mem_zipIdx_iff_getElem?, Array.getElem?_toList]
      exact hf
    refine h.allowed (some k, i) (List.mem_append.2 (.inr ?_))
    exact List.mem_flatMap.2 ⟨(f, k), hzip, List.mem_map.2 ⟨i, hi, rfl⟩⟩
  constants id v hv hconst := by
    have hge : ¬ id < first := fun hlt => by
      rw [hfirst id v hlt hv] at hconst
      cases hconst
    rw [h.constants id v hv hconst, if_neg hge]

/-- What a builder holds that has gone through a program. -/
theorem Builder.Grows.owned {b : Builder} (h : Builder.top.Grows b) :
    (⟨b.block, b.functions, b.scopes.vars⟩ : LabelCode).Owned := by
  obtain ⟨is, fs, hblock, hfunctions, hrespects⟩ := h.code
  obtain rfl : b.block.instrs = is := hblock
  obtain rfl : b.functions.toList = fs := hfunctions
  refine LabelCode.owned_of_respects h.placed.vars (fun id v hlt hv => ?_) hrespects
  have htop := Array.getElem?_eq_getElem hlt
  cases hv.symm.trans (h.vars _ _ htop)
  rw [storage_top (Array.mem_of_getElem? htop)]
  rfl

/-- **Every program that is lowered without errors respects the owners of variables**, and so it
does when it is folded. -/
theorem LabelCode.ofProgram_owned {p : Program} {code : LabelCode}
    (h : LabelCode.ofProgram p = .ok code) : code.Owned ∧ code.fold.Owned := by
  obtain ⟨b, hb, hclean, rfl⟩ := LabelCode.ofProgram_eq_ok h
  have hbody := (Lower.keepsOwners_stmts p).grows Builder.placed_top hb hclean
  have hexit : (Lower.fresh >>= fun _ => Lower.emit .exit) b =
      .ok () { b with block := b.block.fresh.2.add .exit } := rfl
  have hend := (Lower.keepsOwners_fresh.bind fun _ => Lower.keepsOwners_emit rfl).grows
    hbody.placed hexit hclean
  have howned := (hbody.trans hend).owned
  exact ⟨howned, howned.fold⟩

/-- Constants of the top level, of a block and of functions inside each other. -/
def nestedConstants : String :=
  "const k = 1 + 2; \x7b const i = k; \x7d
   function f(a) \x7b
     const b = k;
     function g(c) \x7b const d = c; c = d; \x7d
   \x7d"

theorem LabelCode.ofProgram_owned_nested :
    ∃ p code, Program.parse nestedConstants = .ok p ∧ LabelCode.ofProgram p = .ok code ∧
      (code.vars.toList.filter (·.storage.isDeclaredConstant)).map (fun v => (v.name, v.owner)) =
        [("k", none), ("i", none), ("f", none), ("b", some 0), ("g", some 0), ("d", some 1)] ∧
      code.Owned ∧ code.fold.Owned := by
  have h : ((Program.parse nestedConstants).toOption.bind fun p =>
      (LabelCode.ofProgram p).toOption.map fun code =>
      (code.vars.toList.filter (·.storage.isDeclaredConstant)).map fun v => (v.name, v.owner)) =
        some [("k", none), ("i", none), ("f", none), ("b", some 0),
        ("g", some 0), ("d", some 1)] := by
    decide +kernel
  obtain ⟨p, hp, h⟩ := Option.bind_eq_some_iff.1 h
  obtain ⟨code, hcode, hconstants⟩ := Option.map_eq_some_iff.1 h
  have hcode := toOption_eq_some.1 hcode
  exact ⟨p, code, toOption_eq_some.1 hp, hcode, hconstants, LabelCode.ofProgram_owned hcode⟩

end Stackscript
