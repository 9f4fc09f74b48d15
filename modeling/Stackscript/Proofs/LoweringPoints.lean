import Stackscript.Proofs.Lists
import Stackscript.Proofs.LoweringErrors

/-!
# The builder at the points of a program

While a program is lowered, the scopes of the builder hold the names that are known at the point
that has been reached, and its tables have as many entries as declarations and functions have been
met. A declaration, the start of a scope and its end lead from one point to another.

* `VarsGrow`, larger tables of variables, in which all rules are still kept;
* `Builder.StandsAt`, the builder at a point of a program; `Builder.Reaches`, how it gets to
  another;
* `Builder.StandsAt.resolve`: a name that is resolved stands for a cell that may be used;
* `Builder.StandsAt.declare`, `Builder.StandsAt.resume`, `Builder.Reaches.leave`,
  `Builder.Reaches.endFunction`.
-/

namespace Stackscript

/-! ## Larger tables -/

/-- Every variable of a table stands in another under the same number. -/
def VarsGrow (vars vars' : Array Variable) : Prop :=
  ∀ (id : VarId) (v : Variable), vars[id]? = some v → vars'[id]? = some v

theorem VarsGrow.refl (vars : Array Variable) : VarsGrow vars vars := fun _ _ h => h

theorem VarsGrow.trans {vars₁ vars₂ vars₃ : Array Variable} (h₁ : VarsGrow vars₁ vars₂)
    (h₂ : VarsGrow vars₂ vars₃) : VarsGrow vars₁ vars₃ := fun id v h => h₂ id v (h₁ id v h)

theorem varsGrow_push (vars : Array Variable) (v : Variable) : VarsGrow vars (vars.push v) := by
  intro id x h
  have hlt : id < vars.size := (Array.getElem?_eq_some_iff.1 h).1
  rw [Array.getElem?_push_lt hlt]
  exact (Array.getElem?_eq_getElem hlt).symm.trans h

section Growing

variable {vars vars' : Array Variable} {n : Names}

theorem Cell.Declared.mono (hv : VarsGrow vars vars') {name : String} {c : Cell}
    (h : c.Declared vars name) : c.Declared vars' name := by
  obtain ⟨v, hget, hrest⟩ := h
  exact ⟨v, hv _ _ hget, hrest⟩

theorem Names.Finds.mono (hv : VarsGrow vars vars') {name : String} {c : Cell}
    (h : n.Finds vars name c) : n.Finds vars' name c := ⟨h.lookup, h.declared.mono hv, h.current⟩

mutual

theorem Expr.accepted_mono (hv : VarsGrow vars vars') :
    (e : Expr) → e.Accepted vars n → e.Accepted vars' n
  | .number .., _ | .string .., _ | .boolean .., _ | .null _, _ => trivial
  | .array _ items, h => Expr.acceptedAll_mono hv items h
  | .ident _ _, ⟨c, hc⟩ => ⟨c, hc.mono hv⟩
  | .binary _ _ left right, ⟨hl, hr⟩ => ⟨left.accepted_mono hv hl, right.accepted_mono hv hr⟩
  | .unary _ _ arg, h => arg.accepted_mono hv h
  | .cond _ test yes no, ⟨ht, hy, hn⟩ =>
    ⟨test.accepted_mono hv ht, yes.accepted_mono hv hy, no.accepted_mono hv hn⟩
  | .assign _ _ value, ⟨⟨c, hc, hnative⟩, h⟩ => ⟨⟨c, hc.mono hv, hnative⟩, value.accepted_mono hv h⟩
  | .assignAt _ _ object position value, ⟨ho, hp, h⟩ =>
    ⟨object.accepted_mono hv ho, position.accepted_mono hv hp, value.accepted_mono hv h⟩
  | .index _ object position, ⟨ho, hp⟩ => ⟨object.accepted_mono hv ho, position.accepted_mono hv hp⟩
  | .call _ callee args, ⟨hl, ha, hc⟩ =>
    ⟨hl, Expr.acceptedAll_mono hv args ha, callee.accepted_mono hv hc⟩

theorem Expr.acceptedAll_mono (hv : VarsGrow vars vars') :
    (es : List Expr) → Expr.AcceptedAll vars n es → Expr.AcceptedAll vars' n es
  | [], _ => trivial
  | e :: es, ⟨he, hes⟩ => ⟨e.accepted_mono hv he, Expr.acceptedAll_mono hv es hes⟩

end

theorem Expr.acceptedOptional_mono (hv : VarsGrow vars vars') :
    (e : Option Expr) → Expr.AcceptedOptional vars n e → Expr.AcceptedOptional vars' n e
  | some e, h => e.accepted_mono hv h
  | none, _ => trivial

mutual

theorem Stmt.accepted_mono {n : Names} {inLoop : Bool} (hv : VarsGrow vars vars') :
    (s : Stmt) → s.Accepted vars n inLoop → s.Accepted vars' n inLoop
  | .var _ init, ⟨h, hd⟩ => ⟨Expr.acceptedOptional_mono hv init h, hd.mono hv⟩
  | .const _ init, ⟨h, hd⟩ => ⟨init.accepted_mono hv h, hd.mono hv⟩
  | .function .., h => h.mono hv
  | .expr e, h => e.accepted_mono hv h
  | .block body, h => Stmt.acceptedAll_mono hv body h
  | .ifThen test yes, ⟨ht, hy⟩ => ⟨test.accepted_mono hv ht, yes.accepted_mono hv hy⟩
  | .ifElse test yes no, ⟨ht, hy, hn⟩ =>
    ⟨test.accepted_mono hv ht, yes.accepted_mono hv hy, no.accepted_mono hv hn⟩
  | .while test body, ⟨ht, hb⟩ => ⟨test.accepted_mono hv ht, body.accepted_mono hv hb⟩
  | .return value _, ⟨hf, h⟩ => ⟨hf, Expr.acceptedOptional_mono hv value h⟩
  | .break _, h | .continue _, h => h
  | .empty, _ => trivial

theorem Stmt.acceptedAll_mono {n : Names} {inLoop : Bool} (hv : VarsGrow vars vars') :
    (ss : List Stmt) → Stmt.AcceptedAll vars n inLoop ss → Stmt.AcceptedAll vars' n inLoop ss
  | [], _ => trivial
  | s :: ss, ⟨hs, hss⟩ => ⟨s.accepted_mono hv hs, Stmt.acceptedAll_mono hv ss hss⟩

end

theorem FunctionDef.Accepted.mono (hv : VarsGrow vars vars') {f : FunctionDef}
    (h : f.Accepted vars) : f.Accepted vars' :=
  ⟨h.params, Stmt.acceptedAll_mono hv f.body h.body, h.declared.imp fun _ _ hd => hd.mono hv⟩

end Growing

/-! ## The builder in a program -/

/-- A cell of a name in scope stands in the table of variables; those of functions were declared
below the top level. -/
def Cell.InScope (vars : Array Variable) (name : String) (c : Cell) : Prop :=
  ∃ v, vars[c.id]? = some v ∧ v.name = name ∧ v.owner = c.owner ∧ c.StoredAs v ∧
    (c.owner.isSome = true → 0 < v.scopeIndex)

theorem Cell.InScope.declared {vars : Array Variable} {name : String} {c : Cell}
    (h : c.InScope vars name) : c.Declared vars name := by
  obtain ⟨v, hget, hname, howner, hstored, -⟩ := h
  exact ⟨v, hget, hname, howner, hstored⟩

theorem Cell.InScope.mono {vars vars' : Array Variable} (hv : VarsGrow vars vars') {name : String}
    {c : Cell} (h : c.InScope vars name) : c.InScope vars' name := by
  obtain ⟨v, hget, hrest⟩ := h
  exact ⟨v, hv _ _ hget, hrest⟩

/-- **The builder stands at a point of a program**: its scopes hold the names that are known there,
and its tables have as many entries as declarations and functions have been met. -/
structure Builder.StandsAt (b : Builder) (n : Names) (loop : Option (LabelId × LabelId)) :
    Prop where
  bound : n.bound.map (fun p => (p.1, p.2.id)) = b.scopes.scopes.flatMap (·.bindings)
  cells : ∀ p ∈ n.bound, p.2.InScope b.scopes.vars p.1
  natives : ∀ (slot : Nat) (entry : NativeEntry), NativeEntry.table[slot]? = some entry →
    b.scopes.vars[slot]? = some ⟨entry.name, .native, -1, none⟩
  nextVar : b.scopes.vars.size = n.nextVar
  nextFunction : b.functions.size = n.nextFunction
  function : b.function = n.function
  inFunction : b.scopes.inFunction = n.function.isSome
  opened : b.scopes.scopes ≠ []
  deep : n.function.isSome = true → 2 ≤ b.scopes.scopes.length
  loop : b.scopes.enclosingLoop? = loop

namespace Builder.StandsAt

variable {b : Builder} {n : Names} {loop : Option (LabelId × LabelId)}

theorem withBlock (h : b.StandsAt n loop) (block : Block) :
    ({ b with block } : Builder).StandsAt n loop :=
  ⟨h.bound, h.cells, h.natives, h.nextVar, h.nextFunction, h.function, h.inFunction,
    h.opened, h.deep, h.loop⟩

end Builder.StandsAt

/-- **The builder gets from one point of a program to another**, which stands in the same scopes. -/
structure Builder.Reaches (b b' : Builder) (n : Names) (loop : Option (LabelId × LabelId))
    (block : Block) (fs : List FunctionDef) : Prop where
  standsAt : b'.StandsAt n loop
  block : b'.block = block
  function : b'.function = b.function
  functions : b'.functions.toList = b.functions.toList ++ fs.map FunctionDef.lowered
  vars : VarsGrow b.scopes.vars b'.scopes.vars
  scopes : ∃ kind bindings bindings' outer,
    b.scopes.scopes = ⟨kind, bindings⟩ :: outer ∧ b'.scopes.scopes = ⟨kind, bindings'⟩ :: outer
  accepted : ∀ f ∈ fs, f.Accepted b'.scopes.vars

namespace Builder.Reaches

variable {b b₁ b₂ : Builder} {n n₁ n₂ : Names} {loop : Option (LabelId × LabelId)}
  {block block₁ block₂ : Block} {fs fs₁ fs₂ : List FunctionDef}

theorem refl (h : b.StandsAt n loop) : b.Reaches b n loop b.block [] := by
  refine ⟨h, rfl, rfl, (List.append_nil _).symm, .refl _, ?_, nofun⟩
  cases hs : b.scopes.scopes with
  | nil => exact absurd hs h.opened
  | cons s outer => exact ⟨s.kind, s.bindings, s.bindings, outer, rfl, rfl⟩

theorem withBlock (h : b.Reaches b₁ n loop block fs) (block₁ : Block) :
    b.Reaches { b₁ with block := block₁ } n loop block₁ fs :=
  ⟨h.standsAt.withBlock block₁, rfl, h.function, h.functions, h.vars, h.scopes, h.accepted⟩

theorem mapBlock (h : b.Reaches b₁ n loop block fs) (f : Block → Block) :
    b.Reaches { b₁ with block := f b₁.block } n loop (f block) fs := h.block ▸ h.withBlock _

theorem trans (h₁ : b.Reaches b₁ n₁ loop block₁ fs₁) (h₂ : b₁.Reaches b₂ n₂ loop block₂ fs₂) :
    b.Reaches b₂ n₂ loop block₂ (fs₁ ++ fs₂) := by
  refine ⟨h₂.standsAt, h₂.block, h₂.function.trans h₁.function, ?_, h₁.vars.trans h₂.vars, ?_, ?_⟩
  · rw [h₂.functions, h₁.functions, List.map_append, List.append_assoc]
  · obtain ⟨kind, bindings, bindings₁, outer, hb, hb₁⟩ := h₁.scopes
    obtain ⟨kind', bindings', bindings₂, outer', hb', hb₂⟩ := h₂.scopes
    cases hb₁.symm.trans hb'
    exact ⟨kind, bindings, bindings₂, outer, hb, hb₂⟩
  · intro f hf
    rcases List.mem_append.1 hf with hf | hf
    · exact (h₁.accepted f hf).mono h₂.vars
    · exact h₂.accepted f hf

end Builder.Reaches

theorem lookup_map_snd {α β γ : Type} [BEq α] (f : β → γ) (a : α) (l : List (α × β)) :
    (l.map fun p => (p.1, f p.2)).lookup a = (l.lookup a).map f := by
  induction l with
  | nil => rfl
  | cons p l ih =>
    obtain ⟨x, y⟩ := p
    rw [List.map_cons, List.lookup_cons, List.lookup_cons]
    cases a == x with
    | true => rfl
    | false => exact ih

theorem findSome?_lookup_eq (scopes : List Scope) (name : String) :
    scopes.findSome? (·.bindings.lookup name) = (scopes.flatMap (·.bindings)).lookup name := by
  induction scopes with
  | nil => rfl
  | cons s scopes ih =>
    rw [List.findSome?_cons, List.flatMap_cons, List.lookup_append, ih]
    cases s.bindings.lookup name <;> rfl

namespace Builder.StandsAt

variable {b : Builder} {n : Names} {loop : Option (LabelId × LabelId)}

theorem lookup?_eq (h : b.StandsAt n loop) (name : String) :
    b.scopes.lookup? name = (n.lookup? name).map Cell.id := by
  rw [ScopeTable.lookup?, findSome?_lookup_eq, ← h.bound, lookup_map_snd, Names.lookup?]
  cases n.bound.lookup name with
  | some c => rfl
  | none =>
    cases NativeEntry.slot? name <;> rfl

theorem inScope (h : b.StandsAt n loop) {name : String} {c : Cell} (hc : n.lookup? name = some c) :
    c.InScope b.scopes.vars name := by
  rcases Names.lookup?_cases hc with hbound | ⟨slot, hslot, rfl⟩
  · exact h.cells (name, c) hbound
  · obtain ⟨entry, hentry, hname⟩ := NativeEntry.slot?_spec hslot
    exact ⟨_, h.natives slot entry hentry, hname, rfl, ⟨rfl, hname ▸ hslot⟩, nofun⟩

/-- **A name that is resolved** stands for a cell that may be used. -/
theorem resolve (h : b.StandsAt n loop) {name : String} {span : Span} {id : VarId} {v : Variable}
    {b' : Builder} (hr : Lower.resolve name span b = .ok (id, v) b') :
    b' = b ∧ b.scopes.vars[id]? = some v ∧ ∃ c, n.Finds b.scopes.vars name c ∧ c.id = id := by
  rw [Lower.resolve_eq, h.lookup?_eq] at hr
  cases hc : n.lookup? name with
  | none =>
    rw [hc] at hr
    cases hr
  | some c =>
    simp only [hc, Option.map_some] at hr
    cases hv : b.scopes.vars[c.id]? with
    | none =>
      rw [hv] at hr
      cases hr
    | some w =>
      rw [hv] at hr
      by_cases hcap : Lower.isCaptured b.function w = true
      · simp only [if_pos hcap] at hr
        cases hr
      · simp only [if_neg hcap] at hr
        cases hr
        have hscope := h.inScope hc
        obtain ⟨x, hx, -, howner, hstored, hdepth⟩ := hscope
        cases hv.symm.trans hx
        refine ⟨rfl, hv, c, ⟨hc, (h.inScope hc).declared, ?_⟩, rfl⟩
        intro f hf
        have hnative : v.storage ≠ .native := by
          cases c with
          | own => exact hstored.2
          | native | shared => cases hf
        have hdeep := hdepth (by rw [hf]; rfl)
        have hsame : v.owner = b.function := by
          apply Classical.byContradiction
          intro hne
          exact hcap (by simp [Lower.isCaptured, hnative, hne, hdeep])
        rw [← h.function, ← hsame, howner, hf]

/-- A declaration leads on to the names with the new one. -/
theorem declareAs (h : b.StandsAt n loop) {name : Located String} {storage : Storage} {id : VarId}
    {b' : Builder} (hd : Lower.declareAs name storage n.function b = .ok id b')
    (hs : n.cell.StoredAs ⟨name.val, storage, b.scopes.depth, n.function⟩) :
    id = n.nextVar ∧ n.cell.Declared b'.scopes.vars name.val ∧
      b.Reaches b' (n.declare name.val) loop b.block [] := by
  obtain ⟨s, outer, hsc, rfl, rfl⟩ := Lower.declareAs_eq_ok hd
  have hid : n.cell.id = b.scopes.vars.size := by
    rw [h.nextVar, Names.cell]
    cases n.function <;> rfl
  have hnew : n.cell.InScope
      (b.scopes.vars.push ⟨name.val, storage, b.scopes.depth, n.function⟩) name.val := by
    refine ⟨_, by rw [hid, Array.getElem?_push_size], rfl, ?_, hs, ?_⟩
    · rw [Names.cell]
      cases n.function <;> rfl
    · intro hown
      have hsome : n.function.isSome = true := by
        rw [Names.cell] at hown
        cases hf : n.function with
        | none => rw [hf] at hown; cases hown
        | some f => rfl
      have hdeep := h.deep hsome
      show 0 < (b.scopes.scopes.length : Int) - 1
      omega
  have hgrow := varsGrow_push b.scopes.vars ⟨name.val, storage, b.scopes.depth, n.function⟩
  refine ⟨h.nextVar, hnew.declared, ⟨?_, ?_, ?_, ?_, h.nextFunction, h.function, ?_,
    by simp, ?_, ?_⟩, rfl, rfl, (List.append_nil _).symm, hgrow,
    ⟨s.kind, s.bindings, _, outer, hsc, rfl⟩, nofun⟩
  · have hbound := h.bound
    rw [hsc] at hbound
    simp only [Names.declare, List.map_cons, List.flatMap_cons, List.cons_append, hid] at hbound ⊢
    rw [hbound]
  · intro p hp
    cases hp with
    | head => exact hnew
    | tail _ hp => exact (h.cells p hp).mono hgrow
  · intro slot entry hentry
    exact hgrow _ _ (h.natives slot entry hentry)
  · rw [Array.size_push, h.nextVar]
    rfl
  · have hin := h.inFunction
    rw [ScopeTable.inFunction, hsc] at hin
    exact hin
  · intro hsome
    have hdeep := h.deep hsome
    rw [hsc] at hdeep
    exact hdeep
  · have hloop := h.loop
    rw [ScopeTable.enclosingLoop?, hsc] at hloop
    exact hloop

theorem declare (h : b.StandsAt n loop) {name : Located String} {constant : Bool} {id : VarId}
    {b' : Builder} (hd : Lower.declare name constant b = .ok id b') :
    id = n.nextVar ∧ n.cell.Declared b'.scopes.vars name.val ∧
      b.Reaches b' (n.declare name.val) loop b.block [] := by
  obtain ⟨_, _, hget, hd⟩ := bind_eq_ok.1 hd
  cases hget
  rw [h.function] at hd
  refine h.declareAs hd ?_
  rw [h.inFunction, Names.cell]
  cases n.function <;> cases constant <;> simp [Cell.StoredAs, Storage.isGlobal]

end Builder.StandsAt

/-! ## Scopes -/

/-- **The end of a scope**: its names are forgotten, but its numbers stay used. -/
theorem Builder.StandsAt.resume {b b' : Builder} {n n₁ : Names} {loop : Option (LabelId × LabelId)}
    (hb : b.StandsAt n loop) (hscopes : b'.scopes.scopes = b.scopes.scopes)
    (hvars : VarsGrow b.scopes.vars b'.scopes.vars) (hfunction : b'.function = b.function)
    (hnextVar : b'.scopes.vars.size = n₁.nextVar)
    (hnextFunction : b'.functions.size = n₁.nextFunction) : b'.StandsAt (n.resume n₁) loop := by
  refine ⟨hscopes ▸ hb.bound, ?_, ?_, hnextVar, hnextFunction, hfunction.trans hb.function, ?_,
    hscopes ▸ hb.opened, hscopes ▸ hb.deep, ?_⟩
  · intro p hp
    exact (hb.cells p hp).mono hvars
  · intro slot entry hentry
    exact hvars _ _ (hb.natives slot entry hentry)
  · rw [ScopeTable.inFunction, hscopes]
    exact hb.inFunction
  · rw [ScopeTable.enclosingLoop?, hscopes]
    exact hb.loop

namespace Builder.Reaches

variable {b b₁ : Builder} {n n₁ : Names} {loop inner : Option (LabelId × LabelId)} {block : Block}
  {fs : List FunctionDef}

theorem ofBlock {block₁ : Block}
    (h : ({ b with block := block₁ } : Builder).Reaches b₁ n loop block fs) :
    b.Reaches b₁ n loop block fs :=
  ⟨h.standsAt, h.block, h.function, h.functions, h.vars, h.scopes, h.accepted⟩

/-- Closing the scope that was opened leaves the scopes around it. -/
theorem leave_scopes {kind : ScopeKind} {outer : List Scope} (h : b.Reaches b₁ n loop block fs)
    (hb : b.scopes.scopes = ⟨kind, []⟩ :: outer) : b₁.scopes.leave.scopes = outer := by
  obtain ⟨kind', bindings, bindings', outer', hopen, hclose⟩ := h.scopes
  cases hb.symm.trans hopen
  rw [ScopeTable.leave, hclose]
  rfl

/-- The end of a scope. -/
theorem leave {kind : ScopeKind} (hb : b.StandsAt n loop)
    (h : ({ b with scopes := b.scopes.enter kind } : Builder).Reaches b₁ n₁ inner block fs) :
    b.Reaches { b₁ with scopes := b₁.scopes.leave } (n.resume n₁) loop block fs := by
  have hscopes := h.leave_scopes rfl
  refine ⟨hb.resume hscopes h.vars h.function h.standsAt.nextVar h.standsAt.nextFunction, h.block,
    h.function, h.functions, h.vars, ?_, h.accepted⟩
  rw [hscopes]
  exact (Reaches.refl hb).scopes

end Builder.Reaches

namespace Builder.StandsAt

variable {b : Builder} {n : Names} {loop : Option (LabelId × LabelId)}

theorem enter (h : b.StandsAt n loop) :
    ({ b with scopes := b.scopes.enter .normal } : Builder).StandsAt n loop :=
  ⟨h.bound, h.cells, h.natives, h.nextVar, h.nextFunction, h.function, h.inFunction,
    by simp [ScopeTable.enter], fun hf => Nat.le_succ_of_le (h.deep hf), h.loop⟩

theorem enterLoop (h : b.StandsAt n loop) (condition stop : LabelId) :
    ({ b with scopes := b.scopes.enter (.loop condition stop) } : Builder).StandsAt n
      (some (condition, stop)) :=
  ⟨h.bound, h.cells, h.natives, h.nextVar, h.nextFunction, h.function, h.inFunction,
    by simp [ScopeTable.enter], fun hf => Nat.le_succ_of_le (h.deep hf), rfl⟩

/-- The start of a function body. -/
theorem enterFunction (h : b.StandsAt n loop) (f : LabelFunction) :
    (⟨b.scopes.enter .function, .empty, some n.nextFunction, b.functions.push f, b.errors⟩ :
      Builder).StandsAt n.inNext none := by
  refine ⟨h.bound, h.cells, h.natives, h.nextVar, ?_, rfl, rfl, by simp [ScopeTable.enter], ?_, rfl⟩
  · rw [Array.size_push, h.nextFunction]
    rfl
  · intro _
    exact Nat.succ_le_succ (List.length_pos_iff.2 h.opened)

end Builder.StandsAt

/-- **The end of a function body**: the function gets its place in the table, before those inside
it. -/
theorem Builder.Reaches.endFunction {b b₁ b₂ : Builder} {n n₁ : Names}
    {loop inner : Option (LabelId × LabelId)}
    {block body code : Block} {name : String} {ids : List VarId} {f : FunctionDef}
    {fs : List FunctionDef} (h : b.Reaches b₁ n loop block [])
    (hbody : (⟨b₁.scopes.enter .function, .empty, some n.nextFunction,
      b₁.functions.push ⟨name, [], .empty⟩, b₁.errors⟩ : Builder).Reaches b₂ n₁ inner body fs)
    (hlowered : f.lowered = ⟨name, ids, code⟩) (hf : f.Accepted b₂.scopes.vars) (block₁ : Block) :
    b.Reaches { b₂ with
      scopes := b₂.scopes.leave
      block := block₁
      function := b₁.function
      functions := b₂.functions.modify n.nextFunction fun g =>
      { g with parameters := ids, block := code } } (n.resume n₁) loop block₁ (f :: fs) := by
  have hscopes := hbody.leave_scopes rfl
  refine ⟨h.standsAt.resume hscopes hbody.vars rfl hbody.standsAt.nextVar ?_, rfl, h.function, ?_,
    h.vars.trans hbody.vars, ?_, ?_⟩
  · rw [Array.size_modify]
    exact hbody.standsAt.nextFunction
  · have hindex : b₁.functions.toList.length = n.nextFunction := h.standsAt.nextFunction
    have hbefore : b₁.functions.toList = b.functions.toList := by simpa using h.functions
    rw [Array.toList_modify, hbody.functions, Array.toList_push, List.append_assoc, ← hindex,
      List.map_cons, hlowered, ← hbefore]
    exact modify_length_append _ _ _ _
  · rw [hscopes]
    exact h.scopes
  · intro g hg
    cases hg with
    | head => exact hf
    | tail _ hg => exact hbody.accepted g hg

end Stackscript
