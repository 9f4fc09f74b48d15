import Stackscript.Proofs.LoweringSpec
import Stackscript.Proofs.StaticRules

/-!
# Scopes of the builder and regions of the program

While a program is lowered, the scopes of the builder hold what is declared in the regions around
the point that has been reached. So names are resolved and declared exactly where the rules allow
it.

* `Lower.Checks`: an action succeeds exactly if a condition holds; `Lower.Decides`, `Lower.Reports`;
* `Mirrors`, `Builder.Knows`;
* **`Builder.Knows.resolve`**, **`Builder.Knows.declareAs`**;
* `Builder.Knows.enter`, `leave`, `enterFunction`, `leaveFunction`.
-/

namespace Stackscript

/-! ## Actions that check -/

namespace Lower

variable {α β : Type} {clean : Builder → Prop} {x : Lower α} {f : α → Lower β} {b : Builder}
  {P Q : Prop} {post : α → Builder → Prop} {post' : β → Builder → Prop}

/-- An action has a result that is clean exactly if a condition holds, and what it leaves is then as
it should be. -/
structure Checks (clean : Builder → Prop) (x : Lower α) (b : Builder) (valid : Prop) (post : α →
      Builder → Prop) :
    Prop where
  accepts : valid → ∃ a b', x b = .ok a b' ∧ post a b'
  refuses : ∀ a b', x b = .ok a b' → clean b' → valid

/-- An action fails unless a condition holds. -/
abbrev Decides (x : Lower α) (b : Builder) (valid : Prop) (post : α → Builder → Prop) : Prop :=
  Checks (fun _ => True) x b valid post

/-- An action fails or records an error unless a condition holds. -/
abbrev Reports (x : Lower α) (b : Builder) (valid : Prop) (post : α → Builder → Prop) : Prop :=
  Checks (·.errors = []) x b valid post

theorem Decides.weaken (h : Decides x b P post) : Checks clean x b P post :=
  ⟨h.accepts, fun a b' hx _ => h.refuses a b' hx trivial⟩

theorem Checks.imp (h : Checks clean x b P post) {post₁ : α → Builder → Prop}
    (hpost : ∀ a b', post a b' → post₁ a b') : Checks clean x b P post₁ := by
  refine ⟨fun hp => ?_, h.refuses⟩
  obtain ⟨a, b', hx, ha⟩ := h.accepts hp
  exact ⟨a, b', hx, hpost a b' ha⟩

theorem Checks.congr (h : Checks clean x b P post) (hpq : P ↔ Q) : Checks clean x b Q post :=
  ⟨fun hq => h.accepts (hpq.2 hq), fun a b' hx hclean => hpq.1 (h.refuses a b' hx hclean)⟩

/-- Actions one after the other, of which the second does not hide that the first has not gone
well. -/
theorem Checks.bindOf {clean' : Builder → Prop} (hx : Checks clean' x b P post)
    (hf : ∀ a b', post a b' → Checks clean (f a) b' Q post')
    (hclean : ∀ a b₁ r b₂, f a b₁ = .ok r b₂ → clean b₂ → clean' b₁) :
    Checks clean (x >>= f) b (P ∧ Q) post' := by
  refine ⟨fun ⟨hp, hq⟩ => ?_, fun r b₂ h hb₂ => ?_⟩
  · obtain ⟨a, b₁, h₁, hpost⟩ := hx.accepts hp
    obtain ⟨r, b₂, h₂, hpost'⟩ := (hf a b₁ hpost).accepts hq
    exact ⟨r, b₂, bind_eq_ok.2 ⟨a, b₁, h₁, h₂⟩, hpost'⟩
  · obtain ⟨a, b₁, h₁, h₂⟩ := bind_eq_ok.1 h
    have hp := hx.refuses a b₁ h₁ (hclean a b₁ r b₂ h₂ hb₂)
    obtain ⟨a', b₁', h₁', hpost⟩ := hx.accepts hp
    cases h₁.symm.trans h₁'
    exact ⟨hp, (hf a b₁ hpost).refuses r b₂ h₂ hb₂⟩

theorem Decides.bind (hx : Decides x b P post) (hf : ∀ a b', post a b' →
      Checks clean (f a) b' Q post') :
    Checks clean (x >>= f) b (P ∧ Q) post' := hx.bindOf hf fun _ _ _ _ _ _ => trivial

theorem Reports.bind (hx : Reports x b P post) (hf : ∀ a b', post a b' → Reports (f a) b' Q post')
    (hkeeps : ∀ a, KeepsErrors (f a)) : Reports (x >>= f) b (P ∧ Q) post' :=
  hx.bindOf hf fun a _ _ _ h hclean => (hkeeps a).clean h hclean

/-- An action that always succeeds comes first. -/
theorem Checks.after {a : α} {b₁ : Builder} (hx : x b = .ok a b₁)
    (h : Checks clean (f a) b₁ P post') : Checks clean (x >>= f) b P post' := by
  have heq : (x >>= f) b = f a b₁ := by
    show EStateM.bind x f b = _
    simp only [EStateM.bind, hx]
  exact ⟨fun hp => heq ▸ h.accepts hp, fun r b' hr => h.refuses r b' (heq ▸ hr)⟩

end Lower

/-! ## Scopes and regions -/

/-- The kind of region that a scope belongs to. -/
def ScopeKind.region : ScopeKind → RegionKind
  | .normal => .plain
  | .loop .. => .loop
  | .function => .function

/-- What a name stands for in a scope is what the region declares. -/
def Binds (vars : Array Variable) (depth : Nat) (owner : Option Nat) (r : Region) (name : String) :
    Option VarId → Prop
  | none => ¬ r.Declares name
  | some id =>
      ∃ v, vars[id]? = some v ∧ v.storage ≠ .native ∧ v.owner = owner ∧ v.scopeIndex = depth ∧
        ∀ fixed, ⟨name, fixed⟩ ∈ r.declared ↔ fixed = v.storage.isConstant

/-- **Scopes mirror the regions around a point**, which stands in the given functions, innermost
first. -/
inductive Mirrors (vars : Array Variable) : List Nat → List Scope → Context → Prop where
  | nil : Mirrors vars [] [] []
  | inside {fs : List Nat} {scopes : List Scope} {ctx : Context} {s : Scope} {r : Region} :
      Mirrors vars fs scopes ctx → s.kind ≠ .function → r.kind = s.kind.region →
      (∀ name, Binds vars scopes.length fs.head? r name (s.bindings.lookup name)) →
      Mirrors vars fs (s :: scopes) (r :: ctx)
  | function {fs : List Nat} {scopes : List Scope} {ctx : Context} {s : Scope} {r : Region}
      {g : Nat} : Mirrors vars fs scopes ctx → (∀ f ∈ fs, f < g) → s.kind = .function →
      r.kind = .function →
      (∀ name, Binds vars scopes.length (some g) r name (s.bindings.lookup name)) →
      Mirrors vars (g :: fs) (s :: scopes) (r :: ctx)

theorem ScopeKind.region_eq_function {kind : ScopeKind} :
    kind.region = .function ↔ kind = .function := by
  cases kind <;> simp [region]

theorem Binds.mono {vars vars' : Array Variable} (hv : VarsGrow vars vars') {depth : Nat}
    {owner : Option Nat}
    {r : Region} {name : String} : {found : Option VarId} → Binds vars depth owner r name found →
    Binds vars' depth owner r name found
  | none, h => h
  | some _, ⟨v, hget, hrest⟩ => ⟨v, hv _ _ hget, hrest⟩

namespace Mirrors

variable {vars : Array Variable} {fs : List Nat} {scopes : List Scope} {ctx : Context}

theorem mono {vars' : Array Variable} (hv : VarsGrow vars vars') (h : Mirrors vars fs scopes ctx) :
    Mirrors vars' fs scopes ctx := by
  induction h with
  | nil => exact .nil
  | inside _ hkind hregion hbinds ih =>
    exact .inside ih hkind hregion fun name => (hbinds name).mono hv
  | function _ hlt hkind hregion hbinds ih =>
    exact .function ih hlt hkind hregion fun name => (hbinds name).mono hv

theorem length_eq (h : Mirrors vars fs scopes ctx) : scopes.length = ctx.length := by
  induction h with
  | nil => rfl
  | inside _ _ _ _ ih | function _ _ _ _ _ ih => exact congrArg Nat.succ ih

/-- A name that no scope binds is declared in no region. -/
theorem not_declares (h : Mirrors vars fs scopes ctx) {name : String}
    (hn : ∀ s ∈ scopes, s.bindings.lookup name = none) : ∀ r ∈ ctx, ¬ r.Declares name := by
  induction h with
  | nil => nofun
  | inside _ _ _ hbinds ih | function _ _ _ _ hbinds ih =>
    obtain ⟨hhead, hrest⟩ := List.forall_mem_cons.1 hn
    have hr := hbinds name
    rw [hhead] at hr
    exact List.forall_mem_cons.2 ⟨hr, ih hrest⟩

end Mirrors

/-- The innermost region that declares a name, and the variable that the name stands for. -/
structure Context.Found (vars : Array Variable) (fs : List Nat) (ctx : Context) (name : String)
    (id : VarId) (inner : Context) (r : Region) (outer : Context) (v : Variable) : Prop where
  split : ctx = inner ++ r :: outer
  between : ∀ s ∈ inner, ¬ s.Declares name
  declared : ∀ fixed, ⟨name, fixed⟩ ∈ r.declared ↔ fixed = v.storage.isConstant
  stored : vars[id]? = some v
  storage : v.storage ≠ .native
  depth : v.scopeIndex = outer.length
  owner : ∀ f, v.owner = some f → f ∈ fs
  current : v.owner = fs.head? ↔ ∀ s ∈ inner, s.kind ≠ .function

namespace Context

variable {vars : Array Variable} {fs : List Nat} {ctx : Context} {name : String} {id : VarId}

theorem found_head {owner : Option Nat} {r : Region}
    (h : Binds vars ctx.length owner r name (some id))
    (howner : owner = fs.head?) : ∃ v, Found vars fs (r :: ctx) name id [] r ctx v := by
  obtain ⟨v, hv, hstorage, hown, hdepth, hdeclared⟩ := h
  refine ⟨v, rfl, nofun, hdeclared, hv, hstorage, hdepth, fun f hf => ?_,
    iff_of_true (hown.trans howner) nofun⟩
  exact List.mem_of_mem_head? (howner ▸ hown ▸ hf)

theorem Found.cons {inner outer : Context} {r' : Region} {v : Variable}
    (h : ctx.Found vars fs name id inner r' outer v)
    {r : Region} (hr : ¬ r.Declares name) {fs' : List Nat} (hfs : fs ⊆ fs')
    (hcurrent : v.owner = fs'.head? ↔ ∀ s ∈ r :: inner, s.kind ≠ .function) :
    Found vars fs' (r :: ctx) name id (r :: inner) r' outer v :=
  ⟨congrArg (r :: ·) h.split, List.forall_mem_cons.2 ⟨hr, h.between⟩, h.declared, h.stored,
    h.storage, h.depth, fun f hf => hfs (h.owner f hf), hcurrent⟩

end Context

/-- A name that a scope binds is declared. -/
theorem Mirrors.found {vars : Array Variable} {fs : List Nat} {scopes : List Scope} {ctx : Context}
    (h : Mirrors vars fs scopes ctx) {name : String} {id : VarId}
    (hs : scopes.findSome? (·.bindings.lookup name) = some id) :
    ∃ inner r outer v, ctx.Found vars fs name id inner r outer v := by
  induction h with
  | nil => cases hs
  | @inside fs scopes ctx s r hm hkind hregion hbinds ih =>
    have hr := hbinds name
    rw [List.findSome?_cons] at hs
    cases hl : s.bindings.lookup name with
    | some id' =>
      rw [hl] at hs hr
      cases hs
      exact ⟨[], r, ctx, Context.found_head (hm.length_eq ▸ hr) rfl⟩
    | none =>
      rw [hl] at hs hr
      obtain ⟨inner, r', outer, v, hfound⟩ := ih hs
      have hr' : r.kind ≠ .function := by rwa [hregion, Ne, ScopeKind.region_eq_function]
      refine ⟨r :: inner, r', outer, v, hfound.cons hr (List.Subset.refl fs) ?_⟩
      rw [hfound.current, List.forall_mem_cons, and_iff_right hr']
  | @function fs scopes ctx s r g hm hlt hkind hregion hbinds ih =>
    have hr := hbinds name
    rw [List.findSome?_cons] at hs
    cases hl : s.bindings.lookup name with
    | some id' =>
      rw [hl] at hs hr
      cases hs
      exact ⟨[], r, ctx, Context.found_head (hm.length_eq ▸ hr) rfl⟩
    | none =>
      rw [hl] at hs hr
      obtain ⟨inner, r', outer, v, hfound⟩ := ih hs
      refine ⟨r :: inner, r', outer, v, hfound.cons hr (List.subset_cons_self g fs) ?_⟩
      -- the function that the scope belongs to is not among those further out
      refine iff_of_false (fun howner => ?_) fun hinner => hinner r List.mem_cons_self hregion
      exact Nat.lt_irrefl g (hlt g (hfound.owner g howner))

/-! ## Names -/

namespace Context

variable {ctx : Context} {name : String}

/-- There is one innermost region that declares a name. -/
theorem split_unique {inner inner' outer outer' : Context} {r r' : Region}
    (h : inner ++ r :: outer = inner' ++ r' :: outer') (hinner : ∀ s ∈ inner, ¬ s.Declares name)
    (hinner' : ∀ s ∈ inner', ¬ s.Declares name) (hr : r.Declares name) (hr' : r'.Declares name) :
    inner = inner' ∧ r = r' ∧ outer = outer' := by
  induction inner generalizing inner' with
  | nil =>
    cases inner' with
    | nil =>
      cases h
      exact ⟨rfl, rfl, rfl⟩
    | cons s inner' =>
      cases h
      exact absurd hr (hinner' r List.mem_cons_self)
  | cons s inner ih =>
    cases inner' with
    | nil =>
      cases h
      exact absurd hr' (hinner r' List.mem_cons_self)
    | cons s' inner' =>
      obtain ⟨rfl, htail⟩ := List.cons.inj h
      obtain ⟨rfl, hrest⟩ :=
        ih htail (List.forall_mem_cons.1 hinner).2 (List.forall_mem_cons.1 hinner').2
      exact ⟨rfl, hrest⟩

/-- A declared name may be used if its region is the outermost one or belongs to the same
function. -/
theorem Found.resolves_iff {vars : Array Variable} {fs : List Nat} {id : VarId}
    {inner outer : Context} {r : Region}
    {v : Variable} (h : ctx.Found vars fs name id inner r outer v) {fixed : Bool} :
    ctx.Resolves name fixed ↔
      fixed = v.storage.isConstant ∧ (outer = [] ∨ ∀ s ∈ inner, s.kind ≠ .function) := by
  have hr : r.Declares name := ⟨_, (h.declared _).2 rfl⟩
  constructor
  · intro hres
    cases hres with
    | declared hsplit hbetween hmem hreach =>
      obtain ⟨rfl, rfl, rfl⟩ :=
        split_unique (h.split.symm.trans hsplit) h.between hbetween hr ⟨_, hmem⟩
      exact ⟨(h.declared _).1 hmem, hreach⟩
    | native hnone => exact absurd hr (hnone r (h.split ▸ by simp))
  · rintro ⟨rfl, hreach⟩
    exact .declared h.split h.between ((h.declared _).2 rfl) hreach

/-- A name that is not declared may be used if it is a native. -/
theorem resolves_iff_native (h : ∀ r ∈ ctx, ¬ r.Declares name) {fixed : Bool} :
    ctx.Resolves name fixed ↔ fixed = true ∧ (NativeEntry.slot? name).isSome = true := by
  have hslot : (NativeEntry.slot? name).isSome = true ↔
      ∃ entry ∈ NativeEntry.table.toList, entry.name = name := by
    simp only [NativeEntry.slot?, Array.findIdx?_isSome, Array.any_eq_true',
      beq_iff_eq, Array.mem_toList_iff]
  rw [hslot]
  constructor
  · intro hres
    cases hres with
    | declared hsplit _ hmem _ => exact absurd ⟨_, hmem⟩ (h _ (hsplit ▸ by simp))
    | native _ hentry hname => exact ⟨rfl, _, hentry, hname⟩
  · rintro ⟨rfl, entry, hentry, hname⟩
    exact .native h hentry hname

end Context

/-- **The builder knows the regions around a point**: its scopes mirror them, and it has reported no
error. -/
structure Builder.Knows (b : Builder) (fs : List Nat) (ctx : Context) : Prop where
  mirrors : Mirrors b.scopes.vars fs b.scopes.scopes ctx
  natives : ∀ (slot : Nat) (entry : NativeEntry), NativeEntry.table[slot]? = some entry →
    b.scopes.vars[slot]? = some ⟨entry.name, .native, -1, none⟩
  function : b.function = fs.head?
  functions : ∀ f ∈ fs, f < b.functions.size
  opened : ctx ≠ []
  clean : b.errors = []

namespace Builder.Knows

variable {b : Builder} {fs : List Nat} {ctx : Context}

theorem withBlock (h : b.Knows fs ctx) (block : Block) :
    ({ b with block } : Builder).Knows fs ctx :=
  ⟨h.mirrors, h.natives, h.function, h.functions, h.opened, h.clean⟩

/-- What is captured is declared outside the function, but not at the top level. -/
theorem isCaptured_eq_false (h : b.Knows fs ctx) {name : String} {id : VarId}
    {inner outer : Context} {r : Region}
    {v : Variable} (hf : ctx.Found b.scopes.vars fs name id inner r outer v) :
    Lower.isCaptured b.function v = false ↔ outer = [] ∨ ∀ s ∈ inner, s.kind ≠ .function := by
  rw [← hf.current, ← h.function, ← List.length_eq_zero_iff]
  have hdepth := hf.depth
  by_cases howner : v.owner = b.function
  · simp [Lower.isCaptured, howner]
  · simp only [Lower.isCaptured, hdepth, howner, or_false]
    simp [hf.storage, howner]

/-- **A name is resolved exactly if it may be used.** -/
theorem resolve (h : b.Knows fs ctx) (name : String) (span : Span) :
    Lower.Decides (Lower.resolve name span) b (∃ fixed, ctx.Resolves name fixed)
      fun r b' => b' = b ∧ ∀ fixed, ctx.Resolves name fixed ↔ fixed = r.2.storage.isConstant := by
  cases hs : b.scopes.scopes.findSome? (·.bindings.lookup name) with
  | some id =>
    obtain ⟨inner, r, outer, v, hfound⟩ := h.mirrors.found hs
    have hlookup : b.scopes.lookup? name = some id := by rw [ScopeTable.lookup?, hs]; rfl
    have hcaptured := h.isCaptured_eq_false hfound
    have heq : Lower.resolve name span b = if Lower.isCaptured b.function v then
        .error ⟨span, .captured name v.owner.isSome⟩ { b with scopes := b.scopes.markClosed id }
        else .ok (id, v) b := by
      simp only [Lower.resolve_eq, hlookup, hfound.stored]
    refine ⟨?_, fun a b' hok _ => ?_⟩
    · rintro ⟨fixed, hres⟩
      have hreach := (hfound.resolves_iff.1 hres).2
      have hfree := Bool.eq_false_iff.1 (hcaptured.2 hreach)
      refine ⟨(id, v), b, by rw [heq, if_neg hfree], rfl, fun fixed => ?_⟩
      rw [hfound.resolves_iff, and_iff_left hreach]
    · rw [heq] at hok
      split at hok
      · cases hok
      case isFalse hfalse =>
        exact ⟨_, hfound.resolves_iff.2 ⟨rfl, hcaptured.1 (Bool.eq_false_iff.2 hfalse)⟩⟩
  | none =>
    have hnone := h.mirrors.not_declares (List.findSome?_eq_none_iff.1 hs)
    have hlookup : b.scopes.lookup? name = NativeEntry.slot? name := by
      rw [ScopeTable.lookup?, hs]; rfl
    cases hslot : NativeEntry.slot? name with
    | none =>
      refine ⟨?_, fun a b' hok _ => ?_⟩
      · rintro ⟨fixed, hres⟩
        have := ((Context.resolves_iff_native hnone).1 hres).2
        rw [hslot] at this
        cases this
      · simp only [Lower.resolve_eq, hlookup, hslot] at hok
        cases hok
    | some slot =>
      obtain ⟨entry, hentry, -⟩ := NativeEntry.slot?_spec hslot
      have hres : ∀ fixed, ctx.Resolves name fixed ↔ fixed = true := fun fixed => by
        rw [Context.resolves_iff_native hnone, hslot]
        exact and_iff_left rfl
      have heq : Lower.resolve name span b = .ok (slot, ⟨entry.name, .native, -1, none⟩) b := by
        simp only [Lower.resolve_eq, hlookup, hslot, h.natives slot entry hentry]
        rfl
      exact ⟨fun _ => ⟨_, b, heq, rfl, hres⟩, fun _ _ _ _ => ⟨true, (hres true).2 rfl⟩⟩

end Builder.Knows

/-! ## Declarations -/

/-- A new name stands for the new variable, all others for what they did. -/
theorem Binds.declare {vars : Array Variable} {depth : Nat} {owner : Option Nat} {r : Region}
    {bindings : List (String × VarId)} (h : ∀ x, Binds vars depth owner r x (bindings.lookup x))
    {v : Variable}
    (hfree : bindings.lookup v.name = none) (hstorage : v.storage ≠ .native)
    (howner : v.owner = owner) (hdepth : v.scopeIndex = depth) (x : String) :
    Binds (vars.push v) depth owner ⟨r.kind, r.declared ++ [⟨v.name, v.storage.isConstant⟩]⟩ x
      (((v.name, vars.size) :: bindings).lookup x) := by
  have hx := (h x).mono (varsGrow_push vars v)
  rw [List.lookup_cons]
  by_cases hname : x = v.name
  · subst hname
    rw [hfree] at hx
    simp only [beq_self_eq_true]
    refine ⟨v, Array.getElem?_push_size, hstorage, howner, hdepth, fun fixed => ?_⟩
    rw [List.mem_append, List.mem_singleton]
    exact ⟨fun hmem => hmem.elim (fun hmem => absurd ⟨fixed, hmem⟩ hx) fun heq =>
      (Declaration.mk.inj heq).2, fun heq => .inr (heq ▸ rfl)⟩
  · have hmem : ∀ fixed, ⟨x, fixed⟩ ∈ r.declared ++ [⟨v.name, v.storage.isConstant⟩] ↔
        ⟨x, fixed⟩ ∈ r.declared := by
      intro fixed
      simp [hname]
    rw [beq_eq_false_iff_ne.2 hname]
    cases hl : bindings.lookup x with
    | none =>
      rw [hl] at hx
      exact fun ⟨fixed, hdeclared⟩ => hx ⟨fixed, (hmem fixed).1 hdeclared⟩
    | some id =>
      rw [hl] at hx
      obtain ⟨w, hw, hstored, howner, hdepth, hdeclared⟩ := hx
      exact ⟨w, hw, hstored, howner, hdepth, fun fixed => (hmem fixed).trans (hdeclared fixed)⟩

theorem Mirrors.declare {vars : Array Variable} {fs : List Nat} {s : Scope} {outer : List Scope}
    {r : Region} {ctx : Context} (h : Mirrors vars fs (s :: outer) (r :: ctx)) {v : Variable}
    (hfree : s.bindings.lookup v.name = none) (hstorage : v.storage ≠ .native)
    (howner : v.owner = fs.head?) (hdepth : v.scopeIndex = outer.length) :
    Mirrors (vars.push v) fs ({ s with bindings := (v.name, vars.size) :: s.bindings } :: outer)
      (Context.declare ⟨v.name, v.storage.isConstant⟩ (r :: ctx)) := by
  have hgrow := varsGrow_push vars v
  cases h with
  | inside hm hkind hregion hbinds =>
    exact .inside (hm.mono hgrow) hkind hregion (Binds.declare hbinds hfree hstorage howner hdepth)
  | function hm hlt hkind hregion hbinds =>
    exact .function (hm.mono hgrow) hlt hkind hregion
      (Binds.declare hbinds hfree hstorage howner hdepth)

/-- A name is bound in the innermost scope exactly if the innermost region declares it. -/
theorem Mirrors.lookup_eq_none_iff {vars : Array Variable} {fs : List Nat} {s : Scope}
    {outer : List Scope} {r : Region}
    {ctx : Context} (h : Mirrors vars fs (s :: outer) (r :: ctx)) (name : String) :
    s.bindings.lookup name = none ↔ ¬ r.Declares name := by
  have hbinds : ∃ depth owner, Binds vars depth owner r name (s.bindings.lookup name) := by
    cases h with
    | inside _ _ _ hbinds | function _ _ _ _ hbinds => exact ⟨_, _, hbinds name⟩
  obtain ⟨depth, owner, hbinds⟩ := hbinds
  cases hl : s.bindings.lookup name with
  | none =>
    rw [hl] at hbinds
    exact iff_of_true rfl hbinds
  | some id =>
    rw [hl] at hbinds
    obtain ⟨v, -, -, -, -, hdeclared⟩ := hbinds
    exact iff_of_false nofun fun hnot => hnot ⟨_, (hdeclared _).2 rfl⟩

theorem Context.declare_ne_nil {ctx : Context} (h : ctx ≠ []) (d : Declaration) :
    ctx.declare d ≠ [] := by
  cases ctx with
  | nil => exact absurd rfl h
  | cons => exact List.cons_ne_nil _ _

namespace Builder.Knows

variable {b : Builder} {fs : List Nat} {ctx : Context}

/-- **A name is declared exactly if the innermost region does not declare it yet.** -/
theorem declareAs (h : b.Knows fs ctx) (name : Located String) (storage : Storage)
    (hstorage : storage ≠ .native) :
    Lower.Decides (Lower.declareAs name storage fs.head?) b (ctx.Free name.val)
      fun _ b' => b'.Knows fs (ctx.declare ⟨name.val, storage.isConstant⟩) := by
  have hm := h.mirrors
  cases hs : b.scopes.scopes with
  | nil =>
    rw [hs] at hm
    cases hm
    exact absurd rfl h.opened
  | cons s outer =>
    rw [hs] at hm
    obtain _ | ⟨r, ctx⟩ := ctx
    · exact absurd rfl h.opened
    have hfree : Context.Free (r :: ctx) name.val ↔ s.bindings.lookup name.val = none := by
      rw [hm.lookup_eq_none_iff]
      simp [Context.Free]
    rw [hfree]
    refine ⟨fun hnone => ?_, fun id b' hok _ => ?_⟩
    · have heq : Lower.declareAs name storage fs.head? b = .ok b.scopes.vars.size { b with
          scopes := ⟨b.scopes.vars.push ⟨name.val, storage, b.scopes.depth, fs.head?⟩,
            { s with bindings := (name.val, b.scopes.vars.size) :: s.bindings } :: outer⟩ } := by
        simp only [Lower.declareAs_eq, ScopeTable.declare, hs, hnone, Option.isSome_none,
          Bool.false_eq_true, if_false]
      have hdepth : b.scopes.depth = outer.length := by
        rw [ScopeTable.depth, hs, List.length_cons]
        omega
      have hgrow := varsGrow_push b.scopes.vars ⟨name.val, storage, b.scopes.depth, fs.head?⟩
      have hdeclared :=
        hm.declare (v := ⟨name.val, storage, b.scopes.depth, fs.head?⟩) hnone hstorage rfl hdepth
      exact ⟨_, _, heq,
        ⟨hdeclared, fun slot entry hentry => hgrow _ _ (h.natives slot entry hentry), h.function,
        h.functions, Context.declare_ne_nil h.opened _, h.clean⟩⟩
    · rw [Lower.declareAs_eq, ScopeTable.declare, hs] at hok
      cases hl : s.bindings.lookup name.val with
      | none => rfl
      | some id' =>
        simp only [hl, Option.isSome_some, if_true] at hok
        cases hok

theorem declare (h : b.Knows fs ctx) (name : Located String) (constant : Bool) :
    Lower.Decides (Lower.declare name constant) b (ctx.Free name.val)
      fun _ b' => b'.Knows fs (ctx.declare ⟨name.val, constant⟩) := by
  refine .after (rfl : (get : Lower Builder) b = .ok b b) ?_
  rw [h.function]
  cases constant with
  | true =>
    cases b.scopes.inFunction with
    | true => exact h.declareAs name .functionConstant nofun
    | false => exact h.declareAs name .globalConstant nofun
  | false =>
    cases b.scopes.inFunction with
    | true => exact h.declareAs name .functionMutable nofun
    | false => exact h.declareAs name .globalMutable nofun

end Builder.Knows

/-! ## Regions -/

theorem binds_empty (vars : Array Variable) (depth : Nat) (owner : Option Nat) (kind : RegionKind)
    (name : String) :
    Binds vars depth owner ⟨kind, []⟩ name none := fun ⟨_, h⟩ => nomatch h

/-- A statement declares names only in the innermost region. -/
theorem Context.after_cons (r : Region) (outer : Context) :
    (s : Stmt) → ∃ declared, Context.after (r :: outer) s = ⟨r.kind, declared⟩ :: outer
  | .var .. | .const .. | .function .. => ⟨_, rfl⟩
  | .ifThen _ yes => after_cons r outer yes
  | .ifElse _ yes no => by
    obtain ⟨declared, hyes⟩ := after_cons r outer yes
    obtain ⟨declared', hno⟩ := after_cons ⟨r.kind, declared⟩ outer no
    exact ⟨declared', by rw [Context.after, hyes, hno]⟩
  | .expr _ | .block _ | .while .. | .return .. | .break _ | .continue _ | .empty =>
    ⟨r.declared, rfl⟩

/-- The regions after statements. -/
def Context.afterAll (ctx : Context) (ss : List Stmt) : Context := ss.foldl Context.after ctx

theorem Context.afterAll_cons (r : Region) (outer : Context) (ss : List Stmt) :
    ∃ declared, Context.afterAll (r :: outer) ss = ⟨r.kind, declared⟩ :: outer := by
  induction ss generalizing r with
  | nil => exact ⟨r.declared, rfl⟩
  | cons s ss ih =>
    obtain ⟨declared, hs⟩ := Context.after_cons r outer s
    obtain ⟨declared', hss⟩ := ih ⟨r.kind, declared⟩
    exact ⟨declared', by rw [← hss, ← hs]; rfl⟩

namespace Context

variable {r : Region} {ctx : Context}

theorem inFunction_cons : InFunction (r :: ctx) ↔ r.kind = .function ∨ InFunction ctx :=
  List.exists_mem_cons_iff _ _ _

theorem inLoop_cons : InLoop (r :: ctx) ↔ r.kind = .loop ∨ r.kind ≠ .function ∧ InLoop ctx := by
  constructor
  · rintro ⟨_ | ⟨s, inner⟩, r', outer, hsplit, hloop, hinner⟩
    · cases hsplit
      exact .inl hloop
    · cases hsplit
      obtain ⟨hs, hinner⟩ := List.forall_mem_cons.1 hinner
      exact .inr ⟨hs, inner, r', outer, rfl, hloop, hinner⟩
  · rintro (hloop | ⟨hr, inner, r', outer, rfl, hloop, hinner⟩)
    · exact ⟨[], r, ctx, rfl, hloop, nofun⟩
    · exact ⟨r :: inner, r', outer, rfl, hloop, List.forall_mem_cons.2 ⟨hr, hinner⟩⟩

end Context

namespace Mirrors

variable {vars : Array Variable} {fs : List Nat} {scopes : List Scope} {ctx : Context}

theorem inFunction_iff (h : Mirrors vars fs scopes ctx) :
    scopes.any (·.kind == .function) = true ↔ ctx.InFunction := by
  induction h with
  | nil => simp [Context.InFunction]
  | inside _ hkind hregion _ ih =>
    rw [List.any_cons, Bool.or_eq_true, ih, Context.inFunction_cons, hregion,
      ScopeKind.region_eq_function, beq_iff_eq]
  | function _ _ hkind hregion _ ih =>
    rw [List.any_cons, Bool.or_eq_true, ih, Context.inFunction_cons, hregion, hkind]
    simp

theorem inLoop_iff (h : Mirrors vars fs scopes ctx) :
    (ScopeTable.loopOf? scopes).isSome = true ↔ ctx.InLoop := by
  induction h with
  | nil => simp [ScopeTable.loopOf?, Context.InLoop]
  | @inside _ _ _ s _ _ hkind hregion _ ih =>
    rw [Context.inLoop_cons, hregion, ← ih, ScopeTable.loopOf?]
    cases hk : s.kind with
    | normal => simp [ScopeKind.region]
    | loop => simp [ScopeKind.region]
    | function => exact absurd hk hkind
  | function _ _ hkind hregion _ ih =>
    rw [Context.inLoop_cons, hregion, ScopeTable.loopOf?, hkind]
    simp

end Mirrors

namespace Builder.Knows

variable {b : Builder} {fs : List Nat} {ctx : Context}

theorem enter (h : b.Knows fs ctx) {kind : ScopeKind} (hkind : kind ≠ .function) :
    ({ b with scopes := b.scopes.enter kind } : Builder).Knows fs (⟨kind.region, []⟩ :: ctx) :=
  ⟨.inside h.mirrors hkind rfl fun name => binds_empty _ _ _ _ name, h.natives, h.function,
    h.functions, List.cons_ne_nil _ _, h.clean⟩

theorem leave {r : Region} (h : b.Knows fs (r :: ctx)) (hr : r.kind ≠ .function) (hctx : ctx ≠ []) :
    ({ b with scopes := b.scopes.leave } : Builder).Knows fs ctx := by
  refine ⟨?_, h.natives, h.function, h.functions, hctx, h.clean⟩
  obtain ⟨⟨vars, scopes⟩, block, function, functions, errors⟩ := b
  have hm : Mirrors vars fs scopes (r :: ctx) := h.mirrors
  cases hm with
  | inside hm => exact hm
  | function _ _ _ hregion => exact absurd hregion hr

/-- The start of a function body. -/
theorem enterFunction (h : b.Knows fs ctx) {g : Nat} (hlt : ∀ f ∈ fs, f < g)
    (hg : g < b.functions.size) (block : Block) :
    ({ b with scopes := b.scopes.enter .function, block, function := some g } : Builder).Knows (g ::
      fs) (⟨.function, []⟩ :: ctx) :=
  ⟨.function h.mirrors hlt rfl rfl fun name => binds_empty _ _ _ _ name, h.natives, rfl,
    List.forall_mem_cons.2 ⟨hg, h.functions⟩, List.cons_ne_nil _ _, h.clean⟩

/-- The end of a function body. -/
theorem leaveFunction {g : Nat} {declared : List Declaration}
    (h : b.Knows (g :: fs) (⟨.function, declared⟩ :: ctx)) (hctx : ctx ≠ []) (block : Block)
    (f : LabelFunction → LabelFunction) :
    ({ b with
        scopes := b.scopes.leave
        block
        function := fs.head?
        functions := b.functions.modify g f } : Builder).Knows fs ctx := by
  refine ⟨?_, h.natives, rfl, fun f' hf' => ?_, hctx, h.clean⟩
  · obtain ⟨⟨vars, scopes⟩, block, function, functions, errors⟩ := b
    have hm : Mirrors vars (g :: fs) scopes (⟨.function, declared⟩ :: ctx) := h.mirrors
    cases hm with
    | inside _ hkind hregion => exact absurd (ScopeKind.region_eq_function.1 hregion.symm) hkind
    | function hm => exact hm
  · rw [Array.size_modify]
    exact h.functions f' (List.mem_cons_of_mem g hf')

end Builder.Knows

end Stackscript
