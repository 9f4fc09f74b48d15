import Stackscript.Proofs.Mentions
import Stackscript.Proofs.Slots

/-!
# The variables of lowered programs

A call keeps its parameters and what the body of its function declares, and the program keeps what
is declared outside all functions: each variable once, in the order of the declarations.

* `Introduces`: which variables are new among those that are named;
* `Names.Sees`, `Stmt.introduces`: a statement names the variables that it declares in their order;
* `Names.Ordered`, `Names.Invariant`, `Stmt.invariant`: what holds at every point of a program;
* **`FunctionDef.frameVars_lowered`**, **`LabelCode.Lowers.globalVars`**.
-/

namespace Stackscript

/-! ## Variables in the order of their declarations -/

/-- **Of the variables that are named, the new ones are these**, each at its first place. -/
def Introduces (kept : VarId → Bool) (seen named new : List VarId) : Prop :=
  (seen ++ named.filter kept).eraseDups = seen ++ new

namespace Introduces

variable {kept : VarId → Bool} {seen named named' new new' : List VarId} {id : VarId}

theorem eraseDups_append_eq (l l' : List VarId) :
    (l.eraseDups ++ l').eraseDups = (l ++ l').eraseDups := by
  rw [List.eraseDups_append, List.eraseDups_append, eraseDups_of_nodup (nodup_eraseDups l)]
  congr 2
  unfold List.removeAll
  congr 1
  funext x
  simp

theorem append (h₁ : Introduces kept seen named new)
    (h₂ : Introduces kept (seen ++ new) named' new') :
    Introduces kept seen (named ++ named') (new ++ new') := by
  unfold Introduces at *
  rw [List.filter_append, ← List.append_assoc, ← eraseDups_append_eq, h₁, h₂, List.append_assoc]

theorem nothing (hs : seen.Nodup) (h : ∀ id ∈ named, kept id = true → id ∈ seen) :
    Introduces kept seen named [] := by
  unfold Introduces
  have hremoved : (named.filter kept).removeAll seen = [] := by
    unfold List.removeAll
    rw [List.filter_eq_nil_iff]
    intro id hid
    simpa using h id (List.mem_filter.1 hid).1 (List.mem_filter.1 hid).2
  rw [List.eraseDups_append, hremoved, eraseDups_of_nodup hs]
  rfl

theorem one (hs : seen.Nodup) (hid : id ∉ seen) (hk : kept id = true) :
    Introduces kept seen [id] [id] := by
  unfold Introduces
  have hfilter : [id].filter kept = [id] := by simp [hk]
  rw [hfilter]
  refine eraseDups_of_nodup ?_
  rw [List.nodup_append]
  refine ⟨hs, by simp, ?_⟩
  rintro a ha b hb rfl
  exact hid (List.mem_singleton.1 hb ▸ ha)

end Introduces

/-- The variables of the function that a point stands in have been met. -/
structure Names.Sees (n : Names) (seen : List VarId) : Prop where
  nodup : seen.Nodup
  lt : ∀ id ∈ seen, id < n.nextVar
  bound : ∀ p ∈ n.bound, p.2.owner = n.function → p.2.id ∈ seen

/-- The variable is kept where the variables of the function that a point stands in are. -/
def Names.keeps (vars : Array Variable) (n : Names) (id : VarId) : Bool :=
  if n.function.isSome then keptInFrames vars id else keptGlobally vars id

theorem Cell.Declared.keptGlobally {vars : Array Variable} {name : String} {c : Cell}
    (h : c.Declared vars name) (hk : keptGlobally vars c.id = true) : ∃ id, c = .shared id := by
  obtain ⟨v, hv, -, -, hs⟩ := h
  have hg : v.storage.isGlobal = true := by simpa [Stackscript.keptGlobally, hv] using hk
  cases c with
  | shared id => exact ⟨id, rfl⟩
  | native => rw [hs.1] at hg; cases hg
  | own => rw [hs.1] at hg; cases hg

theorem Cell.Declared.keptInFrames {vars : Array Variable} {name : String} {c : Cell}
    (h : c.Declared vars name) (hk : keptInFrames vars c.id = true) : ∃ f id, c = .own f id := by
  obtain ⟨v, hv, -, -, hs⟩ := h
  have hg : v.storage.isGlobal = false ∧ v.storage ≠ .native := by
    simpa [Stackscript.keptInFrames, hv] using hk
  cases c with
  | own f id => exact ⟨f, id, rfl⟩
  | native => exact absurd hs.1 hg.2
  | shared => rw [show v.storage.isGlobal = true from hs] at hg; cases hg.1

mutual

/-- Every variable that an expression names is that of a name which may be used. -/
theorem Expr.finds_of_mentions {vars : Array Variable} {n : Names} :
    (e : Expr) → e.Accepted vars n → ∀ id ∈ e.mentions n, ∃ name c, n.Finds vars name c ∧ c.id = id
  | .number .., _ | .string .., _ | .boolean .., _ | .null _, _ => nofun
  | .array _ items, h => Expr.finds_of_mentionsAll items h
  | .ident _ name, ⟨c, hc⟩ => by
    intro id hid
    exact ⟨name, c, hc, hc.idOf ▸ (List.mem_singleton.1 hid).symm⟩
  | .binary _ _ left right, ⟨hl, hr⟩ => by
    intro id hid
    exact (List.mem_append.1 hid).elim (left.finds_of_mentions hl id)
      (right.finds_of_mentions hr id)
  | .unary _ _ arg, h => arg.finds_of_mentions h
  | .cond _ test yes no, ⟨ht, hy, hn⟩ => by
    intro id hid
    exact (List.mem_append.1 hid).elim (test.finds_of_mentions ht id) fun hid =>
      (List.mem_append.1 hid).elim (yes.finds_of_mentions hy id) (no.finds_of_mentions hn id)
  | .assign _ target value, ⟨⟨c, hc, _⟩, h⟩ => by
    intro id hid
    refine (List.mem_append.1 hid).elim (value.finds_of_mentions h id) fun hid => ?_
    exact ⟨target.val, c, hc, hc.idOf ▸ (by simpa using hid : id = n.idOf target.val).symm⟩
  | .assignAt _ _ object position value, ⟨ho, hp, h⟩ => by
    intro id hid
    exact (List.mem_append.1 hid).elim (object.finds_of_mentions ho id) fun hid =>
      (List.mem_append.1 hid).elim (position.finds_of_mentions hp id) (value.finds_of_mentions h id)
  | .index _ object position, ⟨ho, hp⟩ => by
    intro id hid
    exact (List.mem_append.1 hid).elim (object.finds_of_mentions ho id)
      (position.finds_of_mentions hp id)
  | .call _ callee args, ⟨_, ha, hc⟩ => by
    intro id hid
    exact (List.mem_append.1 hid).elim (Expr.finds_of_mentionsAll args ha id)
      (callee.finds_of_mentions hc id)

theorem Expr.finds_of_mentionsAll {vars : Array Variable} {n : Names} : (es : List Expr) →
    Expr.AcceptedAll vars n es → ∀ id ∈ Expr.mentionsAll n es, ∃ name c,
      n.Finds vars name c ∧ c.id = id
  | [], _ => nofun
  | e :: es, ⟨he, hes⟩ => by
    intro id hid
    exact (List.mem_append.1 hid).elim (e.finds_of_mentions he id)
      (Expr.finds_of_mentionsAll es hes id)

end

theorem Expr.finds_of_mentionsOptional {vars : Array Variable} {n : Names} {e : Option Expr}
    (h : Expr.AcceptedOptional vars n e) :
    ∀ id ∈ Expr.mentionsOptional n e, ∃ name c, n.Finds vars name c ∧ c.id = id := by
  cases e with
  | some e => exact e.finds_of_mentions h
  | none => exact nofun

mutual

theorem Stmt.function_after (n : Names) : (s : Stmt) → (s.after n).function = n.function
  | .var .. | .const .. | .function .. | .block _ | .while .. | .expr _ | .return .. | .break _
  | .continue _
  | .empty => rfl
  | .ifThen _ yes => yes.function_after n
  | .ifElse _ yes no => (no.function_after _).trans (yes.function_after n)

theorem Stmt.function_afterAll (n : Names) :
    (ss : List Stmt) → (Stmt.afterAll n ss).function = n.function
  | [] => rfl
  | s :: ss => (Stmt.function_afterAll _ ss).trans (s.function_after n)

end

theorem Names.nextVar_declareAll (n : Names) (names : List (Located String)) :
    (n.declareAll names).nextVar = n.nextVar + names.length := by
  induction names generalizing n with
  | nil => rfl
  | cons name names ih =>
    show ((n.declare name.val).declareAll names).nextVar = _
    rw [ih, List.length_cons, Nat.add_comm names.length 1, ← Nat.add_assoc]
    rfl

mutual

/-- Numbers are not used again. -/
theorem Stmt.nextVar_le_after (n : Names) : (s : Stmt) → n.nextVar ≤ (s.after n).nextVar
  | .var .. | .const .. => Nat.le_succ _
  | .function name params body => by
    have h := Stmt.nextVar_le_afterAll ((n.declare name.val).enter params) body
    rw [Names.enter, Names.nextVar_declareAll] at h
    exact Nat.le_trans (Nat.le_succ _) (Nat.le_trans (Nat.le_add_right _ _) h)
  | .block body => Stmt.nextVar_le_afterAll n body
  | .ifThen _ yes => yes.nextVar_le_after n
  | .ifElse _ yes no => Nat.le_trans (yes.nextVar_le_after n) (no.nextVar_le_after _)
  | .while _ body => body.nextVar_le_after n
  | .expr _ | .return .. | .break _ | .continue _ | .empty => Nat.le_refl _

theorem Stmt.nextVar_le_afterAll (n : Names) :
    (ss : List Stmt) → n.nextVar ≤ (Stmt.afterAll n ss).nextVar
  | [] => Nat.le_refl _
  | s :: ss => Nat.le_trans (s.nextVar_le_after n) (Stmt.nextVar_le_afterAll _ ss)

end

theorem Names.id_cell (n : Names) : n.cell.id = n.nextVar := by
  unfold Names.cell
  cases n.function <;> rfl

/-- A cell of a call is declared only in a function. -/
theorem Names.isSome_function_of_cell (n : Names) (h : n.cell.owner.isSome = true) :
    n.function.isSome = true := by
  unfold Names.cell at h
  cases hf : n.function with
  | none => rw [hf] at h; cases h
  | some f => rfl

theorem Names.cell_ne_native (n : Names) (slot : Nat) : n.cell ≠ .native slot := by
  unfold Names.cell
  cases n.function <;> exact nofun

/-- A cell of a call is found only in a function. -/
theorem Names.Finds.isSome_function {vars : Array Variable} {n : Names} {name : String} {c : Cell}
    (h : n.Finds vars name c) (howner : c.owner.isSome = true) : n.function.isSome = true := by
  obtain ⟨f, hf⟩ := Option.isSome_iff_exists.1 howner
  rw [h.current f hf]
  rfl

namespace Names.Sees

variable {vars : Array Variable} {n : Names} {seen : List VarId} {named : List VarId}

theorem of_finds (h : n.Sees seen) {name : String} {c : Cell} (hc : n.Finds vars name c)
    (hk : n.keeps vars c.id = true) : c.id ∈ seen := by
  unfold Names.keeps at hk
  by_cases hf : n.function.isSome = true
  · rw [if_pos hf] at hk
    obtain ⟨f, id, rfl⟩ := hc.declared.keptInFrames hk
    rcases Names.lookup?_cases hc.lookup with hbound | ⟨slot, -, hslot⟩
    · exact h.bound _ hbound (hc.current f rfl).symm
    · cases hslot
  · rw [if_neg hf] at hk
    obtain ⟨id, rfl⟩ := hc.declared.keptGlobally hk
    rcases Names.lookup?_cases hc.lookup with hbound | ⟨slot, -, hslot⟩
    · exact h.bound _ hbound (Option.not_isSome_iff_eq_none.1 hf).symm
    · cases hslot

/-- Uses of names introduce nothing. -/
theorem nothing (h : n.Sees seen) (hm : ∀ id ∈ named, ∃ name c, n.Finds vars name c ∧ c.id = id) :
    Introduces (n.keeps vars) seen named [] := by
  refine Introduces.nothing h.nodup fun id hid hk => ?_
  obtain ⟨name, c, hc, rfl⟩ := hm id hid
  exact h.of_finds hc hk

theorem not_mem (h : n.Sees seen) : n.nextVar ∉ seen := fun hmem => Nat.lt_irrefl _ (h.lt _ hmem)

theorem declare (h : n.Sees seen) (name : String) :
    (n.declare name).Sees (seen ++ [n.nextVar]) := by
  refine ⟨?_, ?_, ?_⟩
  · rw [List.nodup_append]
    refine ⟨h.nodup, by simp, ?_⟩
    rintro a ha b hb rfl
    exact h.not_mem (List.mem_singleton.1 hb ▸ ha)
  · intro id hid
    rcases List.mem_append.1 hid with hid | hid
    · exact Nat.lt_succ_of_lt (h.lt id hid)
    · rw [List.mem_singleton.1 hid]
      exact Nat.lt_succ_self _
  · intro p hp hp'
    cases hp with
    | head => exact List.mem_append_right _ (by simp [id_cell])
    | tail _ hp => exact List.mem_append_left _ (h.bound p hp hp')

theorem declareAll (h : n.Sees seen) (names : List (Located String)) :
    (n.declareAll names).Sees (seen ++ List.range' n.nextVar names.length) := by
  induction names generalizing n seen with
  | nil =>
    show n.Sees (seen ++ [])
    rwa [List.append_nil]
  | cons name names ih =>
    have hrest := ih (h.declare name.val)
    rw [List.append_assoc] at hrest
    exact hrest

/-- A declaration introduces its variable. -/
theorem one (h : n.Sees seen) {name : String} (hd : n.cell.Declared vars name) :
    Introduces (n.keeps vars) seen [n.nextVar] [n.nextVar] := by
  refine .one h.nodup h.not_mem ?_
  obtain ⟨v, hv, -, -, hs⟩ := hd
  rw [id_cell] at hv
  unfold Names.cell at hs
  unfold Names.keeps
  cases hf : n.function with
  | none =>
    rw [hf] at hs
    simpa [keptGlobally, hv] using show v.storage.isGlobal = true from hs
  | some f =>
    rw [hf] at hs
    simpa [keptInFrames, hv] using show v.storage.isGlobal = false ∧ v.storage ≠ .native from hs

/-- The end of a scope. -/
theorem resume {seen' : List VarId} {inner : Names} (h : n.Sees seen)
    (hi : inner.Sees (seen ++ seen')) : (n.resume inner).Sees (seen ++ seen') :=
  ⟨hi.nodup, hi.lt, fun p hp hp' => List.mem_append_left _ (h.bound p hp hp')⟩

end Names.Sees

theorem Stmt.keeps_after (vars : Array Variable) (n : Names) (s : Stmt) :
    (s.after n).keeps vars = n.keeps vars := by
  funext id
  rw [Names.keeps, Names.keeps, s.function_after]

mutual

/-- **A statement names the variables that it declares in their order.** -/
theorem Stmt.introduces {vars : Array Variable} {inLoop : Bool} : (s : Stmt) → {n : Names} →
    {seen : List VarId} → s.Accepted vars n inLoop → n.Sees seen →
    Introduces (n.keeps vars) seen (s.mentions n) ((s.declared n).map (·.2)) ∧
      (s.after n).Sees (seen ++ (s.declared n).map (·.2))
  | .var name init, n, seen, ⟨ha, hd⟩, h => by
    have h₁ := h.nothing (Expr.finds_of_mentionsOptional ha)
    exact ⟨h₁.append (by rw [List.append_nil]; exact h.one hd), h.declare name.val⟩
  | .const name init, n, seen, ⟨ha, hd⟩, h => by
    have h₁ := h.nothing (init.finds_of_mentions ha)
    exact ⟨h₁.append (by rw [List.append_nil]; exact h.one hd), h.declare name.val⟩
  | .function name params body, n, seen, hd, h => by
    have hs := h.declare name.val
    refine ⟨h.one hd, hs.nodup, fun id hid => ?_, hs.bound⟩
    have hle := Stmt.nextVar_le_afterAll ((n.declare name.val).enter params) body
    rw [Names.enter, Names.nextVar_declareAll] at hle
    have hlt := hs.lt id hid
    exact Nat.lt_of_lt_of_le hlt (Nat.le_trans (Nat.le_add_right _ _) hle)
  | .expr e, n, seen, ha, h => by
    refine ⟨h.nothing (e.finds_of_mentions ha), ?_⟩
    show n.Sees (seen ++ [])
    rwa [List.append_nil]
  | .block body, n, seen, ha, h => by
    obtain ⟨hi, hs⟩ := Stmt.introducesAll body ha h
    exact ⟨hi, h.resume hs⟩
  | .ifThen test yes, n, seen, ⟨ht, hy⟩, h => by
    obtain ⟨hi, hs⟩ := yes.introduces hy h
    have h₁ := h.nothing (test.finds_of_mentions ht)
    exact ⟨h₁.append (by rwa [List.append_nil]), hs⟩
  | .ifElse test yes no, n, seen, ⟨ht, hy, hn⟩, h => by
    obtain ⟨hi₁, hs₁⟩ := yes.introduces hy h
    obtain ⟨hi₂, hs₂⟩ := no.introduces hn hs₁
    have h₁ := h.nothing (test.finds_of_mentions ht)
    rw [yes.keeps_after] at hi₂
    refine ⟨?_, ?_⟩
    · rw [Stmt.declared, List.map_append]
      exact h₁.append (by rw [List.append_nil]; exact hi₁.append hi₂)
    · rw [Stmt.declared, List.map_append, ← List.append_assoc]
      exact hs₂
  | .while test body, n, seen, ⟨ht, hb⟩, h => by
    obtain ⟨hi, hs⟩ := body.introduces hb h
    have h₁ := h.nothing (test.finds_of_mentions ht)
    exact ⟨h₁.append (by rwa [List.append_nil]), h.resume hs⟩
  | .return value _, n, seen, ⟨_, ha⟩, h => by
    refine ⟨h.nothing (Expr.finds_of_mentionsOptional ha), ?_⟩
    show n.Sees (seen ++ [])
    rwa [List.append_nil]
  | .break _, n, seen, _, h | .continue _, n, seen, _, h | .empty, n, seen, _, h => by
    refine ⟨h.nothing nofun, ?_⟩
    show n.Sees (seen ++ [])
    rwa [List.append_nil]

theorem Stmt.introducesAll {vars : Array Variable} {inLoop : Bool} :
    (ss : List Stmt) → {n : Names} →
    {seen : List VarId} → Stmt.AcceptedAll vars n inLoop ss → n.Sees seen →
    Introduces (n.keeps vars) seen (Stmt.mentionsAll n ss) ((Stmt.declaredAll n ss).map (·.2)) ∧
      (Stmt.afterAll n ss).Sees (seen ++ (Stmt.declaredAll n ss).map (·.2))
  | [], n, seen, _, h => by
    refine ⟨h.nothing nofun, ?_⟩
    show n.Sees (seen ++ [])
    rwa [List.append_nil]
  | s :: ss, n, seen, ⟨hs, hss⟩, h => by
    obtain ⟨hi₁, hs₁⟩ := s.introduces hs h
    obtain ⟨hi₂, hs₂⟩ := Stmt.introducesAll ss hss hs₁
    rw [s.keeps_after] at hi₂
    refine ⟨?_, ?_⟩
    · rw [Stmt.declaredAll, List.map_append]
      exact hi₁.append hi₂
    · rw [Stmt.declaredAll, List.map_append, ← List.append_assoc]
      exact hs₂

end

/-! ## Functions -/

/-- The functions that are known at a point were met before it. -/
structure Names.Ordered (n : Names) : Prop where
  bound : ∀ p ∈ n.bound, ∀ f, p.2.owner = some f → f < n.nextFunction
  function : ∀ f, n.function = some f → f < n.nextFunction

namespace Names.Ordered

variable {n inner : Names}

theorem declare (h : n.Ordered) (name : String) : (n.declare name).Ordered := by
  refine ⟨fun p hp f hf => ?_, h.function⟩
  cases hp with
  | head =>
    refine h.function f ?_
    rw [← hf]
    unfold Names.cell
    cases n.function <;> rfl
  | tail _ hp => exact h.bound p hp f hf

theorem inNext (h : n.Ordered) : n.inNext.Ordered := by
  refine ⟨fun p hp f hf => Nat.lt_succ_of_lt (h.bound p hp f hf), ?_⟩
  rintro f hf
  cases hf
  exact Nat.lt_succ_self _

theorem resume (h : n.Ordered) (hle : n.nextFunction ≤ inner.nextFunction) :
    (n.resume inner).Ordered :=
  ⟨fun p hp f hf => Nat.lt_of_lt_of_le (h.bound p hp f hf) hle,
    fun f hf => Nat.lt_of_lt_of_le (h.function f hf) hle⟩

end Names.Ordered

theorem Names.nextFunction_declareAll (n : Names) (names : List (Located String)) :
    (n.declareAll names).nextFunction = n.nextFunction := by
  induction names generalizing n with
  | nil => rfl
  | cons name names ih => exact ih (n.declare name.val)

theorem Names.function_declareAll (n : Names) (names : List (Located String)) :
    (n.declareAll names).function = n.function := by
  induction names generalizing n with
  | nil => rfl
  | cons name names ih => exact ih (n.declare name.val)

mutual

/-- Functions are numbered in the order in which they stand in the text. -/
theorem Stmt.nextFunction_after (n : Names) :
    (s : Stmt) → (s.after n).nextFunction = n.nextFunction + (s.functions n).length
  | .function name params body => by
    have h := Stmt.nextFunction_afterAll ((n.declare name.val).enter params) body
    rw [Names.enter, Names.nextFunction_declareAll] at h
    refine h.trans ?_
    show n.nextFunction + 1 + _ = n.nextFunction + (_ + 1)
    rw [Names.enter]
    omega
  | .block body => Stmt.nextFunction_afterAll n body
  | .ifThen _ yes => yes.nextFunction_after n
  | .ifElse _ yes no => by
    rw [Stmt.after, Stmt.functions, no.nextFunction_after, yes.nextFunction_after n,
      List.length_append, Nat.add_assoc]
  | .while _ body => body.nextFunction_after n
  | .var .. | .const .. | .expr _ | .return .. | .break _ | .continue _ | .empty => rfl

theorem Stmt.nextFunction_afterAll (n : Names) :
    (ss : List Stmt) → (Stmt.afterAll n ss).nextFunction = n.nextFunction +
      (Stmt.functionsAll n ss).length
  | [] => rfl
  | s :: ss => by
    rw [Stmt.afterAll, Stmt.nextFunction_afterAll, s.nextFunction_after n, Stmt.functionsAll,
      List.length_append, Nat.add_assoc]

end

/-- A property of names that holds at every point of a program if it holds at the start. The numbers
of what is declared outside all functions are in a given set. -/
structure Names.Invariant (top : VarId → Prop) (P : Names → Prop) : Prop where
  declare : ∀ n name, P n → (n.function = none → top n.nextVar) → P (n.declare name)
  inNext : ∀ n, P n → P n.inNext
  resume : ∀ n inner, P n → n.nextFunction ≤ inner.nextFunction → P (n.resume inner)

section Invariant

variable {top : VarId → Prop} {P : Names → Prop}

theorem Names.Invariant.enter (hP : Names.Invariant top P) {n : Names}
    (params : List (Located String)) (h : P n) : P (n.enter params) := by
  have hall : ∀ (ps : List (Located String)) (n' : Names), n'.function ≠ none → P n' →
      P (n'.declareAll ps) := by
    intro ps
    induction ps with
    | nil => exact fun _ _ h => h
    | cons p ps ih =>
      exact fun n' hf h => ih _ hf (hP.declare n' p.val h fun hnone => absurd hnone hf)
  exact hall params n.inNext nofun (hP.inNext n h)

/-- What a statement declares outside all functions is in the given set. -/
def Stmt.DeclaresIn (top : VarId → Prop) (n : Names) (s : Stmt) : Prop :=
  n.function = none → ∀ id ∈ (s.declared n).map (·.2), top id

/-- What statements declare outside all functions is in the given set. -/
def Stmt.DeclareIn (top : VarId → Prop) (n : Names) (ss : List Stmt) : Prop :=
  n.function = none → ∀ id ∈ (Stmt.declaredAll n ss).map (·.2), top id

theorem Stmt.DeclareIn.cons {n : Names} {s : Stmt} {ss : List Stmt}
    (h : Stmt.DeclareIn top n (s :: ss)) :
    s.DeclaresIn top n ∧ Stmt.DeclareIn top (s.after n) ss := by
  refine ⟨fun hn id hid => h hn id ?_, fun hn id hid => h (s.function_after n ▸ hn) id ?_⟩
  · rw [Stmt.declaredAll, List.map_append]
    exact List.mem_append_left _ hid
  · rw [Stmt.declaredAll, List.map_append]
    exact List.mem_append_right _ hid

theorem Stmt.DeclaresIn.ifElse {n : Names} {test : Expr} {yes no : Stmt}
    (h : Stmt.DeclaresIn top n (.ifElse test yes no)) :
    yes.DeclaresIn top n ∧ no.DeclaresIn top (yes.after n) := by
  refine ⟨fun hn id hid => h hn id ?_, fun hn id hid => h (yes.function_after n ▸ hn) id ?_⟩
  · rw [Stmt.declared, List.map_append]
    exact List.mem_append_left _ hid
  · rw [Stmt.declared, List.map_append]
    exact List.mem_append_right _ hid

mutual

/-- **An invariant of names** holds after a statement and at all of its functions. -/
theorem Stmt.invariant (hP : Names.Invariant top P) : (s : Stmt) → {n : Names} → P n →
    s.DeclaresIn top n → P (s.after n) ∧ ∀ f ∈ s.functions n, P f.names ∧
      (Stmt.afterAll f.inner f.body).nextFunction ≤ (s.after n).nextFunction
  | .function name params body, n, h, hd => by
    have hname := hP.declare n name.val h fun hn => hd hn _ (by simp [Stmt.declared])
    have hinside : Stmt.DeclareIn top ((n.declare name.val).enter params) body := by
      intro hn
      rw [Names.enter, Names.function_declareAll] at hn
      cases hn
    obtain ⟨hbody, hinner⟩ := Stmt.invariantAll hP body (hP.enter params hname) hinside
    refine ⟨hP.resume _ _ hname ?_, fun f hf => ?_⟩
    · rw [Stmt.nextFunction_afterAll, Names.enter, Names.nextFunction_declareAll]
      exact Nat.le_trans (Nat.le_succ _) (Nat.le_add_right _ _)
    · cases hf with
      | head => exact ⟨hname, Nat.le_refl _⟩
      | tail _ hf => exact hinner f hf
  | .block body, n, h, hd => by
    obtain ⟨hbody, hinner⟩ := Stmt.invariantAll hP body h hd
    refine ⟨hP.resume _ _ h ?_, hinner⟩
    rw [Stmt.nextFunction_afterAll]
    exact Nat.le_add_right _ _
  | .ifThen _ yes, n, h, hd => yes.invariant hP h hd
  | .ifElse _ yes no, n, h, hd => by
    obtain ⟨hy, hfy⟩ := yes.invariant hP h hd.ifElse.1
    obtain ⟨hn, hfn⟩ := no.invariant hP hy hd.ifElse.2
    refine ⟨hn, fun f hf => ?_⟩
    rcases List.mem_append.1 hf with hf | hf
    · refine ⟨(hfy f hf).1, Nat.le_trans (hfy f hf).2 ?_⟩
      rw [Stmt.after, no.nextFunction_after]
      exact Nat.le_add_right _ _
    · exact hfn f hf
  | .while _ body, n, h, hd => by
    obtain ⟨hbody, hinner⟩ := body.invariant hP h hd
    refine ⟨hP.resume _ _ h ?_, hinner⟩
    rw [body.nextFunction_after]
    exact Nat.le_add_right _ _
  | .var name _, n, h, hd | .const name _, n, h, hd =>
    ⟨hP.declare n name.val h fun hn => hd hn _ (by simp [Stmt.declared]), nofun⟩
  | .expr _, n, h, _ | .return .., n, h, _ | .break _, n, h, _ | .continue _, n, h, _
  | .empty, n, h, _ =>
    ⟨h, nofun⟩

theorem Stmt.invariantAll (hP : Names.Invariant top P) : (ss : List Stmt) → {n : Names} → P n →
    Stmt.DeclareIn top n ss → P (Stmt.afterAll n ss) ∧ ∀ f ∈ Stmt.functionsAll n ss, P f.names ∧
      (Stmt.afterAll f.inner f.body).nextFunction ≤ (Stmt.afterAll n ss).nextFunction
  | [], n, h, _ => ⟨h, nofun⟩
  | s :: ss, n, h, hd => by
    obtain ⟨hs, hfs⟩ := s.invariant hP h hd.cons.1
    obtain ⟨hss, hfss⟩ := Stmt.invariantAll hP ss hs hd.cons.2
    refine ⟨hss, fun f hf => ?_⟩
    rcases List.mem_append.1 hf with hf | hf
    · refine ⟨(hfs f hf).1, Nat.le_trans (hfs f hf).2 ?_⟩
      rw [Stmt.afterAll, Stmt.nextFunction_afterAll]
      exact Nat.le_add_right _ _
    · exact hfss f hf

end

mutual

/-- Every variable that a statement names is used or declared at a point of it. -/
theorem Stmt.cell_of_mentions {vars : Array Variable} {inLoop : Bool} (hP : Names.Invariant top P) :
    (s : Stmt) → {n : Names} → P n → s.DeclaresIn top n → s.Accepted vars n inLoop →
      ∀ id ∈ s.mentions n,
      ∃ n' name c, P n' ∧ n'.function = n.function ∧ c.Declared vars name ∧ c.id = id ∧
        (n'.Finds vars name c ∨ c = n'.cell)
  | .var name init, n, h, _, ⟨ha, hd⟩ => by
    intro id hid
    rcases List.mem_append.1 hid with hid | hid
    · obtain ⟨name, c, hc, rfl⟩ := Expr.finds_of_mentionsOptional ha id hid
      exact ⟨n, name, c, h, rfl, hc.declared, rfl, .inl hc⟩
    · exact ⟨n, _, _, h, rfl, hd, (Names.id_cell n).trans (List.mem_singleton.1 hid).symm, .inr rfl⟩
  | .const name init, n, h, _, ⟨ha, hd⟩ => by
    intro id hid
    rcases List.mem_append.1 hid with hid | hid
    · obtain ⟨name, c, hc, rfl⟩ := init.finds_of_mentions ha id hid
      exact ⟨n, name, c, h, rfl, hc.declared, rfl, .inl hc⟩
    · exact ⟨n, _, _, h, rfl, hd, (Names.id_cell n).trans (List.mem_singleton.1 hid).symm, .inr rfl⟩
  | .function .., n, h, _, hd => by
    intro id hid
    exact ⟨n, _, _, h, rfl, hd, (Names.id_cell n).trans (List.mem_singleton.1 hid).symm, .inr rfl⟩
  | .expr e, n, h, _, ha => by
    intro id hid
    obtain ⟨name, c, hc, rfl⟩ := e.finds_of_mentions ha id hid
    exact ⟨n, name, c, h, rfl, hc.declared, rfl, .inl hc⟩
  | .block body, n, h, hd, ha => Stmt.cell_of_mentionsAll hP body h hd ha
  | .ifThen test yes, n, h, hd, ⟨ht, hy⟩ => by
    intro id hid
    rcases List.mem_append.1 hid with hid | hid
    · obtain ⟨name, c, hc, rfl⟩ := test.finds_of_mentions ht id hid
      exact ⟨n, name, c, h, rfl, hc.declared, rfl, .inl hc⟩
    · exact yes.cell_of_mentions hP h hd hy id hid
  | .ifElse test yes no, n, h, hd, ⟨ht, hy, hn⟩ => by
    intro id hid
    rcases List.mem_append.1 hid with hid | hid
    · obtain ⟨name, c, hc, rfl⟩ := test.finds_of_mentions ht id hid
      exact ⟨n, name, c, h, rfl, hc.declared, rfl, .inl hc⟩
    rcases List.mem_append.1 hid with hid | hid
    · exact yes.cell_of_mentions hP h hd.ifElse.1 hy id hid
    · have hyes := (yes.invariant hP h hd.ifElse.1).1
      rw [← yes.function_after n]
      exact no.cell_of_mentions hP hyes hd.ifElse.2 hn id hid
  | .while test body, n, h, hd, ⟨ht, hb⟩ => by
    intro id hid
    rcases List.mem_append.1 hid with hid | hid
    · obtain ⟨name, c, hc, rfl⟩ := test.finds_of_mentions ht id hid
      exact ⟨n, name, c, h, rfl, hc.declared, rfl, .inl hc⟩
    · exact body.cell_of_mentions hP h hd hb id hid
  | .return value _, n, h, _, ⟨_, ha⟩ => by
    intro id hid
    obtain ⟨name, c, hc, rfl⟩ := Expr.finds_of_mentionsOptional ha id hid
    exact ⟨n, name, c, h, rfl, hc.declared, rfl, .inl hc⟩
  | .break _, _, _, _, _ | .continue _, _, _, _, _ | .empty, _, _, _, _ => nofun

theorem Stmt.cell_of_mentionsAll {vars : Array Variable} {inLoop : Bool}
    (hP : Names.Invariant top P) :
    (ss : List Stmt) → {n : Names} → P n → Stmt.DeclareIn top n ss →
      Stmt.AcceptedAll vars n inLoop ss →
      ∀ id ∈ Stmt.mentionsAll n ss, ∃ n' name c, P n' ∧ n'.function = n.function ∧
        c.Declared vars name ∧ c.id = id ∧ (n'.Finds vars name c ∨ c = n'.cell)
  | [], _, _, _, _ => nofun
  | s :: ss, n, h, hd, ⟨hs, hss⟩ => by
    intro id hid
    rcases List.mem_append.1 hid with hid | hid
    · exact s.cell_of_mentions hP h hd.cons.1 hs id hid
    · have hafter := (s.invariant hP h hd.cons.1).1
      rw [← s.function_after n]
      exact Stmt.cell_of_mentionsAll hP ss hafter hd.cons.2 hss id hid

end

end Invariant

theorem Names.invariant_ordered : Names.Invariant (fun _ => True) Names.Ordered :=
  ⟨fun _ name h _ => h.declare name, fun _ h => h.inNext, fun _ _ h hle => h.resume hle⟩

/-- **The variables of a call**: the parameters, then what the body declares. -/
theorem FunctionDef.frameVars_lowered {vars : Array Variable} {f : FunctionDef}
    (hf : f.Accepted vars) (ho : f.names.Ordered) :
    f.lowered.frameVars vars = f.paramIds ++ (Stmt.declaredAll f.inner f.body).map (·.2) := by
  have hstart : f.names.inNext.Sees [] := by
    refine ⟨List.nodup_nil, nofun, fun p hp howner => ?_⟩
    exact absurd (ho.bound p hp _ howner) (Nat.lt_irrefl _)
  have hsees : f.inner.Sees f.paramIds := hstart.declareAll f.params
  have hkeeps : f.inner.keeps vars = keptInFrames vars := by
    funext id
    have hfun : f.inner.function = some f.names.nextFunction := Names.function_declareAll _ _
    rw [Names.keeps, hfun]
    rfl
  have hi := (Stmt.introducesAll f.body hf.body hsees).1
  rw [hkeeps] at hi
  show (f.paramIds ++ f.block.mentions.filter (keptInFrames vars)).eraseDups = _
  rw [f.mentions_block]
  exact hi

/-- A call has as many variables as cells. -/
theorem FunctionDef.length_frameVars {vars : Array Variable} {f : FunctionDef}
    (hf : f.Accepted vars)
    (ho : f.names.Ordered) : (f.lowered.frameVars vars).length = f.cells := by
  rw [f.frameVars_lowered hf ho, List.length_append, List.length_map,
    FunctionDef.paramIds, List.length_range']
  rfl

/-! ## Programs -/

theorem LabelCode.Lowers.size_functions {code : LabelCode} {p : Program} (h : code.Lowers p) :
    code.functions.size = (Stmt.afterAll .top p).nextFunction := by
  rw [← Array.length_toList, h.functions, List.length_map, Stmt.nextFunction_afterAll]
  exact (Nat.zero_add _).symm

theorem LabelCode.Lowers.function? {code : LabelCode} {p : Program} (h : code.Lowers p) (i : Nat) :
    code.functions[i]? = p.functions[i]?.map FunctionDef.lowered := by
  rw [← Array.getElem?_toList, h.functions, List.getElem?_map]

/-- The functions that are met in a function are functions of the program. -/
theorem LabelCode.Lowers.ordered {code : LabelCode} {p : Program} (h : code.Lowers p)
    {f : FunctionDef} (hf : f ∈ p.functions) :
    f.names.Ordered ∧ (Stmt.afterAll f.inner f.body).nextFunction ≤ code.functions.size := by
  have hstart : Names.top.Ordered := ⟨fun _ hp => (nomatch hp), nofun⟩
  rw [h.size_functions]
  exact (Stmt.invariantAll Names.invariant_ordered p hstart fun _ _ _ => trivial).2 f hf

/-- The variables declared outside all functions are among the given ones. -/
def Names.SharesIn (ids : List VarId) (n : Names) : Prop :=
  ∀ p ∈ n.bound, p.2.owner = none → p.2.id ∈ ids

theorem Names.invariant_sharesIn (ids : List VarId) :
    Names.Invariant (· ∈ ids) (Names.SharesIn ids) := by
  refine ⟨fun n name h hnew p hp howner => ?_, fun _ h => h, fun _ _ h _ => h⟩
  cases hp with
  | head =>
    have hnone : n.function = none := by
      unfold Names.cell Cell.owner at howner
      cases hf : n.function with
      | none => rfl
      | some f => rw [hf] at howner; cases howner
    rw [Names.id_cell]
    exact hnew hnone
  | tail _ hp => exact h p hp howner

mutual

/-- What a statement declares stands in the table under its name. -/
theorem Stmt.name_of_declared {vars : Array Variable} {inLoop : Bool} : (s : Stmt) → {n : Names} →
    s.Accepted vars n inLoop → ∀ d ∈ s.declared n, vars[d.2]?.map (·.name) = some d.1
  | .var _ _, n, ⟨_, v, hv, hname, _⟩ | .const _ _, n, ⟨_, v, hv, hname, _⟩
  | .function _ _ _, n, ⟨v, hv, hname, _⟩ => by
    intro d hd
    obtain rfl := List.mem_singleton.1 hd
    rw [Names.id_cell] at hv
    rw [hv, Option.map_some, hname]
  | .block body, n, h => Stmt.name_of_declaredAll body h
  | .ifThen _ yes, n, ⟨_, hy⟩ => yes.name_of_declared hy
  | .ifElse _ yes no, n, ⟨_, hy, hn⟩ => by
    intro d hd
    exact (List.mem_append.1 hd).elim (yes.name_of_declared hy d) (no.name_of_declared hn d)
  | .while _ body, n, ⟨_, hb⟩ => body.name_of_declared hb
  | .expr _, _, _ | .return .., _, _ | .break _, _, _ | .continue _, _, _ | .empty, _, _ => nofun

theorem Stmt.name_of_declaredAll {vars : Array Variable} {inLoop : Bool} :
    (ss : List Stmt) → {n : Names} →
    Stmt.AcceptedAll vars n inLoop ss → ∀ d ∈ Stmt.declaredAll n ss,
      vars[d.2]?.map (·.name) = some d.1
  | [], _, _ => nofun
  | s :: ss, n, ⟨hs, hss⟩ => by
    intro d hd
    exact (List.mem_append.1 hd).elim (s.name_of_declared hs d) (Stmt.name_of_declaredAll ss hss d)

end

/-- **The variables of a program** are those that it declares outside all functions, in their
order. -/
theorem LabelCode.Lowers.globalVars {code : LabelCode} {p : Program} (h : code.Lowers p) :
    code.globalVars = p.globals.map (·.2) := by
  have htop : Names.Sees .top [] := ⟨List.nodup_nil, nofun, nofun⟩
  have hmain := (Stmt.introducesAll p h.top htop).1
  have hnodup := (Stmt.introducesAll p h.top htop).2.nodup
  have hin : Stmt.DeclareIn (· ∈ p.globals.map (·.2)) .top p := fun _ id hid => hid
  have hstart : Names.SharesIn (p.globals.map (·.2)) .top := fun _ hp => nomatch hp
  have hshares := Stmt.invariantAll (Names.invariant_sharesIn _) p hstart hin
  -- what functions name of these has been named at the top level
  have hrest : Introduces (keptGlobally code.vars) (p.globals.map (·.2))
      ((code.functions.toList.map (·.block)).flatMap (·.mentions)) [] := by
    refine .nothing hnodup fun id hid hk => ?_
    obtain ⟨b, hb, hid⟩ := List.mem_flatMap.1 hid
    obtain ⟨lf, hlf, rfl⟩ := List.mem_map.1 hb
    rw [h.functions] at hlf
    obtain ⟨f, hf, rfl⟩ := List.mem_map.1 hlf
    have hfun : f.inner.function = some f.names.nextFunction := Names.function_declareAll _ _
    have hinner : f.inner.SharesIn (p.globals.map (·.2)) :=
      (Names.invariant_sharesIn _).enter f.params (hshares.2 f hf).1
    rw [show f.lowered.block.mentions = _ from f.mentions_block] at hid
    obtain ⟨n', name, c, hn', hfun', hdeclared, rfl, hc⟩ :=
      Stmt.cell_of_mentionsAll (Names.invariant_sharesIn _) f.body hinner
        (fun hnone => by rw [hfun] at hnone; cases hnone) (h.accepted f hf).body id hid
    obtain ⟨id, rfl⟩ := hdeclared.keptGlobally hk
    rcases hc with hc | hc
    · rcases Names.lookup?_cases hc.lookup with hbound | ⟨slot, -, hslot⟩
      · exact hn' _ hbound rfl
      · cases hslot
    · rw [Names.cell, hfun', hfun] at hc
      cases hc
  have hkeeps : Names.top.keeps code.vars = keptGlobally code.vars := rfl
  rw [hkeeps] at hmain
  have hall := hmain.append hrest
  unfold Introduces at hall
  rw [List.filter_append, List.filter_flatMap, List.append_nil, List.nil_append] at hall
  rw [LabelCode.globalVars, LabelCode.blocks, List.flatMap_cons, h.main, p.mentions_main]
  exact hall

end Stackscript
