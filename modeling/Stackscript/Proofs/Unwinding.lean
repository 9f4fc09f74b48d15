import Stackscript.Proofs.BlockGrowth
import Stackscript.Proofs.LoweringFrame

/-!
# Failed statements leave no traces

A statement can fail in the middle of nested blocks, loops and functions. Whether or not it does,
the builder goes on from where it was: in the same scopes, in the same function, at the end of the
same block, with nothing forgotten and nothing changed but by addition. The one exception are
variables that are found to be captured.

* `Variable.Kept`, `VarsKept`, `ScopeTable.Kept`, **`Builder.Kept`**: what stays as it was;
* `ScopeTable.Kept.leave`, `functions_kept`: scopes and functions that are begun within a statement;
* `Builder.stable_kept`, **`Lower.stmt_unwinds`**.
-/

namespace Stackscript

/-! ## What stays -/

/-- A variable is as it was, or has been closed. -/
def Variable.Kept (v v' : Variable) : Prop := v' = v ∨ v' = { v with storage := v.storage.closed }

/-- Variables may have been added. -/
def VarsKept (vars vars' : Array Variable) : Prop :=
  ∀ (id : VarId) (v : Variable), vars[id]? = some v → ∃ v', vars'[id]? = some v' ∧ v.Kept v'

/-- **Scopes and variables that stay.** Only the innermost scope may have gained bindings, of names
that it did not have, to variables of these names that are new. -/
structure ScopeTable.Kept (t t' : ScopeTable) : Prop where
  vars : VarsKept t.vars t'.vars
  scopes : (t.scopes = [] ∧ t'.scopes = []) ∨ ∃ s outer new, t.scopes = s :: outer ∧
    t'.scopes = { s with bindings := new ++ s.bindings } :: outer ∧
    ∀ p ∈ new, s.bindings.lookup p.1 = none ∧ t.vars.size ≤ p.2 ∧
    ∃ v, t'.vars[p.2]? = some v ∧ v.name = p.1

/-- **The builder goes on from where it was**: in the same scopes and in the same function, with
everything in its place that was there before. -/
structure Builder.Kept (b b' : Builder) : Prop where
  scopes : b.scopes.Kept b'.scopes
  function : b'.function = b.function
  block : b.block.PartOf b'.block
  functions : b.functions.toList <+: b'.functions.toList
  /-- The latest error stands first. -/
  errors : b.errors <:+ b'.errors

/-! ## Variables and scopes -/

theorem Storage.closed_closed (storage : Storage) : storage.closed.closed = storage.closed := by
  cases storage <;> rfl

namespace Variable.Kept

variable {v v₁ v₂ : Variable}

theorem name (h : v.Kept v₁) : v₁.name = v.name := by obtain rfl | rfl := h <;> rfl

theorem trans (h₁ : v.Kept v₁) (h₂ : v₁.Kept v₂) : v.Kept v₂ := by
  obtain rfl | rfl := h₁
  · exact h₂
  · obtain rfl | rfl := h₂
    · exact .inr rfl
    · exact .inr (by rw [Storage.closed_closed])

end Variable.Kept

namespace VarsKept

variable {vars vars₁ vars₂ : Array Variable}

theorem refl (vars : Array Variable) : VarsKept vars vars := fun _ v h => ⟨v, h, .inl rfl⟩

theorem trans (h₁ : VarsKept vars vars₁) (h₂ : VarsKept vars₁ vars₂) : VarsKept vars vars₂ := by
  intro id v hv
  obtain ⟨v₁, hv₁, hk₁⟩ := h₁ id v hv
  obtain ⟨v₂, hv₂, hk₂⟩ := h₂ id v₁ hv₁
  exact ⟨v₂, hv₂, hk₁.trans hk₂⟩

theorem size_le (h : VarsKept vars vars₁) : vars.size ≤ vars₁.size := by
  by_contra hlt
  obtain ⟨v, hv, -⟩ := h vars₁.size _ (Array.getElem?_eq_getElem (Nat.lt_of_not_le hlt))
  exact Nat.lt_irrefl _ (Array.getElem?_eq_some_iff.1 hv).1

end VarsKept

namespace ScopeTable

variable {t t' t'' : ScopeTable}

/-- Scopes that are the same. -/
theorem Kept.of_scopes (hvars : VarsKept t.vars t'.vars) (hscopes : t'.scopes = t.scopes) :
    t.Kept t' := by
  refine ⟨hvars, ?_⟩
  cases hs : t.scopes with
  | nil => exact .inl ⟨rfl, hscopes.trans hs⟩
  | cons s outer => exact .inr ⟨s, outer, [], rfl, hscopes.trans hs, nofun⟩

theorem Kept.refl (t : ScopeTable) : t.Kept t := .of_scopes (.refl _) rfl

theorem Kept.trans (h₁ : t.Kept t') (h₂ : t'.Kept t'') : t.Kept t'' := by
  refine ⟨h₁.vars.trans h₂.vars, ?_⟩
  -- the innermost scope that the second step finds is the one that the first has left
  obtain ⟨hs, hs₁⟩ | ⟨s, outer, new₁, hs, hs₁, hnew₁⟩ := h₁.scopes
  · obtain ⟨-, hs₂⟩ | ⟨s, outer, new₂, hs₂, -, -⟩ := h₂.scopes
    · exact .inl ⟨hs, hs₂⟩
    · rw [hs₁] at hs₂
      cases hs₂
  · obtain ⟨hs₂, -⟩ | ⟨s', outer', new₂, hs₂, hs', hnew₂⟩ := h₂.scopes
    · rw [hs₁] at hs₂
      cases hs₂
    · rw [hs₁] at hs₂
      cases hs₂
      refine .inr ⟨s, outer, new₂ ++ new₁, hs, by rw [hs', List.append_assoc], fun p hp => ?_⟩
      obtain hp | hp := List.mem_append.1 hp
      · obtain ⟨hlookup, hsize, hv⟩ := hnew₂ p hp
        rw [List.lookup_append, Option.or_eq_none_iff] at hlookup
        exact ⟨hlookup.2, Nat.le_trans h₁.vars.size_le hsize, hv⟩
      · obtain ⟨hlookup, hsize, v, hv, hname⟩ := hnew₁ p hp
        obtain ⟨v', hv', hk⟩ := h₂.vars p.2 v hv
        exact ⟨hlookup, hsize, v', hv', hk.name.trans hname⟩

theorem kept_markClosed (t : ScopeTable) (id : VarId) : t.Kept (t.markClosed id) := by
  refine .of_scopes (fun id' v hv => ?_) rfl
  rw [markClosed, Array.getElem?_modify, hv]
  by_cases hid : id = id'
  · rw [if_pos hid]
    exact ⟨_, rfl, .inr rfl⟩
  · rw [if_neg hid]
    exact ⟨v, rfl, .inl rfl⟩

/-- A declaration is a new binding to a new variable. -/
theorem kept_declare {name : String} {storage : Storage} {owner : Option Nat} {id : VarId}
    (h : t.declare name storage owner = .ok (id, t')) : t.Kept t' := by
  unfold declare at h
  split at h
  · cases h
  case h_2 s outer hs =>
    split at h
    · cases h
    case isFalse hnew =>
      cases h
      refine ⟨fun id v hv => ⟨v, ?_, .inl rfl⟩, .inr ⟨s, outer, [(name, t.vars.size)], hs, rfl, ?_⟩⟩
      · have hlt := (Array.getElem?_eq_some_iff.1 hv).1
        rw [Array.getElem?_push, if_neg (Nat.ne_of_lt hlt), hv]
      · have hlookup : s.bindings.lookup name = none := Option.not_isSome_iff_eq_none.1 hnew
        simp only [List.mem_singleton, forall_eq]
        exact ⟨hlookup, Nat.le_refl _, _, Array.getElem?_push_size, rfl⟩

/-- **A scope that is opened and left again takes its bindings with it.** -/
theorem Kept.leave {kind : ScopeKind} (h : (t.enter kind).Kept t') : t.Kept t'.leave := by
  obtain ⟨hs, -⟩ | ⟨s, outer, new, hs, hs', -⟩ := h.scopes
  · cases hs
  · cases hs
    exact .of_scopes h.vars (by rw [ScopeTable.leave, hs', List.tail_cons])

end ScopeTable

/-! ## Statements -/

/-- A function that is added and then filled in leaves those before it alone. -/
theorem functions_kept {fs fs' : Array LabelFunction} {f : LabelFunction}
    (h : (fs.push f).toList <+: fs'.toList)
    (g : LabelFunction → LabelFunction) : fs.toList <+: (fs'.modify fs.size g).toList := by
  obtain ⟨more, hmore⟩ := h
  rw [Array.toList_modify, ← hmore, Array.toList_push, List.append_assoc, List.singleton_append,
    ← Array.length_toList, modify_length_append]
  exact List.prefix_append _ _

theorem Builder.stable_kept : Lower.Stable Builder.Kept where
  refl _ := ⟨.refl _, rfl, .refl _, List.prefix_rfl, List.suffix_rfl⟩
  trans h₁ h₂ := ⟨h₁.scopes.trans h₂.scopes, h₂.function.trans h₁.function, h₁.block.trans h₂.block,
    h₁.functions.trans h₂.functions, h₁.errors.trans h₂.errors⟩
  add b i := ⟨.refl _, rfl, b.block.partOf_add i, List.prefix_rfl, List.suffix_rfl⟩
  reserve b := ⟨.refl _, rfl, b.block.partOf_reserve, List.prefix_rfl, List.suffix_rfl⟩
  start b id := ⟨.refl _, rfl, b.block.partOf_bind id, List.prefix_rfl, List.suffix_rfl⟩
  record _ _ := ⟨.refl _, rfl, .refl _, List.prefix_rfl, List.suffix_cons _ _⟩
  declare h := ⟨ScopeTable.kept_declare h, rfl, .refl _, List.prefix_rfl, List.suffix_rfl⟩
  markClosed b id := ⟨b.scopes.kept_markClosed id, rfl, .refl _, List.prefix_rfl, List.suffix_rfl⟩
  inScope _ h := ⟨h.scopes.leave, h.function, h.block, h.functions, h.errors⟩
  inFunction _ _ h := ⟨h.scopes.leave, rfl, .refl _, functions_kept h.functions _, h.errors⟩

/-- **A statement is unwound.** Whether or not the lowering of a statement fails, the builder goes
on from where it was. -/
theorem Lower.stmt_unwinds (s : Stmt) (b : Builder) :
    ∃ b', (stmt s b = .ok () b' ∨ ∃ e, stmt s b = .error e b') ∧ b.Kept b' := by
  have hkept := along_stmt Builder.stable_kept s b
  cases h : stmt s b with
  | ok _ b' =>
    rw [leaves_of_ok h] at hkept
    exact ⟨b', .inl rfl, hkept⟩
  | error e b' =>
    rw [leaves_of_error h] at hkept
    exact ⟨b', .inr ⟨e, rfl⟩, hkept⟩

end Stackscript
