import Stackscript.Proofs.FoldPlaces
import Stackscript.Proofs.LoweringPoints

/-!
# Which code uses which variables

A variable that a declaration introduces belongs to the function whose body the declaration stands
in, or to the top level. Code reads and writes the variables of its own function, and those that the
top level declares outside all blocks; the code of the top level uses all variables of the top
level. Natives are only read. A constant is written once, where it is declared.

* `Variable.UsableIn`, `Instr.Allowed`;
* `attributed`: instructions with the function whose code they belong to;
* **`LabelCode.Owned`**, `LabelCode.Owned.fold`;
* `Respects`: a part of a program that uses variables as it should, with all stores to the constants
  declared in it.
-/

namespace Stackscript

/-! ## Rules -/

/-- The variable is kept in the calls of a function. -/
def Storage.isLocal : Storage → Bool
  | .functionConstant | .functionMutable => true
  | _ => false

/-- The variable is a constant of the program or of a function. -/
def Storage.isDeclaredConstant : Storage → Bool
  | .globalConstant | .functionConstant => true
  | _ => false

/-- The code of a function, or that of the top level, may read and write the variable. -/
def Variable.UsableIn (v : Variable) : (function : Option Nat) → Prop
  | none => v.storage.isGlobal = true
  | some f =>
    (v.storage.isGlobal = true ∧ v.scopeIndex = 0) ∨ (v.storage.isLocal = true ∧ v.owner = some f)

/-- The code of a function, or that of the top level, may contain the instruction. Natives are only
read. -/
def Instr.Allowed (vars : Array Variable) (function : Option Nat) : Instr → Prop
  | .load id => ∃ v, vars[id]? = some v ∧ (v.storage = .native ∨ v.UsableIn function)
  | .store id => ∃ v, vars[id]? = some v ∧ v.UsableIn function
  | _ => True

/-- Instructions with the function whose code they belong to: those of one function or of the top
level, and those of functions numbered from `start` on. -/
def attributed (function : Option Nat) (is : List Instr) (start : Nat) (fs : List LabelFunction) :
    List (Option Nat × Instr) :=
  is.map (function, ·) ++ (fs.zipIdx start).flatMap fun (f, k) => f.block.instrs.map (some k, ·)

/-- All instructions of a program with the function whose code they belong to. -/
def LabelCode.attributed (code : LabelCode) : List (Option Nat × Instr) :=
  Stackscript.attributed none code.main.instrs 0 code.functions.toList

/-- **Code respects the owners of variables.** No variable is referred to by an inner function, all
code uses variables that it may use, and of all stores in the program exactly one is to a given
constant, in the code of its owner. -/
structure LabelCode.Owned (code : LabelCode) : Prop where
  storage : ∀ v ∈ code.vars, v.storage ≠ .closedConstant ∧ v.storage ≠ .closedMutable
  main : ∀ i ∈ code.main.instrs, i.Allowed code.vars none
  functions : ∀ (k : Nat) (f : LabelFunction), code.functions[k]? = some f →
    ∀ i ∈ f.block.instrs, i.Allowed code.vars (some k)
  constants : ∀ (id : VarId) (v : Variable), code.vars[id]? = some v →
    v.storage.isDeclaredConstant = true →
    code.attributed.filter (·.2 = .store id) = [(v.owner, .store id)]

/-! ## Folding -/

theorem Instr.Allowed.of_not_isAccess {vars : Array Variable} {function : Option Nat} {i : Instr}
    (h : i.isAccess = false) : i.Allowed vars function := by
  cases i with
  | load | store => cases h
  | _ => trivial

theorem Block.allowed_fold {vars : Array Variable} {function : Option Nat} {b : Block}
    (h : ∀ i ∈ b.instrs, i.Allowed vars function) :
    ∀ i ∈ b.fold.instrs, i.Allowed vars function := by
  intro i hi
  cases haccess : i.isAccess with
  | false => exact .of_not_isAccess haccess
  | true =>
    have hmem : i ∈ b.fold.instrs.filter Instr.isAccess := List.mem_filter.2 ⟨hi, haccess⟩
    rw [b.accesses_fold] at hmem
    exact h i (List.mem_filter.1 hmem).1

/-- Folding keeps the stores of a block. -/
theorem Block.stores_fold (b : Block) (id : VarId) :
    b.fold.instrs.filter (· = .store id) = b.instrs.filter (· = .store id) := by
  have hstore : ∀ is : List Instr, is.filter (· = .store id) =
      (is.filter Instr.isAccess).filter (· = .store id) := by
    intro is
    rw [List.filter_filter]
    refine List.filter_congr fun i _ => ?_
    by_cases h : i = .store id
    · simp [h, Instr.isAccess, Instr.mention?]
    · simp [h]
  rw [hstore, b.accesses_fold, ← hstore]

theorem filter_attributed (function : Option Nat) (is : List Instr) (start : Nat)
    (fs : List LabelFunction) (q : Instr → Bool) :
    (attributed function is start fs).filter (fun p => q p.2) =
      (is.filter q).map (function, ·) ++
        (fs.zipIdx start).flatMap fun (f, k) => (f.block.instrs.filter q).map (some k, ·) := by
  simp only [attributed, List.filter_append, List.filter_flatMap, List.filter_map]
  rfl

theorem LabelCode.Owned.fold {code : LabelCode} (h : code.Owned) : code.fold.Owned where
  storage := h.storage
  main := Block.allowed_fold h.main
  functions k f hf := by
    rw [LabelCode.getElem?_functions_fold] at hf
    obtain ⟨g, hg, rfl⟩ := Option.map_eq_some_iff.1 hf
    exact Block.allowed_fold (h.functions k g hg)
  constants id v hv hconst := by
    rw [← h.constants id v hv hconst, LabelCode.attributed, LabelCode.attributed,
      filter_attributed _ _ _ _ fun i => decide (i = .store id),
      filter_attributed _ _ _ _ fun i => decide (i = .store id)]
    have hmain : code.fold.main = code.main.fold := rfl
    rw [hmain, Block.stores_fold, LabelCode.functions_fold, Array.toList_map,
      List.zipIdx_map, List.flatMap_map]
    simp only [Prod.map, LabelFunction.folded, Block.stores_fold]
    rfl

/-! ## Parts of programs -/

/-- **A part of a program respects the owners of variables**, those of the table. It has all stores
to the constants that are declared from the number `first` on, and none to the others. -/
structure Respects (vars : Array Variable) (first : Nat) (code : List (Option Nat × Instr)) :
    Prop where
  allowed : ∀ p ∈ code, p.2.Allowed vars p.1
  constants : ∀ (id : VarId) (v : Variable), vars[id]? = some v →
    v.storage.isDeclaredConstant = true → code.filter (·.2 = .store id) = if id < first then []
    else [(v.owner, .store id)]

theorem Instr.Allowed.mono {vars vars' : Array Variable} (hv : VarsGrow vars vars')
    {function : Option Nat} {i : Instr}
    (h : i.Allowed vars function) : i.Allowed vars' function := by
  cases i with
  | load | store =>
    obtain ⟨v, hget, huse⟩ := h
    exact ⟨v, hv _ _ hget, huse⟩
  | _ => trivial

theorem VarsGrow.size_le {vars vars' : Array Variable} (h : VarsGrow vars vars') :
    vars.size ≤ vars'.size := by
  by_contra hlt
  have hget := h _ _ (Array.getElem?_eq_getElem (Nat.lt_of_not_le hlt))
  rw [Array.getElem?_eq_none (Nat.le_refl _)] at hget
  cases hget

theorem attributed_append (function : Option Nat) (is is' : List Instr) (start : Nat)
    (fs fs' : List LabelFunction) :
    (attributed function is start fs ++ attributed function is' (start + fs.length) fs').Perm
      (attributed function (is ++ is') start (fs ++ fs')) := by
  unfold attributed
  rw [List.map_append, List.zipIdx_append, List.flatMap_append, List.append_assoc,
    List.append_assoc, ← List.append_assoc _ (is'.map _), ← List.append_assoc (is'.map _)]
  exact (List.perm_append_comm.append_right _).append_left _

namespace Respects

variable {vars vars' : Array Variable} {first : Nat}
  {code code' : List (Option Nat × Instr)} {function : Option Nat}

theorem perm (hp : code.Perm code') (h : Respects vars first code) : Respects vars first code' := by
  refine ⟨fun p hmem => h.allowed p (hp.mem_iff.2 hmem), fun id v hv hconst => ?_⟩
  have hfilter := hp.filter (·.2 = .store id)
  rw [h.constants id v hv hconst] at hfilter
  split at hfilter
  · next hlt => rw [if_pos hlt, hfilter.nil_eq]
  · next hlt => rw [if_neg hlt, hfilter.singleton_eq]

/-- Code that stores to no constant belongs to a part without declarations. -/
theorem of_allowed (h : ∀ p ∈ code, p.2.Allowed vars p.1)
    (hstore : ∀ p ∈ code, ∀ id v, p.2 = .store id → vars[id]? = some v →
    v.storage.isDeclaredConstant = false) : Respects vars vars.size code := by
  refine ⟨h, fun id v hv hconst => ?_⟩
  rw [if_pos (Array.getElem?_eq_some_iff.1 hv).1, List.filter_eq_nil_iff]
  intro p hp hid
  rw [hstore p hp id v (of_decide_eq_true hid) hv] at hconst
  cases hconst

/-- The parts of a program one after the other. The first part declares the variables of its table,
the second one those that come after them. -/
theorem append (h : Respects vars first code) (hfirst : first ≤ vars.size)
    (hv : VarsGrow vars vars')
    (h' : Respects vars' vars.size code') : Respects vars' first (code ++ code') := by
  refine ⟨fun p hp => ?_, fun id v hget hconst => ?_⟩
  · exact (List.mem_append.1 hp).elim (fun hp => (h.allowed p hp).mono hv) (h'.allowed p)
  · rw [List.filter_append, h'.constants id v hget hconst]
    by_cases hlt : id < vars.size
    · have hold : vars[id]? = some v := by
        rw [Array.getElem?_eq_getElem hlt, ← hget]
        exact (hv _ _ (Array.getElem?_eq_getElem hlt)).symm
      rw [if_pos hlt, List.append_nil, h.constants id v hold hconst]
    · -- the first part stores only to variables of its own table
      have hnone : code.filter (·.2 = .store id) = [] := by
        refine List.filter_eq_nil_iff.2 fun p hp hid => hlt ?_
        have hallowed := h.allowed p hp
        rw [of_decide_eq_true hid] at hallowed
        obtain ⟨w, hw, -⟩ := hallowed
        exact (Array.getElem?_eq_some_iff.1 hw).1
      rw [if_neg hlt, if_neg fun hid => hlt (Nat.lt_of_lt_of_le hid hfirst), hnone, List.nil_append]

/-- A declaration, whose variable is stored to at once. -/
theorem declaration {v : Variable} (hv : v.UsableIn v.owner)
    (hcode : ∀ p ∈ code, p.2.isAccess = false) :
    Respects (vars.push v) vars.size (code ++ [(v.owner, .store vars.size)]) := by
  have hget : (vars.push v)[vars.size]? = some v := Array.getElem?_push_size
  refine ⟨fun p hp => ?_, fun id w hw _ => ?_⟩
  · rcases List.mem_append.1 hp with hp | hp
    · exact .of_not_isAccess (hcode p hp)
    · rw [List.mem_singleton.1 hp]
      exact ⟨v, hget, hv⟩
  · have hnone : code.filter (·.2 = .store id) = [] := by
      refine List.filter_eq_nil_iff.2 fun p hp hid => ?_
      have haccess := hcode p hp
      rw [of_decide_eq_true hid] at haccess
      cases haccess
    rw [List.filter_append, hnone, List.nil_append]
    by_cases hid : id = vars.size
    · subst hid
      cases hget.symm.trans hw
      rw [if_neg (Nat.lt_irrefl _)]
      simp
    · have hlt := (Array.getElem?_eq_some_iff.1 hw).1
      rw [Array.size_push] at hlt
      rw [if_pos (Nat.lt_of_le_of_ne (Nat.le_of_lt_succ hlt) hid)]
      simp [Ne.symm hid]

/-- A declaration whose variable is stored to from outside. -/
theorem parameter {v : Variable} (hv : v.storage.isDeclaredConstant = false) :
    Respects (vars.push v) vars.size [] := by
  refine ⟨nofun, fun id w hw hconst => ?_⟩
  have hne : id ≠ vars.size := by
    rintro rfl
    cases Array.getElem?_push_size.symm.trans hw
    exact absurd hconst (by rw [hv]; nofun)
  have hlt := (Array.getElem?_eq_some_iff.1 hw).1
  rw [Array.size_push] at hlt
  rw [if_pos (Nat.lt_of_le_of_ne (Nat.le_of_lt_succ hlt) hne)]
  rfl

end Respects

end Stackscript
