import Stackscript.Executable.Assemble
import Stackscript.Proofs.LabelMachine
import Stackscript.Proofs.Lists

/-!
# What drafting does to the tables

Drafting gives every variable a slot at its first use and every constant an entry of the pool. The
tables only grow, so what a draft says about them holds of the tables at the end.

* `addSlots`, the table after looking variables up in it, and `toList_addSlots`: each variable once,
  in the order of first use;
* `Instr.DraftedAs`, what a draft of an instruction is, and `Slots.Grows`;
* `draft_spec`, `draftAll_spec`, **`draftLabels_spec`**.
-/

namespace Stackscript

/-! ## Lists without repetitions -/

theorem nodup_eraseDups (l : List VarId) : l.eraseDups.Nodup := by
  induction h : l.length using Nat.strongRecOn generalizing l with
  | ind n ih =>
    cases l with
    | nil => simp
    | cons a l =>
      rw [List.eraseDups_cons, List.nodup_cons, List.mem_eraseDups]
      refine ⟨by simp, ih _ ?_ _ rfl⟩
      have := List.length_filter_le (fun b => !b == a) l
      simp only [List.length_cons] at h
      omega

theorem eraseDups_of_nodup {l : List VarId} (h : l.Nodup) : l.eraseDups = l := by
  induction l with
  | nil => rfl
  | cons a l ih =>
    rw [List.nodup_cons] at h
    rw [List.eraseDups_cons, List.filter_eq_self.2, ih h.2]
    intro b hb
    have : b ≠ a := fun e => h.1 (e ▸ hb)
    simpa using this

theorem eraseDups_append_cons_of_mem {l l' : List VarId} {a : VarId} (h : a ∈ l) :
    (l ++ a :: l').eraseDups = (l ++ l').eraseDups := by
  rw [List.eraseDups_append, List.eraseDups_append, List.removeAll,
    List.filter_cons_of_neg (by simpa using h)]
  rfl

/-! ## Tables of slots -/

/-- The table after variables have been looked up in it, one after the other. -/
def addSlots (table : Array VarId) (ids : List VarId) : Array VarId :=
  ids.foldl (fun t id => (slotOf t id).2) table

theorem addSlots_append (table : Array VarId) (ids ids' : List VarId) :
    addSlots table (ids ++ ids') = addSlots (addSlots table ids) ids' := List.foldl_append

theorem slotOf_of_mem {table : Array VarId} {id : VarId} (h : id ∈ table) :
    (slotOf table id).2 = table := by
  obtain ⟨k, hk⟩ := Option.isSome_iff_exists.1 (Array.isSome_idxOf?.2 h)
  rw [slotOf, hk]

theorem slotOf_of_not_mem {table : Array VarId} {id : VarId} (h : id ∉ table) :
    slotOf table id = (table.size, table.push id) := by
  rw [slotOf, Array.idxOf?_eq_none_iff.2 h]

/-- The slot of a variable holds it. -/
theorem slotOf_spec (table : Array VarId) (id : VarId) :
    (slotOf table id).2[(slotOf table id).1]? = some id := by
  by_cases h : id ∈ table
  · obtain ⟨k, hk⟩ := Option.isSome_iff_exists.1 (Array.isSome_idxOf?.2 h)
    obtain ⟨l⟩ := table
    rw [List.idxOf?_toArray] at hk
    obtain ⟨hlt, hget, -⟩ := List.idxOf?_eq_some_iff.1 hk
    rw [slotOf, List.idxOf?_toArray, hk]
    simp [hlt, hget]
  · rw [slotOf_of_not_mem h]
    simp

theorem toList_addSlots (table : Array VarId) (ids : List VarId) (h : table.toList.Nodup) :
    (addSlots table ids).toList = (table.toList ++ ids).eraseDups := by
  induction ids generalizing table with
  | nil => rw [List.append_nil, eraseDups_of_nodup h]; rfl
  | cons id ids ih =>
    show (addSlots (slotOf table id).2 ids).toList = _
    by_cases hm : id ∈ table
    · rw [slotOf_of_mem hm, ih table h, eraseDups_append_cons_of_mem (by simpa using hm)]
    · rw [slotOf_of_not_mem hm, ih _ ?_]
      · simp
      · rw [Array.toList_push, List.nodup_append]
        refine ⟨h, by simp, fun a ha b hb e => hm ?_⟩
        rw [List.mem_singleton.1 hb] at e
        exact Array.mem_toList_iff.1 (e ▸ ha)

theorem slotOf_grows {table : Array VarId} {k : Nat} {x : VarId} (id : VarId)
    (h : table[k]? = some x) : (slotOf table id).2[k]? = some x := by
  by_cases hm : id ∈ table
  · rwa [slotOf_of_mem hm]
  · rw [slotOf_of_not_mem hm, Array.getElem?_push, if_neg, h]
    have := (Array.getElem?_eq_some_iff.1 h).1
    omega

theorem addSlots_grows {table : Array VarId} {k : Nat} {x : VarId} (ids : List VarId)
    (h : table[k]? = some x) : (addSlots table ids)[k]? = some x := by
  induction ids generalizing table with
  | nil => exact h
  | cons id ids ih => exact ih (slotOf_grows id h)

/-! ## Drafts -/

/-- The byte instruction of an instruction that needs neither a table nor an address. -/
def Instr.plain? : Instr → Option Op
  | .pop => some .pop
  | .pushTrue => some .pushTrue
  | .pushFalse => some .pushFalse
  | .pushNull => some .pushNull
  | .ret => some .ret
  | .exit => some .exit
  | .binary op => some (.binary op)
  | .unary op => some (.unary op)
  | .number n => some (.number n)
  | .makeArray count => some (.makeArray count)
  | .call count => some (.call count)
  | .makeFunction => some .makeFunction
  | .getIndex => some .getIndex
  | .setIndex => some .setIndex
  | .goto _ | .popJumpIfZero _ | .popJumpIfNonzero _ | .string _ | .functionRef _ | .load _
  | .store _ => none

/-- The draft of an instruction, given the tables of the finished program. -/
inductive Instr.DraftedAs (vars : Array Variable) (t : Slots) : Instr → Draft → Prop where
  | plain {i : Instr} {op : Op} : i.plain? = some op → DraftedAs vars t i (.plain op)
  | goto (l : LabelId) : DraftedAs vars t (.goto l) (.goto l)
  | popJumpIfZero (l : LabelId) : DraftedAs vars t (.popJumpIfZero l) (.popJumpIfZero l)
  | popJumpIfNonzero (l : LabelId) : DraftedAs vars t (.popJumpIfNonzero l) (.popJumpIfNonzero l)
  | string {s : String} {k : Nat} : t.constants[k]? = some (.string s) →
      DraftedAs vars t (.string s) (.plain (.loadConst (.ofNat k)))
  | functionRef {index k : Nat} : t.constants[k]? = some (.function index) →
      DraftedAs vars t (.functionRef index) (.plain (.loadConst (.ofNat k)))
  | loadNative {id : VarId} {v : Variable} {slot : Nat} : vars[id]? = some v → v.storage = .native →
      NativeEntry.slot? v.name = some slot →
      DraftedAs vars t (.load id) (.plain (.loadNative (.ofNat slot)))
  | loadGlobal {id : VarId} {v : Variable} {k : Nat} : vars[id]? = some v →
      v.storage.isGlobal = true → t.globals[k]? = some id →
      DraftedAs vars t (.load id) (.plain (.loadGlobal (.ofNat k)))
  | storeGlobal {id : VarId} {v : Variable} {k : Nat} : vars[id]? = some v →
      v.storage.isGlobal = true → t.globals[k]? = some id →
      DraftedAs vars t (.store id) (.plain (.storeGlobal (.ofNat k)))
  | loadFrameVar {id : VarId} {v : Variable} {k : Nat} : vars[id]? = some v → v.storage ≠ .native →
      v.storage.isGlobal = false → t.locals.bind (·[k]?) = some id →
      DraftedAs vars t (.load id) (.plain (.loadFrameVar (.ofNat k)))
  | storeFrameVar {id : VarId} {v : Variable} {k : Nat} : vars[id]? = some v → v.storage ≠ .native →
      v.storage.isGlobal = false → t.locals.bind (·[k]?) = some id →
      DraftedAs vars t (.store id) (.plain (.storeFrameVar (.ofNat k)))

/-- No entry of a table is lost or moved. -/
structure Slots.Grows (s t : Slots) : Prop where
  constants : ∀ {k : Nat} {v : Value}, s.constants[k]? = some v → t.constants[k]? = some v
  globals : ∀ {k : Nat} {id : VarId}, s.globals[k]? = some id → t.globals[k]? = some id
  locals : ∀ {k : Nat} {id : VarId}, s.locals.bind (·[k]?) = some id →
    t.locals.bind (·[k]?) = some id

theorem Instr.DraftedAs.mono {vars : Array Variable} {s t : Slots} {i : Instr} {d : Draft}
    (h : i.DraftedAs vars s d) (g : s.Grows t) : i.DraftedAs vars t d := by
  cases h with
  | plain h => exact .plain h
  | goto l => exact .goto l
  | popJumpIfZero l => exact .popJumpIfZero l
  | popJumpIfNonzero l => exact .popJumpIfNonzero l
  | string h => exact .string (g.constants h)
  | functionRef h => exact .functionRef (g.constants h)
  | loadNative h₁ h₂ h₃ => exact .loadNative h₁ h₂ h₃
  | loadGlobal h₁ h₂ h₃ => exact .loadGlobal h₁ h₂ (g.globals h₃)
  | storeGlobal h₁ h₂ h₃ => exact .storeGlobal h₁ h₂ (g.globals h₃)
  | loadFrameVar h₁ h₂ h₃ h₄ => exact .loadFrameVar h₁ h₂ h₃ (g.locals h₄)
  | storeFrameVar h₁ h₂ h₃ h₄ => exact .storeFrameVar h₁ h₂ h₃ (g.locals h₄)

/-- The globally kept variables that instructions name, in order. -/
def namedGlobals (vars : Array Variable) (code : List Instr) : List VarId :=
  (code.filterMap Instr.mention?).filter (keptGlobally vars)

/-- The variables kept in calls that instructions name, in order. -/
def namedLocals (vars : Array Variable) (code : List Instr) : List VarId :=
  (code.filterMap Instr.mention?).filter (keptInFrames vars)

theorem namedGlobals_append (vars : Array Variable) (code code' : List Instr) :
    namedGlobals vars (code ++ code') = namedGlobals vars code ++ namedGlobals vars code' := by
  simp [namedGlobals]

theorem namedLocals_append (vars : Array Variable) (code code' : List Instr) :
    namedLocals vars (code ++ code') = namedLocals vars code ++ namedLocals vars code' := by
  simp [namedLocals]

/-- The entry of the pool that an instruction gets, if any. -/
def Instr.pooled? : Instr → Option Value
  | .string s => some (.string s)
  | .functionRef index => some (.function index)
  | _ => none

/-- The tables after instructions have been drafted. -/
structure Slots.After (vars : Array Variable) (code : List Instr) (s t : Slots) : Prop where
  constants : t.constants = s.constants ++ (code.filterMap Instr.pooled?).toArray
  globals : t.globals = addSlots s.globals (namedGlobals vars code)
  locals : t.locals = s.locals.map (addSlots · (namedLocals vars code))

namespace Slots.After

variable {vars : Array Variable} {code code' : List Instr} {s t u : Slots}

theorem grows (h : After vars code s t) : s.Grows t where
  constants hk := h.constants ▸ getElem?_append_of_some hk
  globals hk := by rw [h.globals]; exact addSlots_grows _ hk
  locals hk := by
    rw [h.locals]
    cases hs : s.locals with
    | none => rw [hs] at hk; cases hk
    | some table => rw [hs] at hk; exact addSlots_grows _ hk

theorem same (h : namedGlobals vars code = []) (h' : namedLocals vars code = [])
    (h'' : code.filterMap Instr.pooled? = []) : After vars code s s where
  constants := by rw [h'']; exact (Array.append_empty).symm
  globals := by rw [h]; rfl
  locals := by rw [h']; exact Option.map_id'.symm

theorem trans (h : After vars code s t) (h' : After vars code' t u) :
    After vars (code ++ code') s u where
  constants := by rw [h'.constants, h.constants, List.filterMap_append, Array.append_assoc]; simp
  globals := by rw [h'.globals, h.globals, namedGlobals_append, addSlots_append]
  locals := by
    rw [h'.locals, h.locals, Option.map_map, namedLocals_append]
    simp only [Function.comp_def, addSlots_append]

end Slots.After

theorem draftConstant_spec {vars : Array Variable} {v : Value} {s : Slots} {i : Instr}
    (hi : i.mention? = none) (hv : i.pooled? = some v) :
    Slots.After vars [i] s (draftConstant v s).2 where
  constants := by simp [hv, draftConstant]
  globals := by simp [namedGlobals, hi, addSlots, draftConstant]
  locals := by simp [namedLocals, hi, draftConstant, addSlots]

theorem Instr.pooled?_of_mention? {i : Instr} {id : VarId} (h : i.mention? = some id) :
    i.pooled? = none := by
  cases i with
  | load | store => rfl
  | _ => cases h

theorem draftVariable_spec {vars : Array Variable} {v : Variable} {id : VarId}
    {global frame : UInt32 → Op}
    {s t : Slots} {d : Draft} {i : Instr} (hi : i.mention? = some id) (hv : vars[id]? = some v)
    (hn : v.storage ≠ .native) (h : draftVariable v id global frame s = .ok (d, t)) :
    Slots.After vars [i] s t ∧
      ((v.storage.isGlobal = true ∧ ∃ k, t.globals[k]? = some id ∧ d = .plain (global (.ofNat k))) ∨
        (v.storage.isGlobal = false ∧
          ∃ k, t.locals.bind (·[k]?) = some id ∧ d = .plain (frame (.ofNat k)))) := by
  unfold draftVariable at h
  have hpool : s.constants = s.constants ++ ([i].filterMap Instr.pooled?).toArray := by
    simp [Instr.pooled?_of_mention? hi]
  cases hg : v.storage.isGlobal with
  | true =>
    rw [hg] at h
    cases h
    have h₁ : namedGlobals vars [i] = [id] := by simp [namedGlobals, hi, keptGlobally, hv, hg]
    have h₂ : namedLocals vars [i] = [] := by simp [namedLocals, hi, keptInFrames, hv, hg]
    refine ⟨⟨hpool, ?_, ?_⟩, .inl ⟨rfl, (slotOf s.globals id).1, slotOf_spec s.globals id, rfl⟩⟩
    · rw [h₁]; rfl
    · rw [h₂]; exact Option.map_id'.symm
  | false =>
    rw [hg] at h
    cases hl : s.locals with
    | none => rw [hl] at h; cases h
    | some table =>
      rw [hl] at h
      cases h
      have h₁ : namedGlobals vars [i] = [] := by simp [namedGlobals, hi, keptGlobally, hv, hg]
      have h₂ : namedLocals vars [i] = [id] := by simp [namedLocals, hi, keptInFrames, hv, hg, hn]
      refine ⟨⟨hpool, ?_, ?_⟩, .inr ⟨rfl, (slotOf table id).1, slotOf_spec table id, rfl⟩⟩
      · rw [h₁]; rfl
      · rw [h₂, hl]; rfl

/-- **The draft of an instruction**, and what it does to the tables. -/
theorem draft_spec {vars : Array Variable} {i : Instr} {s t : Slots} {d : Draft}
    (h : draft vars i s = .ok (d, t)) : i.DraftedAs vars t d ∧ Slots.After vars [i] s t := by
  cases i with
  | goto l => cases h; exact ⟨.goto l, .same rfl rfl rfl⟩
  | popJumpIfZero l => cases h; exact ⟨.popJumpIfZero l, .same rfl rfl rfl⟩
  | popJumpIfNonzero l => cases h; exact ⟨.popJumpIfNonzero l, .same rfl rfl rfl⟩
  | string text => cases h; exact ⟨.string (by simp), draftConstant_spec rfl rfl⟩
  | functionRef index => cases h; exact ⟨.functionRef (by simp), draftConstant_spec rfl rfl⟩
  | load id =>
    simp only [draft, draftLoad] at h
    cases hv : vars[id]? with
    | none => rw [hv] at h; cases h
    | some v =>
      rw [hv] at h
      by_cases hn : v.storage = .native
      · simp only [hn, if_true] at h
        cases hs : NativeEntry.slot? v.name with
        | none => rw [hs] at h; cases h
        | some slot =>
          rw [hs] at h
          cases h
          refine ⟨.loadNative hv hn hs, .same ?_ ?_ rfl⟩
          · simp [namedGlobals, Instr.mention?, keptGlobally, hv, hn, Storage.isGlobal]
          · simp [namedLocals, Instr.mention?, keptInFrames, hv, hn]
      · simp only [hn, if_false] at h
        obtain ⟨ha, ⟨hg, k, hk, rfl⟩ | ⟨hg, k, hk, rfl⟩⟩ :=
          draftVariable_spec (i := .load id) rfl hv hn h
        · exact ⟨.loadGlobal hv hg hk, ha⟩
        · exact ⟨.loadFrameVar hv hn hg hk, ha⟩
  | store id =>
    simp only [draft, draftStore] at h
    cases hv : vars[id]? with
    | none => rw [hv] at h; cases h
    | some v =>
      rw [hv] at h
      by_cases hn : v.storage = .native
      · simp only [hn, if_true] at h
        cases h
      · simp only [hn, if_false] at h
        obtain ⟨ha, ⟨hg, k, hk, rfl⟩ | ⟨hg, k, hk, rfl⟩⟩ :=
          draftVariable_spec (i := .store id) rfl hv hn h
        · exact ⟨.storeGlobal hv hg hk, ha⟩
        · exact ⟨.storeFrameVar hv hn hg hk, ha⟩
  | _ => cases h; exact ⟨.plain rfl, .same rfl rfl rfl⟩

theorem draftAll_spec {vars : Array Variable} {code : List Instr} {s t : Slots} {ds : List Draft}
    (h : draftAll vars code s = .ok (ds, t)) :
    List.Forall₂ (Instr.DraftedAs vars t) code ds ∧ Slots.After vars code s t := by
  induction code generalizing s ds with
  | nil => cases h; exact ⟨.nil, .same rfl rfl rfl⟩
  | cons i code ih =>
    simp only [draftAll, except_bind_eq_ok] at h
    obtain ⟨⟨d, s₁⟩, h₁, ⟨ds', s₂⟩, h₂, h₃⟩ := h
    cases h₃
    obtain ⟨hd, ha⟩ := draft_spec h₁
    obtain ⟨hds, ha'⟩ := ih h₂
    exact ⟨.cons (hd.mono ha'.grows) hds, ha.trans ha'⟩

/-- **The drafts of the labels of a block**: label by label the drafts of its instructions. -/
theorem draftLabels_spec {vars : Array Variable} {labels : List (LabelId × List Instr)}
    {s t : Slots}
    {drafts : List (LabelId × List Draft)} (h : draftLabels vars labels s = .ok (drafts, t)) :
    List.Forall₂ (fun l d => l.1 = d.1 ∧ List.Forall₂ (Instr.DraftedAs vars t) l.2 d.2) labels
      drafts ∧ Slots.After vars (labels.flatMap (·.2)) s t := by
  induction labels generalizing s drafts with
  | nil => cases h; exact ⟨.nil, .same rfl rfl rfl⟩
  | cons l labels ih =>
    obtain ⟨id, code⟩ := l
    simp only [draftLabels, except_bind_eq_ok] at h
    obtain ⟨⟨ds, s₁⟩, h₁, ⟨rest, s₂⟩, h₂, h₃⟩ := h
    cases h₃
    obtain ⟨hds, ha⟩ := draftAll_spec h₁
    obtain ⟨hrest, ha'⟩ := ih h₂
    exact ⟨.cons ⟨rfl, hds.imp fun _ _ hd => hd.mono ha'.grows⟩ hrest, ha.trans ha'⟩

end Stackscript
