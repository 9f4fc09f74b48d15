import Stackscript.Proofs.FoldPlaces

/-!
# Folded programs run as the programs do

The run of a program is ahead of the run of the folded program by the pending constants. At an
instruction that folding keeps, and at the end of a label, the folded program pushes them and both
go on alike; what folding replaces is a step of the program alone.

* `LabelMachine.FoldedTo`, `LabelMachine.Level`, `LabelMachine.Ahead`: the relations between the
  machines;
* `LabelMachine.FoldedTo.execute`: kept instructions;
* `LabelMachine.catchUp`: pushing the pending constants;
* **`fold_simulates`**.
-/

namespace Stackscript

/-! ## The relation between the machines -/

/-- A call in the folded program belongs to a call in the program. -/
structure Activation.FoldedTo (code : LabelCode) (R : Renaming) (a a' : Activation) : Prop where
  function : a'.function = a.function
  place : ∃ g, code.functions[a.function]? = some g ∧ a'.place = g.block.foldedPlace a.place
  vars : ∀ id, (a.vars id).Renamed R (a'.vars id)

theorem Activation.FoldedTo.mono {code : LabelCode} {R R' : Renaming} {a a' : Activation}
    (h : a.FoldedTo code R a') (hR : R'.Extends R) : a.FoldedTo code R' a' :=
  ⟨h.function, h.place, fun id => (h.vars id).mono hR⟩

/-- No constants are pending in a call. -/
def Activation.IsSettled (code : LabelCode) (a : Activation) : Prop :=
  ∀ g, code.functions[a.function]? = some g → g.block.pendingAt a.place = []

namespace LabelMachine

/-- The constants pending where a machine is. -/
def pending (code : LabelCode) (m : LabelMachine) : List Instr :=
  ((m.block? code).map (·.pendingAt m.here)).getD []

/-- A machine of the folded program belongs to a machine of the program. Constants can be pending
only in the block that is being run. -/
structure FoldedTo (code : LabelCode) (R : Renaming) (m m' : LabelMachine) : Prop where
  core : m.core.Renamed R m'.core
  globals : ∀ id, (m.globals id).Renamed R (m'.globals id)
  place : m'.place = code.main.foldedPlace m.place
  frames : List.Forall₂ (Activation.FoldedTo code R) m.frames m'.frames
  charged : m'.charged = m.charged
  top : m.frames ≠ [] → code.main.pendingAt m.place = []
  callers : ∀ a ∈ m.frames.tail, a.IsSettled code

/-- Both machines are at the same point. -/
def Level (code : LabelCode) (m m' : LabelMachine) : Prop :=
  ∃ R, FoldedTo code R m m' ∧ m.pending code = []

/-- The machine of the program is ahead by the pending constants, whose values are on its stack. -/
def Ahead (code : LabelCode) (m m' : LabelMachine) : Prop :=
  ∃ R values stack, m.core.stack = values ++ stack ∧
    Pending R m.core.world.heap (m.pending code) values ∧
    FoldedTo code R (m.withCore ⟨stack, m.core.world⟩) m'

theorem Level.ahead {code : LabelCode} {m m' : LabelMachine} (h : Level code m m') :
    Ahead code m m' := by
  obtain ⟨R, h, hp⟩ := h
  exact ⟨R, [], m.core.stack, rfl, hp ▸ .nil, h⟩

/-- What can be seen of two machines is the same up to a renaming of arrays. -/
structure Alike (code code' : LabelCode) (R : Renaming) (m m' : LabelMachine) : Prop where
  core : m.core.Renamed R m'.core
  globals : ∀ id, (m.globals id).Renamed R (m'.globals id)
  activeNames : m'.activeNames code' = m.activeNames code
  charged : m'.charged = m.charged

end LabelMachine

/-- Two runs end in the same way up to a renaming of arrays; failures have the same wording. -/
inductive Halt.Alike (R : Renaming) (h h' : Heap) : Halt → Halt → Prop where
  | finished : Alike R h h' .finished .finished
  | failed {e e' : Failure} : e.message h = e'.message h' → Alike R h h' (.failed e) (.failed e')
  | fault {f f' : Fault} : f.Renamed R f' → Alike R h h' (.fault f) (.fault f')

/-- Two runs end alike. -/
def EndsAlike (code code' : LabelCode) (o o' : Halt × LabelMachine) : Prop :=
  ∃ R, o.2.Alike code code' R o'.2 ∧ o.1.Alike R o.2.core.world.heap o'.2.core.world.heap o'.1

/-- Two steps lead to machines at the same point, or end alike. -/
abbrev LevelSteps (code : LabelCode) (s s' : LabelStep) : Prop :=
  Progress.Related (LabelMachine.Level code) (EndsAlike code code.fold) s s'

/-- The value of a native is the same in every renaming. -/
theorem NativeEntry.value_renamed {slot : Nat} {entry : NativeEntry} (h : table[slot]? = some entry)
    (R : Renaming) : entry.value.Renamed R entry.value := by
  have hall : ∀ e ∈ table.toList, ∀ r, e.value ≠ .array r := by simp [table, ofNative]
  exact entry.value.renamed_self (hall entry (Array.mem_toList_iff.2 (Array.mem_of_getElem? h))) R

namespace LabelMachine.FoldedTo

variable {code : LabelCode} {R : Renaming} {m m' : LabelMachine} {host : Host}

theorem activeNames (h : FoldedTo code R m m') : m'.activeNames code.fold = m.activeNames code := by
  unfold LabelMachine.activeNames
  refine (map_eq_map_of_forall₂ (h.frames.imp fun a a' ha => ?_)).symm
  rw [ha.function, code.getElem?_functions_fold]
  cases code.functions[a.function]? <;> rfl

theorem alike (h : FoldedTo code R m m') : m.Alike code code.fold R m' :=
  ⟨h.core, h.globals, h.activeNames, h.charged⟩

/-- The block that is being run, and where in it. -/
theorem current (h : FoldedTo code R m m') :
    ∃ b, m.block? code = some b ∧ m'.block? code.fold = some b.fold ∧
      m'.here = b.foldedPlace m.here := by
  obtain ⟨core, globals, p, frames, charged⟩ := m
  obtain ⟨core', globals', p', frames', charged'⟩ := m'
  have hframes := h.frames
  cases hframes with
  | nil => exact ⟨code.main, rfl, rfl, h.place⟩
  | cons ha _ =>
    obtain ⟨g, hg, hp⟩ := ha.place
    refine ⟨g.block, ?_, ?_, hp⟩
    · simp [block?, hg]
    · simp [block?, ha.function, code.getElem?_functions_fold, hg, LabelFunction.folded]

theorem moveTo (h : FoldedTo code R m m') {b : Block} (hb : m.block? code = some b) (p : Place) :
    FoldedTo code R (m.moveTo p) (m'.moveTo (b.foldedPlace p)) := by
  obtain ⟨core, globals, q, frames, charged⟩ := m
  obtain ⟨core', globals', q', frames', charged'⟩ := m'
  have hframes := h.frames
  cases hframes with
  | nil =>
    cases hb
    exact ⟨h.core, h.globals, rfl, .nil, h.charged, fun hne => absurd rfl hne, h.callers⟩
  | cons ha hrest =>
    obtain ⟨g, hg, -⟩ := ha.place
    simp only [block?, hg, Option.map_some, Option.some_inj] at hb
    subst hb
    exact ⟨h.core, h.globals, h.place, .cons ⟨ha.function, ⟨g, hg, rfl⟩, ha.vars⟩ hrest, h.charged,
      fun _ => h.top nofun, h.callers⟩

theorem withCore (h : FoldedTo code R m m') {R' : Renaming} (hR : R'.Extends R) {c c' : Core}
    (hc : c.Renamed R' c') : FoldedTo code R' (m.withCore c) (m'.withCore c') :=
  ⟨hc, fun id => (h.globals id).mono hR, h.place, h.frames.imp fun _ _ ha => ha.mono hR, h.charged,
    h.top, h.callers⟩

theorem halt (h : FoldedTo code R m m') {f : Fault} (hf : ∀ v, f ≠ .notFunction (some v)) :
    LevelSteps code (m.halt f) (m'.halt f) :=
  .done ⟨R, h.alike, .fault (.same hf)⟩

/-! ## Instructions -/

theorem onCore (h : FoldedTo code R m m') (hp : m.pending code = []) {effect effect' : Core →
      Effect}
    (he : (effect m.core).Renamed R (effect' m'.core)) :
    LevelSteps code (m.onCore effect) (m'.onCore effect') := by
  simp only [LabelMachine.onCore]
  generalize effect m.core = e, effect' m'.core = e' at he
  cases he with
  | done hR hc => exact .next ⟨_, h.withCore hR hc, hp⟩
  | failed hc hm => exact .done ⟨R, (h.withCore R.extends_refl hc).alike, .failed hm⟩
  | fault hc hf => exact .done ⟨R, (h.withCore R.extends_refl hc).alike, .fault hf⟩

theorem push (h : FoldedTo code R m m') (hp : m.pending code = []) {v v' : Value}
    (hv : v.Renamed R v') : LevelSteps code (m.push v) (m'.push v') :=
  .next ⟨R, h.withCore R.extends_refl (h.core.push hv), hp⟩

theorem jump (h : FoldedTo code R m m') {b : Block} (hb : m.block? code = some b) (l : LabelId) :
    LevelSteps code (m.jump b l) (m'.jump b.fold l) := by
  simp only [LabelMachine.jump, b.labelIds_fold]
  cases b.labelIds.idxOf? l with
  | none => exact h.halt nofun
  | some k =>
    refine .next ⟨R, ?_, ?_⟩
    · have := h.moveTo hb ⟨k, 0⟩
      rwa [b.foldedPlace_label] at this
    · simp [LabelMachine.pending, hb]

theorem jumpIf (h : FoldedTo code R m m') (hp : m.pending code = []) {b : Block}
    (hb : m.block? code = some b) (wanted : Bool) (l : LabelId) :
    LevelSteps code (m.jumpIf b wanted l) (m'.jumpIf b.fold wanted l) := by
  obtain ⟨⟨stack, world⟩, globals, p, frames, charged⟩ := m
  obtain ⟨⟨stack', world'⟩, globals', p', frames', charged'⟩ := m'
  have hstack := h.core.stack
  cases hstack with
  | nil => exact h.halt nofun
  | @cons v v' rest rest' hv hrest =>
    have hc : Core.Renamed R ⟨rest, world⟩ ⟨rest', world'⟩ := ⟨hrest, h.core.world⟩
    have h' := h.withCore R.extends_refl hc
    simp only [LabelMachine.jumpIf]
    rw [h.core.world.heap.truthy_eq hv]
    split
    · exact h'.jump hb l
    · exact .next ⟨R, h', hp⟩

theorem loadVar (h : FoldedTo code R m m') (hp : m.pending code = []) (id : VarId) :
    LevelSteps code (m.loadVar code.vars id) (m'.loadVar code.vars id) := by
  unfold LabelMachine.loadVar
  cases code.vars[id]? with
  | none => exact h.halt nofun
  | some v =>
    simp only
    split
    · cases hs : (NativeEntry.slot? v.name).bind (NativeEntry.table[·]?) with
      | none => exact h.halt nofun
      | some entry =>
        obtain ⟨slot, -, hslot⟩ := Option.bind_eq_some_iff.1 hs
        exact h.push hp (NativeEntry.value_renamed hslot R)
    · split
      · exact h.push hp (h.globals id)
      · obtain ⟨core, globals, p, frames, charged⟩ := m
        obtain ⟨core', globals', p', frames', charged'⟩ := m'
        have hframes := h.frames
        cases hframes with
        | nil => exact h.halt nofun
        | cons ha _ => exact h.push hp (ha.vars id)

theorem storeVar (h : FoldedTo code R m m') (hp : m.pending code = []) (id : VarId) :
    LevelSteps code (m.storeVar code.vars id) (m'.storeVar code.vars id) := by
  obtain ⟨⟨stack, world⟩, globals, p, frames, charged⟩ := m
  obtain ⟨⟨stack', world'⟩, globals', p', frames', charged'⟩ := m'
  have hstack := h.core.stack
  cases hstack with
  | nil => exact h.halt nofun
  | @cons x x' rest rest' hx hrest =>
    have hc : Core.Renamed R ⟨rest, world⟩ ⟨rest', world'⟩ := ⟨hrest, h.core.world⟩
    have h' := h.withCore R.extends_refl hc
    have hset : ∀ {s s' : Store}, (∀ id, (s id).Renamed R (s' id)) →
        ∀ y, (s.set id x y).Renamed R (s'.set id x' y) := by
      intro s s' hs y
      unfold Store.set
      split
      · exact hx
      · exact hs y
    simp only [LabelMachine.storeVar]
    cases code.vars[id]? with
    | none => exact h'.halt nofun
    | some v =>
      simp only
      split
      · exact h'.halt nofun
      · split
        · exact .next ⟨R, ⟨h'.core, hset h.globals, h.place, h.frames, h.charged, h.top, h.callers⟩,
            hp⟩
        · have hframes := h.frames
          cases hframes with
          | nil => exact h'.halt nofun
          | @cons a a' as as' ha has =>
            obtain ⟨f, q, vars⟩ := a
            obtain ⟨f', q', vars'⟩ := a'
            refine .next ⟨R,
              ⟨h'.core, h.globals, h.place, .cons ⟨ha.function, ha.place, hset ha.vars⟩ has,
              h.charged, fun _ => h.top nofun, h.callers⟩, hp⟩

theorem ofArgs_renamed {ids : List VarId} {args args' : List Value}
    (ha : List.Forall₂ (Value.Renamed R) args args') (id : VarId) :
    (Store.ofArgs ids args id).Renamed R (Store.ofArgs ids args' id) := by
  unfold Store.ofArgs
  induction ha generalizing ids with
  | nil => rw [List.zip_nil_right]; exact .null
  | cons hv _ ih =>
    cases ids with
    | nil => exact .null
    | cons i ids =>
      rw [List.zip_cons_cons, List.zip_cons_cons, List.lookup_cons, List.lookup_cons]
      cases id == i with
      | true => exact hv
      | false => exact ih

/-- In all callers nothing is pending once nothing is pending where a call is made. -/
theorem callers_of_pending (h : FoldedTo code R m m') (hp : m.pending code = []) :
    ∀ a ∈ m.frames, a.IsSettled code := by
  obtain ⟨core, globals, p, frames, charged⟩ := m
  cases frames with
  | nil => exact nofun
  | cons a as =>
    refine List.forall_mem_cons.2 ⟨fun g hg => ?_, h.callers⟩
    simpa [LabelMachine.pending, block?, hg, here] using hp

theorem top_of_pending (h : FoldedTo code R m m') (hp : m.pending code = []) :
    code.main.pendingAt m.place = [] := by
  obtain ⟨core, globals, p, frames, charged⟩ := m
  cases frames with
  | nil => exact hp
  | cons a as => exact h.top nofun

theorem enter (h : FoldedTo code R m m') (hp : m.pending code = []) (index count : Nat) :
    LevelSteps code (m.enter code host index count) (m'.enter code.fold host index count) := by
  unfold LabelMachine.enter
  rw [code.getElem?_functions_fold]
  cases hf : code.functions[index]? with
  | none => exact h.halt nofun
  | some f =>
    have hvars : f.folded.frameVars code.fold.vars = f.frameVars code.vars :=
      frameVars_fold code.vars f
    simp only [Option.map_some, hvars, h.charged]
    rw [show f.folded.arity = f.arity from rfl, show f.folded.name = f.name from rfl]
    split
    · exact .done ⟨R, h.alike, .failed rfl⟩
    · split
      · exact h.halt nofun
      · split
        · exact .done ⟨R, h.alike, .failed rfl⟩
        · obtain ⟨hs, hs'⟩ | ⟨args, rest, args', rest', hs, hs', hargs, hrest⟩ :=
            splitTop_renamed count h.core.stack .nil
          · rw [hs, hs']
            exact h.halt nofun
          · rw [hs, hs']
            simp only
            split
            · refine .next ⟨R, ⟨⟨hrest, h.core.world⟩, h.globals, h.place,
                .cons ⟨rfl, ⟨f, hf, ?_⟩, ?_⟩ h.frames, rfl, fun _ => h.top_of_pending hp,
                h.callers_of_pending hp⟩, ?_⟩
              · exact (f.block.foldedPlace_label 0).symm
              · exact ofArgs_renamed hargs
              · simp only [LabelMachine.pending, block?, hf,
                  Option.map_some, Option.getD_some, here]
                exact f.block.pendingAt_label 0
            · have hc : Core.Renamed R ⟨rest, m.core.world⟩ ⟨rest', m'.core.world⟩ :=
                ⟨hrest, h.core.world⟩
              exact (h.withCore R.extends_refl hc).halt nofun

theorem call (h : FoldedTo code R m m') (hp : m.pending code = []) (count : Nat) :
    LevelSteps code (m.call code host count) (m'.call code.fold host count) := by
  obtain ⟨⟨stack, world⟩, globals, p, frames, charged⟩ := m
  obtain ⟨⟨stack', world'⟩, globals', p', frames', charged'⟩ := m'
  have hstack := h.core.stack
  cases hstack with
  | nil => exact h.halt nofun
  | @cons x x' rest rest' hx hrest =>
    have hc : Core.Renamed R ⟨rest, world⟩ ⟨rest', world'⟩ := ⟨hrest, h.core.world⟩
    have h' := h.withCore R.extends_refl hc
    have hm : Failure.message world.heap (.notCallable x) =
        Failure.message world'.heap (.notCallable x') :=
      congrArg ("Cannot call non-function value " ++ ·) (h.core.world.heap.quote_eq hx)
    cases hx with
    | native f => exact h'.onCore hp (h'.core.callNative host f count)
    | function i => exact h'.enter hp i count
    | _ => exact .done ⟨R, h'.alike, .failed hm⟩

theorem leave (h : FoldedTo code R m m') : LevelSteps code (m.leave code) (m'.leave code.fold) := by
  obtain ⟨core, globals, p, frames, charged⟩ := m
  obtain ⟨core', globals', p', frames', charged'⟩ := m'
  have hframes := h.frames
  cases hframes with
  | nil => exact h.halt nofun
  | @cons a a' as as' ha has =>
    obtain ⟨g, hg, -⟩ := ha.place
    have hvars : g.folded.frameVars code.fold.vars = g.frameVars code.vars :=
      frameVars_fold code.vars g
    have hcharged : charged' = charged := h.charged
    simp only [LabelMachine.leave, ha.function, code.getElem?_functions_fold, hg, Option.map_some,
      hvars, hcharged]
    have hcallers : ∀ b ∈ as, b.IsSettled code := h.callers
    refine .next ⟨R, ⟨h.core, h.globals, h.place, has, rfl, fun _ => h.top nofun,
      fun b hb => hcallers b (List.mem_of_mem_tail hb)⟩, ?_⟩
    cases has with
    | nil => exact h.top nofun
    | cons hb _ =>
      obtain ⟨g', hg', -⟩ := hb.place
      simp only [LabelMachine.pending, block?, hg', Option.map_some, Option.getD_some, here]
      exact hcallers _ (by simp) g' hg'

/-- **Every instruction does the same in both programs.** -/
theorem execute (h : FoldedTo code R m m') (hp : m.pending code = []) {b : Block}
    (hb : m.block? code = some b) (i : Instr) :
    LevelSteps code (m.execute code host b i) (m'.execute code.fold host b.fold i) := by
  cases i with
  | pop => exact h.onCore hp h.core.pop
  | pushTrue => exact h.push hp (.boolean true)
  | pushFalse => exact h.push hp (.boolean false)
  | pushNull => exact h.push hp .null
  | ret => exact h.leave
  | exit =>
    refine .done ⟨R, h.alike, ?_⟩
    simp only [Halt.atEnd, h.core.world.output]
    cases host.sink.refuseFlush m'.core.world.output with
    | none => exact .finished
    | some reason => exact .failed rfl
  | goto l => exact h.jump hb l
  | popJumpIfZero l => exact h.jumpIf hp hb false l
  | popJumpIfNonzero l => exact h.jumpIf hp hb true l
  | binary op => exact h.onCore hp (h.core.binary op)
  | unary op => exact h.onCore hp (h.core.unary op)
  | number n => exact h.push hp (.number n)
  | string s => exact h.push hp (.string s)
  | makeArray count => exact h.onCore hp (h.core.makeArray count.toNat)
  | functionRef index => exact h.push hp (.function index)
  | load id => exact h.loadVar hp id
  | store id => exact h.storeVar hp id
  | call count => exact h.call hp count.toNat
  | makeFunction =>
    have hsize : code.fold.functions.size = code.functions.size := by
      simp [LabelCode.functions_fold]
    simp only [LabelMachine.execute, hsize]
    exact h.onCore hp (h.core.makeFunction code.functions.size)
  | getIndex => exact h.onCore hp h.core.getIndex
  | setIndex => exact h.onCore hp h.core.setIndex

end LabelMachine.FoldedTo

/-! ## Pushing pending constants -/

namespace LabelMachine

theorem execute_constant {code : LabelCode} {host : Host} {b : Block} {i : Instr} {m : LabelMachine}
    {v : Value} {g : Heap} (h : i.constant? m.core.world.heap = some (v, g)) :
    m.execute code host b i =
      .next (m.withCore ⟨v :: m.core.stack, { m.core.world with heap := g }⟩) := by
  cases i with
  | makeArray n =>
    by_cases hn : n = 0
    · subst hn
      cases h
      rfl
    · simp [Instr.constant?, hn] at h
  | pushTrue | pushFalse | pushNull | number | string | functionRef => cases h; rfl
  | _ => cases h

theorem execute_pop {code : LabelCode} {host : Host} {b : Block} {m : LabelMachine} {v : Value}
    {rest : List Value} (hs : m.core.stack = v :: rest) :
    m.execute code host b .pop = .next (m.withCore ⟨rest, m.core.world⟩) := by
  obtain ⟨⟨stack, world⟩, globals, p, frames, charged⟩ := m
  subst hs
  rfl

theorem execute_unary_ok {code : LabelCode} {host : Host} {b : Block} {m : LabelMachine}
    {op : UnaryOperator} {v x : Value} {rest : List Value} (hs : m.core.stack = v :: rest)
    (hx : m.core.world.heap.unary op v = .ok x) :
    m.execute code host b (.unary op) = .next (m.withCore ⟨x :: rest, m.core.world⟩) := by
  obtain ⟨⟨stack, world⟩, globals, p, frames, charged⟩ := m
  subst hs
  simp only [execute, onCore, Core.unary, hx]

theorem execute_binary_ok {code : LabelCode} {host : Host} {b : Block} {m : LabelMachine}
    {op : BinaryOperator}
    {v w x : Value} {rest : List Value} (hs : m.core.stack = w :: v :: rest)
    (hx : v.binary op w = .ok x) :
    m.execute code host b (.binary op) = .next (m.withCore ⟨x :: rest, m.core.world⟩) := by
  obtain ⟨⟨stack, world⟩, globals, p, frames, charged⟩ := m
  subst hs
  simp only [execute, onCore, Core.binary, hx]

theorem execute_jumpIf {code : LabelCode} {host : Host} {b : Block} {m : LabelMachine}
    {wanted : Bool}
    {target : LabelId} {v : Value} {rest : List Value} (hs : m.core.stack = v :: rest) :
    m.execute code host b (.jumpIf wanted target) =
      if m.core.world.heap.truthy v = wanted then (m.withCore ⟨rest, m.core.world⟩).jump b target
      else .next (m.withCore ⟨rest, m.core.world⟩) := by
  obtain ⟨⟨stack, world⟩, globals, p, frames, charged⟩ := m
  subst hs
  cases wanted <;> rfl

/-- **A run of the folded program pushes the pending constants**, and then has the values that the
run of the program has. -/
theorem catchUp {code : LabelCode} (host : Host) {b : Block} {l : Label} {R : Renaming} {h : Heap}
    {p : List Instr} {values : List Value} (hp : Pending R h p values) {m : LabelMachine}
    (hb : m.block? code = some b) (hl : b.labels[m.here.label]? = some l)
    (hcode : ∀ k, k < p.length → l.code[m.here.index + k]? = p.reverse[k]?)
    (hh : h.Renamed R m.core.world.heap) :
    ∃ R' values' g, R'.Extends R ∧ h.Renamed R' g ∧ List.Forall₂ (Value.Renamed R') values values' ∧
      (∀ r r', R' r r' → R r r' ∨ .array r ∈ values) ∧
      Steps (step code host) p.length m
        ((m.moveTo ⟨m.here.label, m.here.index + p.length⟩).withCore
          ⟨values' ++ m.core.stack, { m.core.world with heap := g }⟩) := by
  induction hp with
  | nil =>
    refine ⟨R, [], m.core.world.heap, R.extends_refl, hh, .nil, fun _ _ hr => .inl hr, ?_⟩
    show Steps (step code host) 0 m ((m.moveTo m.here).withCore m.core)
    rw [moveTo_here]
    exact .zero m
  | @cons i v p values hv hfree hp ih =>
    obtain ⟨R₁, values', g, hR₁, hh₁, hvalues, hnew, hsteps⟩ := ih fun k hk => by
      rw [hcode k (by simp; omega), List.reverse_cons,
        List.getElem?_append_left (by simpa using hk)]
    -- the array of the newest constant is none of those pushed before it
    have hfree₁ : ∀ r, v = .array r → ∀ r', ¬ R₁ r r' := by
      intro r e r' hr
      obtain ⟨hR, hmem⟩ := hfree r e
      rcases hnew r r' hr with hr | hr
      · exact hR r' hr
      · exact hmem hr
    obtain ⟨v', g', R₂, hc, hR₂, hh₂, hvv, hnew₂⟩ := hv.realize hh₁ hfree₁
    have hi : l.code[m.here.index + p.length]? = some i := by
      rw [hcode p.length (by simp), List.reverse_cons, List.getElem?_append_right (by simp)]
      simp
    refine ⟨R₂, v' :: values', g', fun _ _ hr => hR₂ (hR₁ hr), hh₂,
      .cons hvv (hvalues.imp fun _ _ h => h.mono hR₂), ?_, hsteps.snoc ?_⟩
    · intro r r' hr
      rcases hnew₂ r r' hr with hr | rfl
      · rcases hnew r r' hr with hr | hr
        · exact .inl hr
        · exact .inr (List.mem_cons_of_mem _ hr)
      · exact .inr (by simp)
    · rw [step_of_instr (b := b) (l := l) (i := i) (by simpa using hb) (by simpa using hl)
        (by simpa using hi), execute_constant (v := v') (g := g') (by simpa using hc)]
      simp [Place.next, Nat.add_assoc]

end LabelMachine

/-! ## Steps -/

namespace LabelMachine

variable {code : LabelCode} {host : Host} {R : Renaming}
  {m m' : LabelMachine} {b : Block} {l : Label}

/-- The number of instructions that are still to come in the current label. -/
def instrsAhead (code : LabelCode) (m : LabelMachine) : Nat :=
  (((m.block? code).bind (·.labels[m.here.label]?)).map (·.code.size)).getD 0 - m.here.index

/-- What follows a step of the program: the folded program makes some steps, or none while the
program goes on in its label; or both end alike. -/
def Follows (code : LabelCode) (host : Host) (m m' : LabelMachine) : Prop :=
  (∃ s, m.step code host = .next s ∧
    ((∃ n t, Steps (step code.fold host) (n + 1) m' t ∧ Ahead code s t) ∨
      Ahead code s m' ∧ s.instrsAhead code < m.instrsAhead code)) ∨
  ∃ o o', m.step code host = .done o ∧ Ends (step code.fold host) m' o' ∧
  EndsAlike code code.fold o o'

/-- Once the folded program has caught up, both make the same step. -/
theorem follows_of_levelSteps {n : Nat} {m₁ : LabelMachine}
    (hsteps : Steps (step code.fold host) n m' m₁)
    (h : LevelSteps code (m.step code host) (m₁.step code.fold host)) : Follows code host m m' := by
  cases hm : m.step code host with
  | next s =>
    obtain ⟨t, ht, hlevel⟩ := (hm ▸ h).of_next
    exact .inl ⟨s, hm, .inl ⟨n, t, hsteps.snoc ht, hlevel.ahead⟩⟩
  | done o =>
    obtain ⟨o', ho', halike⟩ := (hm ▸ h).of_done
    exact .inr ⟨o, o', hm, .of_steps hsteps (.of_done ho'), halike⟩

/-- A step over what folding replaces is a step of the program alone. -/
theorem follows_of_silent {stack : List Value} (values : List Value) (world : World)
    (hf : FoldedTo code R (m.withCore ⟨stack, m.core.world⟩) m') (hb : m.block? code = some b)
    (hl : b.labels[m.here.label]? = some l) (hlt : m.here.index < l.code.size)
    (hdone : l.doneAt (m.here.index + 1) = l.doneAt m.here.index)
    (hm : m.step code host = .next ((m.moveTo m.here.next).withCore ⟨values ++ stack, world⟩))
    (hw : world.Renamed R m'.core.world)
    (hp : Pending R world.heap (l.pendingAt (m.here.index + 1)) values) :
    Follows code host m m' := by
  refine .inl ⟨_, hm, .inr ⟨⟨R, values, stack, rfl, ?_, ?_⟩, ?_⟩⟩
  · have : b.pendingAt m.here.next = l.pendingAt (m.here.index + 1) := Block.pendingAt_of_label hl
    simpa [pending, hb, this] using hp
  · have hplace : b.foldedPlace m.here.next = m'.here := by
      obtain ⟨b₁, hb₁, -, hhere⟩ := hf.current
      rw [block?_withCore, hb, Option.some_inj] at hb₁
      subst hb₁
      rw [hhere, here_withCore, Block.foldedPlace_of_label (p := m.here.next) hl,
        Block.foldedPlace_of_label hl]
      show Place.mk m.here.label (l.doneAt (m.here.index + 1)).length = _
      rw [hdone]
    have hmoved := hf.moveTo hb m.here.next
    rw [hplace, moveTo_here, moveTo_withCore] at hmoved
    exact hmoved.withCore R.extends_refl ⟨hf.core.stack, hw⟩
  · simp only [instrsAhead, block?_withCore, block?_moveTo, hb, here_withCore, here_moveTo,
      Place.next, Option.bind_some, hl, Option.map_some, Option.getD_some]
    omega

/-- **Where folding settles an instruction, the folded program pushes the constants before it** and
is then at the instruction. -/
theorem catchUp_to (host : Host) {stack values : List Value} {q : List Instr} {i : Instr}
    (core : Core)
    (hf : FoldedTo code R (m.withCore ⟨stack, m.core.world⟩) m') (hb : m.block? code = some b)
    (hl : b.labels[m.here.label]? = some l)
    (hdone : l.doneAt (m.here.index + 1) = (i :: q) ++ l.doneAt m.here.index)
    (hp : Pending R m.core.world.heap q values) (hcore : core = ⟨values ++ stack, m.core.world⟩) :
    ∃ R' m₁, Steps (step code.fold host) q.length m' m₁ ∧
      m₁.step code.fold host = execute code.fold host b.fold i (m₁.moveTo m₁.here.next) ∧
      FoldedTo code R' ((m.moveTo m.here.next).withCore core) (m₁.moveTo m₁.here.next) := by
  obtain ⟨b₁, hb₁, hb', hhere⟩ := hf.current
  rw [block?_withCore, hb, Option.some_inj] at hb₁
  subst hb₁
  rw [here_withCore, Block.foldedPlace_of_label hl] at hhere
  have hl' : b.fold.labels[m'.here.label]? = some l.folded := by
    rw [hhere, b.getElem?_fold, hl]; rfl
  obtain ⟨hq, hi⟩ := Label.getElem?_foldLabel hdone
  obtain ⟨R', values', g, hR, hh, hvalues, -, hsteps⟩ := catchUp host hp hb' hl'
    (by simpa [hhere, Label.folded] using hq) hf.core.world.heap
  refine ⟨R', _, hsteps, ?_, ?_⟩
  · refine step_of_instr (l := l.folded) (by simpa using hb') (by simpa using hl') ?_
    simpa [hhere, Label.folded] using hi
  · have hplace : b.foldedPlace m.here.next =
        Place.next ⟨m'.here.label, m'.here.index + q.length⟩ := by
      rw [Block.foldedPlace_of_label (p := m.here.next) hl, hhere]
      show Place.mk m.here.label (l.doneAt (m.here.index + 1)).length = _
      rw [hdone]
      simp [Place.next, Nat.add_comm, Nat.add_left_comm]
    have hmoved := hf.moveTo hb m.here.next
    rw [hplace, moveTo_withCore] at hmoved
    have hc : Core.Renamed R' core ⟨values' ++ m'.core.stack,
        { m'.core.world with heap := g }⟩ := by
      rw [hcore]
      exact ⟨List.rel_append hvalues (hf.core.stack.imp fun _ _ h => h.mono hR),
        hh, hf.core.world.output, hf.core.world.readings⟩
    have := hmoved.withCore hR hc
    simpa using this

/-- The step over a kept instruction. -/
theorem follows_of_kept {stack values : List Value} {i : Instr}
    (hs : m.core.stack = values ++ stack)
    (hf : FoldedTo code R (m.withCore ⟨stack, m.core.world⟩) m') (hb : m.block? code = some b)
    (hl : b.labels[m.here.label]? = some l) (hi : l.code[m.here.index]? = some i)
    (hpending : l.pendingAt (m.here.index + 1) = [])
    (hdone : l.doneAt (m.here.index + 1) = (i :: l.pendingAt m.here.index) ++ l.doneAt m.here.index)
    (hp : Pending R m.core.world.heap (l.pendingAt m.here.index) values) :
    Follows code host m m' := by
  obtain ⟨R', m₁, hsteps, hstep, hmoved⟩ :=
    catchUp_to host m.core hf hb hl hdone hp (by rw [← hs])
  refine follows_of_levelSteps hsteps ?_
  rw [step_of_instr hb hl hi, hstep]
  have hcore : (m.moveTo m.here.next).withCore m.core = m.moveTo m.here.next := by
    rw [← core_moveTo m m.here.next, withCore_core]
  rw [hcore] at hmoved
  refine hmoved.execute ?_ (by simpa using hb) i
  have : b.pendingAt m.here.next = [] :=
    (Block.pendingAt_of_label (p := m.here.next) hl).trans hpending
  simpa [pending, hb] using this

/-- The step over a conditional jump that folding makes unconditional. -/
theorem follows_of_jump {stack values : List Value} {v : Value} {q : List Instr} {wanted : Bool}
    {target : LabelId} (hs : m.core.stack = v :: values ++ stack)
    (hf : FoldedTo code R (m.withCore ⟨stack, m.core.world⟩) m') (hb : m.block? code = some b)
    (hl : b.labels[m.here.label]? = some l)
    (hi : l.code[m.here.index]? = some (.jumpIf wanted target))
    (hdone : l.doneAt (m.here.index + 1) = (.goto target :: q) ++ l.doneAt m.here.index)
    (ht : m.core.world.heap.truthy v = wanted) (hp : Pending R m.core.world.heap q values) :
    Follows code host m m' := by
  obtain ⟨R', m₁, hsteps, hstep, hmoved⟩ :=
    catchUp_to host ⟨values ++ stack, m.core.world⟩ hf hb hl hdone hp rfl
  refine follows_of_levelSteps hsteps ?_
  have hm : m.step code host =
      ((m.moveTo m.here.next).withCore ⟨values ++ stack, m.core.world⟩).jump b target := by
    rw [step_of_instr hb hl hi, execute_jumpIf (by simpa using hs), core_moveTo, if_pos ht]
  rw [hm, hstep]
  exact hmoved.jump (by simpa using hb) target

/-- The step from the end of a label to the next one. -/
theorem follows_of_end {stack values : List Value} (hs : m.core.stack = values ++ stack)
    (hf : FoldedTo code R (m.withCore ⟨stack, m.core.world⟩) m') (hb : m.block? code = some b)
    (hl : b.labels[m.here.label]? = some l) (hi : l.code[m.here.index]? = none)
    (hp : Pending R m.core.world.heap (l.pendingAt m.here.index) values) :
    Follows code host m m' := by
  obtain ⟨b₁, hb₁, hb', hhere⟩ := hf.current
  rw [block?_withCore, hb, Option.some_inj] at hb₁
  subst hb₁
  rw [here_withCore, Block.foldedPlace_of_label hl] at hhere
  have hl' : b.fold.labels[m'.here.label]? = some l.folded := by
    rw [hhere, b.getElem?_fold, hl]; rfl
  have hcode := Label.foldLabel_eq_of_end hi
  have hget : ∀ k, l.folded.code[m'.here.index + k]? = (l.pendingAt m.here.index).reverse[k]? := by
    intro k
    simp only [Label.folded, List.getElem?_toArray, hcode, hhere]
    rw [List.getElem?_append_right (by simp), List.length_reverse, Nat.add_sub_cancel_left]
  obtain ⟨R', values', g, hR, hh, hvalues, -, hsteps⟩ := catchUp host hp hb' hl'
    (fun k _ => hget k) hf.core.world.heap
  refine follows_of_levelSteps hsteps ?_
  rw [step_of_end hb hl hi, step_of_end (l := l.folded) (by simpa using hb') (by simpa using hl')
    (by simpa using hget (l.pendingAt m.here.index).length)]
  have hc : Core.Renamed R' m.core ⟨values' ++ m'.core.stack, { m'.core.world with heap := g }⟩ :=
    ⟨hs ▸ List.rel_append hvalues (hf.core.stack.imp fun _ _ h => h.mono hR),
      hh, hf.core.world.output, hf.core.world.readings⟩
  have hmoved := (hf.moveTo hb ⟨m.here.label + 1, 0⟩).withCore hR hc
  rw [b.foldedPlace_label, moveTo_withCore, withCore_withCore,
    ← core_moveTo m ⟨m.here.label + 1, 0⟩, withCore_core] at hmoved
  refine .next ⟨R', by simpa [hhere] using hmoved, ?_⟩
  simp [pending, hb]

/-- The step over an instruction: what folding does with it decides what follows. -/
theorem follows_of_instr {stack values : List Value} {i : Instr}
    (hs : m.core.stack = values ++ stack)
    (hf : FoldedTo code R (m.withCore ⟨stack, m.core.world⟩) m') (hb : m.block? code = some b)
    (hl : b.labels[m.here.label]? = some l) (hi : l.code[m.here.index]? = some i)
    (hp : Pending R m.core.world.heap (l.pendingAt m.here.index) values) :
    Follows code host m m' := by
  have hlt := (Array.getElem?_eq_some_iff.1 hi).1
  have hstep : m.step code host = execute code host b i (m.moveTo m.here.next) :=
    step_of_instr hb hl hi
  have hs' : (m.moveTo m.here.next).core.stack = values ++ stack := by rw [core_moveTo, hs]
  have hw := hf.core.world
  obtain ⟨add, hcase, hdone⟩ := Label.fold_cases hi
  generalize hq : l.pendingAt m.here.index = q, hq' : l.pendingAt (m.here.index + 1) = q' at hcase
  rw [hq] at hp
  cases hcase with
  | constant hc =>
    obtain ⟨⟨v, g⟩, hv⟩ := Option.isSome_iff_exists.1 (Instr.isSome_constant? hc m.core.world.heap)
    obtain ⟨hp', hg⟩ := hp.push hf.core.world.heap hv
    refine follows_of_silent (v :: values) { m.core.world with heap := g } hf hb hl hlt hdone
      ?_ ⟨hg, hw.output, hw.readings⟩ (hq' ▸ hp')
    rw [hstep, execute_constant (v := v) (g := g) (by simpa using hv), hs', core_moveTo]
    rfl
  | pop =>
    cases hp with
    | @cons _ v _ values _ _ hp =>
      refine follows_of_silent values m.core.world hf hb hl hlt hdone ?_ hw (hq' ▸ hp)
      rw [hstep, execute_pop hs', core_moveTo]
      rfl
  | @unary c r q op hr =>
    cases values with
    | nil => cases hp
    | cons v values =>
      obtain ⟨x, hx, hp'⟩ := hp.foldUnary hr
      refine follows_of_silent (x :: values) m.core.world hf hb hl hlt hdone ?_ hw
        (hq' ▸ hp')
      rw [hstep, execute_unary_ok hs' (by simpa using hx), core_moveTo]
      rfl
  | @binary c d r q op hr =>
    cases values with
    | nil => cases hp
    | cons v values =>
      cases values with
      | nil => cases hp with | cons _ _ hp => cases hp
      | cons w values =>
        obtain ⟨x, hx, hp'⟩ := hp.foldBinary hr
        refine follows_of_silent (x :: values) m.core.world hf hb hl hlt hdone ?_ hw
          (hq' ▸ hp')
        rw [hstep, execute_binary_ok hs' hx, core_moveTo]
        rfl
  | @stay c q wanted target ht =>
    cases values with
    | nil => cases hp
    | cons v values =>
      have htruthy := hp.truthy ht
      cases hp with
      | cons _ _ hp =>
        refine follows_of_silent values m.core.world hf hb hl hlt hdone ?_ hw (hq' ▸ hp)
        rw [hstep, execute_jumpIf hs', core_moveTo,
          if_neg (by rw [htruthy]; cases wanted <;> decide)]
        rfl
  | @jump c q wanted target ht =>
    cases values with
    | nil => cases hp
    | cons v values =>
      have htruthy := hp.truthy ht
      cases hp with
      | cons _ _ hp => exact follows_of_jump hs hf hb hl hi hdone htruthy hp
  | kept hc => exact follows_of_kept hs hf hb hl hi hq' (hq ▸ hdone) (hq ▸ hp)

/-- **Whatever the program does, the folded program follows.** -/
theorem Ahead.follows (h : Ahead code m m') (host : Host) : Follows code host m m' := by
  obtain ⟨R, values, stack, hs, hp, hf⟩ := h
  obtain ⟨b, hb, hb', hhere⟩ := hf.current
  rw [block?_withCore] at hb
  rw [here_withCore] at hhere
  have hpending : m.pending code = b.pendingAt m.here := by simp [pending, hb]
  rw [hpending] at hp
  cases hl : b.labels[m.here.label]? with
  | some l =>
    rw [Block.pendingAt_of_label hl] at hp
    cases hi : l.code[m.here.index]? with
    | none => exact follows_of_end hs hf hb hl hi hp
    | some i => exact follows_of_instr hs hf hb hl hi hp
  | none =>
    have hnil : b.pendingAt m.here = [] := by simp [Block.pendingAt, hl]
    rw [hnil] at hp
    cases hp
    have hcore : m.core = ⟨stack, m.core.world⟩ := by rw [← List.nil_append stack, ← hs]
    rw [← hcore, withCore_core] at hf
    refine follows_of_levelSteps (.zero m') ?_
    have hl' : b.fold.labels[m'.here.label]? = none := by
      rw [hhere, b.getElem?_fold, Block.foldedPlace, hl]; rfl
    have hempty : m'.frames.isEmpty = m.frames.isEmpty := by
      have hframes := hf.frames
      generalize m.frames = as, m'.frames = as' at hframes
      cases hframes <;> rfl
    simp only [step, hb, hl, hb', hl', hempty]
    split
    · show LevelSteps code (m.execute code host b .exit) (m'.execute code.fold host b.fold .exit)
      exact hf.execute (by rw [hpending, hnil]) hb .exit
    · exact hf.halt fun _ h => by cases h

end LabelMachine

/-- **The folded program simulates the program.** -/
theorem fold_simulates (code : LabelCode) (host : Host) :
    Simulates (LabelMachine.step code host) (LabelMachine.step code.fold host)
      (LabelMachine.Ahead code) (EndsAlike code code.fold) (LabelMachine.instrsAhead code) where
  next h hs := by
    obtain ⟨s, hs', hnext⟩ | ⟨o, o', ho, -⟩ := h.follows host
    · cases hs.symm.trans hs'
      exact hnext
    · cases hs.symm.trans ho
  done h ho := by
    obtain ⟨s, hs, -⟩ | ⟨o, o', ho', hends, halike⟩ := h.follows host
    · cases ho.symm.trans hs
    · cases ho.symm.trans ho'
      exact ⟨o', hends, halike⟩

theorem LabelMachine.ahead_load (code : LabelCode) : Ahead code .load .load := by
  refine Level.ahead ⟨fun _ _ => False, ⟨⟨.nil, Heap.renamed_empty _, rfl, rfl⟩, fun _ => .null, ?_,
    .nil, rfl, nofun, nofun⟩, ?_⟩
  · exact (code.main.foldedPlace_label 0).symm
  · exact code.main.pendingAt_label 0

end Stackscript
