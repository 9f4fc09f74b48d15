import Stackscript.Proofs.Layout

/-!
# Assembly and the stack machine refine label code

The stack machine on assembled bytecode does what the label machine does on label code. Addresses
stand for places, slots for variables, entries of the constant pool for constants, and the steps
that lead from the end of a label to the next one have no counterpart.

* `Executable.Addressable`: the operands of byte instructions reach everything they can name;
* `LabelMachine.RepresentedBy`, the relation between the two machines;
* `LabelMachine.RepresentedBy.execute`, **`assembly_simulates`**;
* `LabelMachine.AgreesWith`, **`LabelCode.assemble_refines`**.
-/

namespace Stackscript

/-- The operands of byte instructions, which are numbers below `UInt32.size`, reach every byte of a
chunk and every constant, global and variable. -/
structure Executable.Addressable (exe : Executable) : Prop where
  main : exe.main.size < UInt32.size
  routines : ∀ r ∈ exe.routines.toList, r.chunk.size < UInt32.size ∧ r.locals ≤ UInt32.size
  constants : exe.constants.size ≤ UInt32.size
  globals : exe.globals.size ≤ UInt32.size

theorem toNat_ofNat_of_lt_size {n bound : Nat} (h : n < bound) (hb : bound ≤ UInt32.size) :
    (UInt32.ofNat n).toNat = n := by
  rw [UInt32.toNat_ofNat', Nat.mod_eq_of_lt (by exact Nat.lt_of_lt_of_le h hb)]

/-! ## Variables in slots -/

theorem map_set_of_nodup {ids : List VarId} (h : ids.Nodup) {k : Nat} {id : VarId}
    (hk : ids[k]? = some id)
    (s : Store) (x : Value) : (ids.map s).set k x = ids.map (s.set id x) := by
  apply List.ext_getElem?
  intro j
  rw [List.getElem?_set, List.getElem?_map, List.getElem?_map, List.length_map]
  obtain ⟨hlt, rfl⟩ := List.getElem?_eq_some_iff.1 hk
  by_cases hj : k = j
  · subst hj
    simp [Store.set, hlt]
  · rw [if_neg hj]
    cases hj' : ids[j]? with
    | none => rfl
    | some id' =>
      have : id' ≠ ids[k] := by
        rintro rfl
        exact hj ((List.getElem?_inj hlt h).1 (hk.trans hj'.symm))
      simp [Store.set, this]

theorem lookup_zip_of_nodup {ids : List VarId} (h : ids.Nodup) {k : Nat} {id : VarId}
    (hk : ids[k]? = some id) (args : List Value) : (ids.zip args).lookup id = args[k]? := by
  induction ids generalizing k args with
  | nil => cases hk
  | cons id' ids ih =>
    rw [List.nodup_cons] at h
    cases args with
    | nil => rfl
    | cons x args =>
      cases k with
      | zero => cases hk; simp
      | succ k =>
        have hk' : ids[k]? = some id := hk
        have hne : (id == id') = false := by
          rw [beq_eq_false_iff_ne]
          rintro rfl
          exact h.1 (List.mem_of_getElem? hk')
        rw [List.zip_cons_cons, List.lookup_cons, hne]
        exact ih h.2 hk' args

/-- The frame of a new call holds what the store of the call holds. -/
theorem getElem?_enter {ids : List VarId} (h : ids.Nodup) {k : Nat} {id : VarId}
    (hk : ids[k]? = some id) (index : Nat) (args : List Value) :
    (Frame.enter index ids.length args).locals[k]? = some (Store.ofArgs ids args id) := by
  obtain ⟨hlt, -⟩ := List.getElem?_eq_some_iff.1 hk
  simp only [Frame.enter, Store.ofArgs, lookup_zip_of_nodup h hk, List.getElem?_toArray]
  by_cases ha : k < args.length
  · rw [List.getElem?_append_left ha, List.getElem?_eq_getElem ha]
    rfl
  · rw [List.getElem?_append_right (by omega), List.getElem?_eq_none (by omega : args.length ≤ k),
      List.getElem?_replicate, if_pos (by omega)]
    rfl

theorem frameVars_nodup (vars : Array Variable) (f : LabelFunction) : (f.frameVars vars).Nodup :=
  nodup_eraseDups _

theorem globalVars_nodup (code : LabelCode) : code.globalVars.Nodup := nodup_eraseDups _

/-! ## The relation between the machines -/

/-- A frame of the stack machine stands for a call of the label machine. -/
def Activation.RepresentedBy (code : LabelCode) (a : Activation) (f : Frame) : Prop :=
  f.routine = a.function ∧ ∃ g, code.functions[a.function]? = some g ∧ g.block.HasPlace a.place ∧
    f.ip = g.block.address a.place ∧
    ∀ (k : Nat) (id : VarId), (g.frameVars code.vars)[k]? = some id →
    f.locals[k]? = some (a.vars id)

namespace LabelMachine

/-- A stack machine stands for a label machine. -/
structure RepresentedBy (code : LabelCode) (m : LabelMachine) (v : Machine) : Prop where
  core : v.core = m.core
  globals : v.globals.toList = code.globalVars.map m.globals
  hasPlace : code.main.HasPlace m.place
  ip : v.ip = code.main.address m.place
  frames : List.Forall₂ (Activation.RepresentedBy code) m.frames v.frames
  charged : v.charged = m.charged

/-- The two runs end in the same way, in machines of which one stands for the other. -/
def EndsAs (code : LabelCode) (o : Halt × LabelMachine) (o' : Halt × Machine) : Prop :=
  o'.1 = o.1 ∧ RepresentedBy code o.2 o'.2

/-- The tables by which the current block has been assembled. -/
def tables (code : LabelCode) (exe : Executable) (m : LabelMachine) : Slots :=
  ⟨exe.constants, code.globalVars.toArray,
    m.frames.head?.bind fun a => code.functions[a.function]?.map fun f =>
    (f.frameVars code.vars).toArray⟩

/-- The number of labels that are still to come in the current block. -/
def labelsAhead (code : LabelCode) (m : LabelMachine) : Nat :=
  ((m.block? code).map (·.labels.size)).getD 0 - m.here.label

end LabelMachine

/-- The steps of the two machines lead to machines of which one stands for the other. -/
abbrev StepsAlike (code : LabelCode) (host : Host) (s : LabelStep) (s' : Step) : Prop :=
  Progress.Related (LabelMachine.RepresentedBy code) (LabelMachine.EndsAs code) s (s'.progress host)

namespace LabelCode.AssembledTo

variable {code : LabelCode} {exe : Executable}

theorem size_routines (h : code.AssembledTo exe) : exe.routines.size = code.functions.size := by
  simpa using h.routines.length_eq.symm

theorem getElem?_routines (h : code.AssembledTo exe) (i : Nat) :
    (code.functions[i]? = none ∧ exe.routines[i]? = none) ∨
      ∃ f r, code.functions[i]? = some f ∧ exe.routines[i]? = some r ∧
        f.AssembledTo code.vars exe.constants code.globalVars.toArray r := by
  by_cases hi : i < code.functions.size
  · have hi' : i < exe.routines.size := h.size_routines ▸ hi
    refine .inr ⟨code.functions[i], exe.routines[i], Array.getElem?_eq_getElem hi,
      Array.getElem?_eq_getElem hi', ?_⟩
    exact h.routines.get (by simpa using hi) (by simpa using hi')
  · have hi' : ¬ i < exe.routines.size := h.size_routines ▸ hi
    exact .inl ⟨Array.getElem?_eq_none (by omega), Array.getElem?_eq_none (by omega)⟩

theorem routine_of_function (h : code.AssembledTo exe) {i : Nat} {f : LabelFunction}
    (hf : code.functions[i]? = some f) :
    ∃ r, exe.routines[i]? = some r ∧
      f.AssembledTo code.vars exe.constants code.globalVars.toArray r := by
  obtain ⟨hn, -⟩ | ⟨f', r, hf', hr, ha⟩ := h.getElem?_routines i
  · rw [hf] at hn; cases hn
  · cases hf.symm.trans hf'
    exact ⟨r, hr, ha⟩

theorem size_globals (h : code.AssembledTo exe) : exe.globals.size = code.globalVars.length := by
  rw [← Array.length_toList, h.globals, List.length_map]

end LabelCode.AssembledTo

/-! ## Instructions -/

namespace LabelMachine.RepresentedBy

variable {code : LabelCode} {exe : Executable} {host : Host} {m : LabelMachine} {v : Machine}

theorem activeNames (h : RepresentedBy code m v) (ha : code.AssembledTo exe) :
    v.activeNames exe = m.activeNames code := by
  unfold Machine.activeNames LabelMachine.activeNames
  refine (map_eq_map_of_forall₂ (h.frames.imp fun a f hf => ?_)).symm
  obtain ⟨hr, g, hg, -⟩ := hf
  obtain ⟨r, hr', har⟩ := ha.routine_of_function hg
  rw [hr, hg, hr', Option.map_some, Option.map_some, har.name]

/-- The block and the chunk that are being run, and where in them. -/
theorem current (h : RepresentedBy code m v) (ha : code.AssembledTo exe) (hd : code.DistinctLabels)
    (hx : exe.Addressable) :
    ∃ b chunk, m.block? code = some b ∧ v.chunk? exe = some chunk ∧ b.labelIds.Nodup ∧
      b.AssembledTo code.vars (m.tables code exe) chunk ∧ chunk.size < UInt32.size ∧
      b.HasPlace m.here ∧ v.currentIp = b.address m.here := by
  obtain ⟨core, globals, p, frames, charged⟩ := m
  obtain ⟨core', globals', ip, frames', charged'⟩ := v
  have hframes := h.frames
  cases hframes with
  | nil =>
    exact ⟨code.main, exe.main, rfl, rfl, hd _ (by simp [LabelCode.blocks]), ha.main, hx.main,
      h.hasPlace, h.ip⟩
  | @cons a f _ _ hf _ =>
    obtain ⟨hr, g, hg, hp, hip, -⟩ := hf
    obtain ⟨r, hr', har⟩ := ha.routine_of_function hg
    refine ⟨g.block, r.chunk, ?_, ?_, hd _ ?_, ?_, (hx.routines r ?_).1, hp, hip⟩
    · simp [block?, hg]
    · simp [Machine.chunk?, hr, hr']
    · simp only [LabelCode.blocks, List.mem_cons, List.mem_map]
      exact .inr ⟨g, Array.mem_toList_iff.2 (Array.mem_of_getElem? hg), rfl⟩
    · simpa [tables, hg] using har.chunk
    · exact Array.mem_toList_iff.2 (Array.mem_of_getElem? hr')

theorem moveTo (h : RepresentedBy code m v) {b : Block} (hb : m.block? code = some b) {p : Place}
    (hp : b.HasPlace p) : RepresentedBy code (m.moveTo p) (v.jump (b.address p)) := by
  obtain ⟨core, globals, q, frames, charged⟩ := m
  obtain ⟨core', globals', ip, frames', charged'⟩ := v
  have hframes := h.frames
  cases hframes with
  | nil =>
    cases hb
    exact ⟨h.core, h.globals, hp, rfl, .nil, h.charged⟩
  | @cons a f _ _ hf hfs =>
    obtain ⟨hr, g, hg, -, -, hv⟩ := hf
    simp only [block?, hg, Option.map_some, Option.some_inj] at hb
    subst hb
    exact ⟨h.core, h.globals, h.hasPlace, h.ip, .cons ⟨hr, g, hg, hp, rfl, hv⟩ hfs, h.charged⟩

theorem withCore (h : RepresentedBy code m v) (core : Core) :
    RepresentedBy code { m with core } { v with core } :=
  ⟨rfl, h.globals, h.hasPlace, h.ip, h.frames, h.charged⟩

theorem onCore (h : RepresentedBy code m v) (effect : Core → Effect) :
    StepsAlike code host (m.onCore effect) (v.onCore effect) := by
  have hc := h.core
  obtain ⟨core, globals, ip, frames, charged⟩ := v
  subst hc
  simp only [LabelMachine.onCore, Machine.onCore]
  cases effect m.core with
  | done core => exact .next (h.withCore core)
  | failed e core => exact .done ⟨rfl, h.withCore core⟩
  | fault f core => exact .done ⟨rfl, h.withCore core⟩

theorem push (h : RepresentedBy code m v) (x : Value) :
    StepsAlike code host (m.push x) (v.pushOrFault (some x)) := by
  have hc := h.core
  obtain ⟨core, globals, ip, frames, charged⟩ := v
  subst hc
  exact .next (h.withCore _)

theorem halt (h : RepresentedBy code m v) (f : Fault) :
    StepsAlike code host (m.halt f) (.fault f v) :=
  .done ⟨rfl, h⟩

/-- A jump leads to the address of the label. -/
theorem jump (h : RepresentedBy code m v) {b : Block} (hb : m.block? code = some b) {l : LabelId}
    {k : Nat} (hk : b.labelIds.idxOf? l = some k) (hsize : codeSize b.laidOut < UInt32.size) :
    StepsAlike code host (m.jump b l) (.next (v.jump (UInt32.ofNat (b.address ⟨k, 0⟩)).toNat)) := by
  obtain ⟨hlt, -⟩ := List.idxOf?_eq_some_iff.1 hk
  have hlt' : k ≤ b.labels.size := by simpa [Block.labelIds] using Nat.le_of_lt hlt
  rw [toNat_ofNat_of_lt_size (Nat.lt_succ_of_le (b.address_le _)) hsize, LabelMachine.jump, hk]
  exact .next (h.moveTo hb (Block.hasPlace_label hlt'))

theorem jumpIf (h : RepresentedBy code m v) {b : Block} (hb : m.block? code = some b) {l : LabelId}
    {k : Nat} (hk : b.labelIds.idxOf? l = some k) (hsize : codeSize b.laidOut < UInt32.size)
    (wanted : Bool) :
    StepsAlike code host (m.jumpIf b wanted l) (v.jumpIf wanted (.ofNat (b.address ⟨k, 0⟩))) := by
  have hc := h.core
  obtain ⟨core, globals, ip, frames, charged⟩ := v
  subst hc
  obtain ⟨⟨stack, world⟩, globals', p, frames', charged'⟩ := m
  cases stack with
  | nil => exact h.halt .stackUnderflow
  | cons x rest =>
    have h' := h.withCore ⟨rest, world⟩
    unfold LabelMachine.jumpIf Machine.jumpIf
    simp only
    split
    · exact h'.jump hb hk hsize
    · exact .next h'

theorem loadGlobal (h : RepresentedBy code m v) {id : VarId} {k : Nat}
    (hk : code.globalVars[k]? = some id) :
    StepsAlike code host (m.push (m.globals id)) (v.pushOrFault v.globals[k]?) := by
  have : v.globals[k]? = some (m.globals id) := by
    rw [← Array.getElem?_toList, h.globals, List.getElem?_map, hk, Option.map_some]
  rw [this]
  exact h.push _

theorem leave (h : RepresentedBy code m v) (ha : code.AssembledTo exe) :
    StepsAlike code host (m.leave code) (v.leave exe) := by
  obtain ⟨core, globals, p, frames, charged⟩ := m
  obtain ⟨core', globals', ip, frames', charged'⟩ := v
  have hframes := h.frames
  cases hframes with
  | nil => exact h.halt .returnAtTop
  | @cons a f _ _ hf hfs =>
    obtain ⟨hr, g, hg, -⟩ := hf
    obtain ⟨r, hr', har⟩ := ha.routine_of_function hg
    simp only [LabelMachine.leave, hg, Machine.leave, hr, hr']
    refine .next ⟨h.core, h.globals, h.hasPlace, h.ip, hfs, ?_⟩
    have hcharged : charged' = charged := h.charged
    rw [hcharged, har.locals]

theorem enter (h : RepresentedBy code m v) (ha : code.AssembledTo exe) (index count : Nat) :
    StepsAlike code host (m.enter code host index count) (v.enter exe host index count) := by
  have hc := h.core
  have hcharged := h.charged
  obtain ⟨core, globals, ip, frames, charged⟩ := v
  subst hc hcharged
  obtain ⟨⟨stack, world⟩, globals', p, frames', charged'⟩ := m
  unfold LabelMachine.enter Machine.enter
  simp only
  obtain ⟨hf, hr⟩ | ⟨f, r, hf, hr, har⟩ := ha.getElem?_routines index
  · rw [hf, hr]
    exact h.halt .outOfRange
  · rw [hf, hr]
    simp only [har.arity, har.locals, har.name]
    split
    · exact .done ⟨rfl, h⟩
    · split
      · exact h.halt .frameSize
      · split
        · exact .done ⟨rfl, h⟩
        · cases splitTop count stack [] with
          | none => exact h.halt .stackUnderflow
          | some args =>
            obtain ⟨args, rest⟩ := args
            simp only
            split
            · refine .next ⟨rfl, h.globals, h.hasPlace, h.ip, .cons ?_ h.frames, rfl⟩
              refine ⟨rfl, f, hf, f.block.hasPlace_start, f.block.address_start.symm, ?_⟩
              exact fun k id hk => getElem?_enter (frameVars_nodup code.vars f) hk index args
            · exact (h.withCore ⟨rest, world⟩).halt .frameSize

theorem call (h : RepresentedBy code m v) (ha : code.AssembledTo exe) (count : Nat) :
    StepsAlike code host (m.call code host count) (v.call exe host count) := by
  have hc := h.core
  obtain ⟨core, globals, ip, frames, charged⟩ := v
  subst hc
  obtain ⟨⟨stack, world⟩, globals', p, frames', charged'⟩ := m
  cases stack with
  | nil => exact h.halt .stackUnderflow
  | cons callee rest =>
    have h' := h.withCore ⟨rest, world⟩
    cases callee with
    | native f => exact h'.onCore (Core.callNative host f count)
    | function i => exact h'.enter ha i count
    | _ => exact .done ⟨rfl, h'⟩

theorem storeGlobal (h : RepresentedBy code m v) {id : VarId} {x : Variable} {k : Nat}
    (hx : code.vars[id]? = some x) (hg : x.storage.isGlobal = true)
    (hk : code.globalVars[k]? = some id) :
    StepsAlike code host (m.storeVar code.vars id) (v.storeGlobal k) := by
  have hc := h.core
  obtain ⟨core, globals, ip, frames, charged⟩ := v
  subst hc
  obtain ⟨⟨stack, world⟩, globals', p, frames', charged'⟩ := m
  have hn : x.storage ≠ .native := fun e => by rw [e] at hg; cases hg
  have hglobals : globals.toList = code.globalVars.map globals' := h.globals
  have hlt : k < globals.size := by
    obtain ⟨hlt, -⟩ := List.getElem?_eq_some_iff.1 hk
    rw [← Array.length_toList, hglobals, List.length_map]
    exact hlt
  cases stack with
  | nil => exact h.halt .stackUnderflow
  | cons y rest =>
    simp only [LabelMachine.storeVar, hx, if_neg hn, hg, if_true, Machine.storeGlobal, hlt]
    refine .next ⟨rfl, ?_, h.hasPlace, h.ip, h.frames, h.charged⟩
    show (globals.setIfInBounds k y).toList = code.globalVars.map (globals'.set id y)
    rw [Array.toList_setIfInBounds, hglobals, map_set_of_nodup (globalVars_nodup code) hk]

/-- What stands in a slot of the innermost call. -/
theorem frameVar (h : RepresentedBy code m v) {id : VarId} {k : Nat}
    (hk : (m.tables code exe).locals.bind (·[k]?) = some id) :
    ∃ a as f fs g, m.frames = a :: as ∧ v.frames = f :: fs ∧ a.RepresentedBy code f ∧
      List.Forall₂ (Activation.RepresentedBy code) as fs ∧ code.functions[a.function]? = some g ∧
      (g.frameVars code.vars)[k]? = some id ∧ f.locals[k]? = some (a.vars id) := by
  obtain ⟨core, globals, p, frames, charged⟩ := m
  obtain ⟨core', globals', ip, frames', charged'⟩ := v
  have hframes := h.frames
  cases hframes with
  | nil => cases hk
  | @cons a f as fs hf hfs =>
    obtain ⟨hr, g, hg, hp, hip, hv⟩ := hf
    have hk' : (g.frameVars code.vars)[k]? = some id := by simpa [tables, hg] using hk
    exact ⟨a, as, f, fs, g, rfl, rfl, ⟨hr, g, hg, hp, hip, hv⟩, hfs, hg, hk', hv k id hk'⟩

theorem loadFrameVar (h : RepresentedBy code m v) {id : VarId} {x : Variable} {k : Nat}
    (hx : code.vars[id]? = some x) (hn : x.storage ≠ .native) (hg : x.storage.isGlobal = false)
    (hk : (m.tables code exe).locals.bind (·[k]?) = some id) :
    StepsAlike code host (m.loadVar code.vars id) (v.loadFrameVar k) := by
  obtain ⟨a, as, f, fs, g, hm, hv, -, -, -, -, hslot⟩ := h.frameVar hk
  simp only [LabelMachine.loadVar, hx, if_neg hn, hg, Bool.false_eq_true, if_false, hm,
    Machine.loadFrameVar, hv, hslot]
  exact h.push _

theorem storeFrameVar (h : RepresentedBy code m v) {id : VarId} {x : Variable} {k : Nat}
    (hx : code.vars[id]? = some x) (hn : x.storage ≠ .native) (hg : x.storage.isGlobal = false)
    (hk : (m.tables code exe).locals.bind (·[k]?) = some id) :
    StepsAlike code host (m.storeVar code.vars id) (v.storeFrameVar k) := by
  obtain ⟨a, as, f, fs, g, hm, hv, hf, hfs, hgf, hid, hslot⟩ := h.frameVar hk
  have hc := h.core
  obtain ⟨core, globals, ip, frames, charged⟩ := v
  subst hc hv
  obtain ⟨⟨stack, world⟩, globals', p, frames', charged'⟩ := m
  subst hm
  cases stack with
  | nil => exact h.halt .stackUnderflow
  | cons y rest =>
    have hlt := (Array.getElem?_eq_some_iff.1 hslot).1
    simp only [LabelMachine.storeVar, hx, if_neg hn, hg, Bool.false_eq_true, if_false,
      Machine.storeFrameVar, hlt, if_true]
    obtain ⟨hr, g', hg', hp, hip, hvars⟩ := hf
    cases hgf.symm.trans hg'
    refine .next ⟨rfl, h.globals, h.hasPlace, h.ip, .cons ⟨hr, g, hgf, hp, hip, ?_⟩ hfs, h.charged⟩
    intro j id' hj
    simp only [Store.set, Array.getElem?_setIfInBounds]
    by_cases hkj : k = j
    · subst hkj
      cases hid.symm.trans hj
      simp [hlt]
    · have : id' ≠ id := by
        rintro rfl
        obtain ⟨hlt', -⟩ := List.getElem?_eq_some_iff.1 hid
        exact hkj ((List.getElem?_inj hlt' (frameVars_nodup code.vars g)).1 (hid.trans hj.symm))
      simp only [if_neg hkj, if_neg this, hvars j id' hj]

theorem slot_lt (h : RepresentedBy code m v) (ha : code.AssembledTo exe) (hx : exe.Addressable)
    {id : VarId} {k : Nat} (hk : (m.tables code exe).locals.bind (·[k]?) = some id) :
    (UInt32.ofNat k).toNat = k := by
  obtain ⟨a, as, f, fs, g, -, -, -, -, hg, hid, -⟩ := h.frameVar hk
  obtain ⟨r, hr, har⟩ := ha.routine_of_function hg
  have hlocals := (hx.routines r (Array.mem_toList_iff.2 (Array.mem_of_getElem? hr))).2
  rw [har.locals] at hlocals
  exact toNat_ofNat_of_lt_size (List.getElem?_eq_some_iff.1 hid).1 hlocals

/-- An instruction that needs neither a table nor an address is carried out alike. -/
theorem executePlain (h : RepresentedBy code m v) (ha : code.AssembledTo exe) {b : Block}
    {i : Instr} {op : Op}
    (hi : i.plain? = some op) :
    StepsAlike code host (m.execute code host b i) (v.execute exe host op) := by
  cases i with
  | pop => cases hi; exact h.onCore Core.pop
  | pushTrue => cases hi; exact h.push (.boolean true)
  | pushFalse => cases hi; exact h.push (.boolean false)
  | pushNull => cases hi; exact h.push .null
  | ret => cases hi; exact h.leave ha
  | exit => cases hi; exact .done ⟨by rw [h.core], h⟩
  | binary op => cases hi; exact h.onCore (Core.binary op)
  | unary op => cases hi; exact h.onCore (Core.unary op)
  | number n => cases hi; exact h.push (.number n)
  | makeArray count => cases hi; exact h.onCore (Core.makeArray count.toNat)
  | call count => cases hi; exact h.call ha count.toNat
  | makeFunction =>
    cases hi
    rw [LabelMachine.execute, Machine.execute, ha.size_routines]
    exact h.onCore (Core.makeFunction code.functions.size)
  | getIndex => cases hi; exact h.onCore Core.getIndex
  | setIndex => cases hi; exact h.onCore Core.setIndex
  | goto | popJumpIfZero | popJumpIfNonzero | string | functionRef | load | store => cases hi

/-- **Every instruction does what its byte instruction does.** -/
theorem execute (h : RepresentedBy code m v) (ha : code.AssembledTo exe) (hx : exe.Addressable)
    {b : Block}
    (hb : m.block? code = some b) (hsize : codeSize b.laidOut < UInt32.size) {i : Instr} {op : Op}
    (hi : i.AssembledAs code.vars (m.tables code exe) b op) :
    StepsAlike code host (m.execute code host b i) (v.execute exe host op) := by
  cases hi with
  | goto hk => exact h.jump hb hk hsize
  | popJumpIfZero hk => exact h.jumpIf hb hk hsize false
  | popJumpIfNonzero hk => exact h.jumpIf hb hk hsize true
  | plain hi =>
    cases hi with
    | plain hi => exact h.executePlain ha hi
    | string hk | functionRef hk =>
      have hlt := (Array.getElem?_eq_some_iff.1 hk).1
      simp only [Machine.execute, toNat_ofNat_of_lt_size hlt hx.constants, LabelMachine.execute]
      rw [show exe.constants[_]? = some _ from hk]
      exact h.push _
    | @loadNative id x slot h₁ h₂ h₃ =>
      obtain ⟨entry, hentry, -⟩ := NativeEntry.slot?_spec h₃
      have hlt := (Array.getElem?_eq_some_iff.1 hentry).1
      simp only [LabelMachine.execute, LabelMachine.loadVar, h₁, h₂, h₃, if_true, Option.bind_some,
        hentry, Machine.execute, toNat_ofNat_of_lt_size hlt (by decide), Option.map_some]
      exact h.push _
    | @loadGlobal id x k h₁ h₂ h₃ =>
      have hn : x.storage ≠ .native := fun e => by rw [e] at h₂; cases h₂
      have hk : code.globalVars[k]? = some id := by simpa [tables] using h₃
      have hlt := (List.getElem?_eq_some_iff.1 hk).1
      simp only [LabelMachine.execute, LabelMachine.loadVar, h₁, if_neg hn, h₂, if_true,
        Machine.execute, toNat_ofNat_of_lt_size hlt (ha.size_globals ▸ hx.globals)]
      exact h.loadGlobal hk
    | @storeGlobal id x k h₁ h₂ h₃ =>
      have hk : code.globalVars[k]? = some id := by simpa [tables] using h₃
      have hlt := (List.getElem?_eq_some_iff.1 hk).1
      simp only [LabelMachine.execute, Machine.execute,
        toNat_ofNat_of_lt_size hlt (ha.size_globals ▸ hx.globals)]
      exact h.storeGlobal h₁ h₂ hk
    | loadFrameVar h₁ h₂ h₃ h₄ =>
      simp only [LabelMachine.execute, Machine.execute, h.slot_lt ha hx h₄]
      exact h.loadFrameVar h₁ h₂ h₃ h₄
    | storeFrameVar h₁ h₂ h₃ h₄ =>
      simp only [LabelMachine.execute, Machine.execute, h.slot_lt ha hx h₄]
      exact h.storeFrameVar h₁ h₂ h₃ h₄

end LabelMachine.RepresentedBy

/-! ## Steps and runs -/

namespace LabelMachine

@[simp]
theorem tables_moveTo (code : LabelCode) (exe : Executable) (m : LabelMachine) (p : Place) :
    (m.moveTo p).tables code exe = m.tables code exe := by
  obtain ⟨core, globals, q, frames, charged⟩ := m
  cases frames <;> rfl

/-- At the end of a label, or at a last jump to the next one, a step leads to the next label. -/
theorem step_to_next_label {code : LabelCode} {host : Host} {m : LabelMachine} {b : Block}
    {l : Label}
    (hb : m.block? code = some b) (hd : b.labelIds.Nodup) (hl : b.labels[m.here.label]? = some l)
    (hi : l.code[m.here.index]? = none ∨ ∃ target, l.code[m.here.index]? = some (.goto target) ∧
      b.labelIds[m.here.label + 1]? = some target) :
    m.step code host = .next (m.moveTo ⟨m.here.label + 1, 0⟩) := by
  simp only [step, hb, hl]
  obtain hi | ⟨target, hi, ht⟩ := hi
  · rw [hi]
  · have hidx := idxOf?_of_getElem? hd ht
    rw [hi]
    simp only [execute, jump, hidx, moveTo_moveTo]

end LabelMachine

theorem Machine.jump_currentIp (v : Machine) : v.jump v.currentIp = v := by
  obtain ⟨core, globals, ip, frames, charged⟩ := v
  cases frames <;> rfl

namespace LabelMachine.RepresentedBy

variable {code : LabelCode} {exe : Executable} {host : Host} {m : LabelMachine} {v : Machine}

theorem isEmpty_frames (h : RepresentedBy code m v) : v.frames.isEmpty = m.frames.isEmpty := by
  have hframes := h.frames
  generalize m.frames = as, v.frames = fs at hframes
  cases hframes <;> rfl

/-- **One step**: both machines make the same step, or the label machine goes on to the next
label. -/
theorem step (h : RepresentedBy code m v) (ha : code.AssembledTo exe) (hd : code.DistinctLabels)
    (hx : exe.Addressable) (host : Host) :
    StepsAlike code host (m.step code host) (v.step exe host) ∨
      ∃ m', m.step code host = .next m' ∧ RepresentedBy code m' v ∧
        m'.labelsAhead code < m.labelsAhead code := by
  obtain ⟨b, chunk, hb, hchunk, hnodup, hasm, hsize, hp, hip⟩ := h.current ha hd hx
  cases hl : b.labels[m.here.label]? with
  | none =>
    left
    have hsame : chunk.size = v.currentIp := by
      rw [hip, b.address_of_no_label hp hl, hasm.size_eq]
    have hend : chunk.size ≤ v.currentIp := Nat.le_of_eq hsame
    simp only [LabelMachine.step, hb, hl, Machine.step, hchunk, if_pos hend, h.isEmpty_frames]
    split
    · exact .done ⟨by rw [h.core], h⟩
    · exact h.halt .ranPastEnd
  | some l =>
    obtain ⟨i, hi, hlaid, hnext⟩ | ⟨hi, haddr, hnext⟩ := b.place_cases hp hl
    · left
      obtain ⟨op, hop, hdecode, hlt⟩ := hasm.decode hlaid
      have haddr : v.currentIp + op.size = b.address m.here.next := by
        rw [hip, hop.size, Block.address_next hlaid]
      simp only [LabelMachine.step, hb, hl, hi, Machine.step, hchunk, hip ▸ hdecode,
        if_neg (Nat.not_le.2 (hip ▸ hlt)), haddr]
      exact (h.moveTo hb hnext).execute ha hx (by simpa using hb)
        (hasm.size_eq ▸ hsize) (by simpa using hop)
    · right
      have hlt := (Array.getElem?_eq_some_iff.1 hl).1
      refine ⟨_, step_to_next_label hb hnodup hl hi, ?_, ?_⟩
      · have := h.moveTo hb hnext
        rwa [haddr, ← hip, Machine.jump_currentIp] at this
      · simp only [labelsAhead, block?_moveTo, hb, here_moveTo, Option.map_some, Option.getD_some]
        omega

end LabelMachine.RepresentedBy

theorem LabelMachine.representedBy_load {code : LabelCode} {exe : Executable}
    (ha : code.AssembledTo exe) : RepresentedBy code .load (Machine.load exe .empty) where
  core := rfl
  globals := by
    simp only [Machine.load, Array.toList_replicate, ha.size_globals]
    exact List.map_const.symm
  hasPlace := code.main.hasPlace_start
  ip := code.main.address_start.symm
  frames := .nil
  charged := rfl

/-- **The stack machine on assembled code simulates the label machine.** -/
theorem assembly_simulates {code : LabelCode} {exe : Executable} (ha : code.AssembledTo exe)
    (hd : code.DistinctLabels) (hx : exe.Addressable) (host : Host) :
    Simulates (LabelMachine.step code host) (Machine.advance exe host)
      (LabelMachine.RepresentedBy code)
      (LabelMachine.EndsAs code) (LabelMachine.labelsAhead code) where
  next {m m' v} h hm := by
    rcases h.step ha hd hx host with hs | ⟨m₁, hm₁, h', hlt⟩
    · obtain ⟨v', hv, h'⟩ := (hm ▸ hs).of_next
      exact .inl ⟨0, v', .one hv, h'⟩
    · cases hm.symm.trans hm₁
      exact .inr ⟨h', hlt⟩
  done {m v o} h hm := by
    rcases h.step ha hd hx host with hs | ⟨m₁, hm₁, -⟩
    · obtain ⟨o', hv, h'⟩ := (hm ▸ hs).of_done
      exact ⟨o', .of_done hv, h'⟩
    · cases hm.symm.trans hm₁

/-- The report of a failure of a label machine. -/
def LabelMachine.runtimeError (code : LabelCode) (m : LabelMachine) (e : Failure) : RuntimeError :=
  .ofFrames (e.message m.core.world.heap) (m.activeNames code)

/-- What can be seen of two machines at the end of a run is the same: the operands, arrays and
output, the active calls and what they are charged, the reports of failures, and every global, which
stands in the slot of its variable. -/
structure LabelMachine.AgreesWith (code : LabelCode) (exe : Executable) (m : LabelMachine)
    (v : Machine) : Prop where
  core : v.core = m.core
  activeNames : v.activeNames exe = m.activeNames code
  charged : v.charged = m.charged
  report : ∀ e, v.runtimeError exe e = m.runtimeError code e
  globals : v.globals.toList = code.globalVars.map m.globals

theorem LabelMachine.RepresentedBy.agreesWith {code : LabelCode} {exe : Executable}
    {m : LabelMachine}
    {v : Machine} (h : RepresentedBy code m v) (ha : code.AssembledTo exe) :
    m.AgreesWith code exe v where
  core := h.core
  activeNames := h.activeNames ha
  charged := h.charged
  report e := by rw [Machine.runtimeError, LabelMachine.runtimeError, h.core, h.activeNames ha]
  globals := h.globals

/-- A run of the label machine that ends is a run of the stack machine. -/
theorem LabelCode.AssembledTo.ends {code : LabelCode} {exe : Executable} (ha : code.AssembledTo exe)
    (hd : code.DistinctLabels) (hx : exe.Addressable) {host : Host} {halt : Halt} {m : LabelMachine}
    (h : code.Ends host halt m) : ∃ v, exe.Ends host halt v ∧ m.RepresentedBy code v := by
  obtain ⟨⟨halt', v⟩, hv, rfl, hr⟩ :=
    (assembly_simulates ha hd hx host).ends (LabelMachine.representedBy_load ha) h
  exact ⟨v, Executable.ends_iff.2 hv, hr⟩

/-- A run of the stack machine that ends is a run of the label machine. -/
theorem LabelCode.AssembledTo.reflects {code : LabelCode} {exe : Executable}
    (ha : code.AssembledTo exe)
    (hd : code.DistinctLabels) (hx : exe.Addressable) {host : Host} {halt : Halt} {v : Machine}
    (h : exe.Ends host halt v) : ∃ m, code.Ends host halt m ∧ m.RepresentedBy code v := by
  obtain ⟨⟨halt', m⟩, hm, rfl, hr⟩ :=
    (assembly_simulates ha hd hx host).reflects (LabelMachine.representedBy_load ha)
      (Executable.ends_iff.1 h)
  exact ⟨m, hm, hr⟩

/-- **Assembled programs run as their label code does**: each run ends exactly if the other does,
then in the same way, and in machines that agree. -/
theorem LabelCode.assemble_refines {code : LabelCode} {order : ByteOrder} {exe : Executable}
    (h : code.assemble order = .ok exe) (hd : code.DistinctLabels) (hx : exe.Addressable)
    (host : Host) (halt : Halt) :
    (∀ m, code.Ends host halt m → ∃ v, exe.Ends host halt v ∧ m.AgreesWith code exe v) ∧
      ∀ v, exe.Ends host halt v → ∃ m, code.Ends host halt m ∧ m.AgreesWith code exe v := by
  have ha := LabelCode.assemble_spec h hd
  refine ⟨fun m hm => ?_, fun v hv => ?_⟩
  · obtain ⟨v, hv, hr⟩ := ha.ends hd hx hm
    exact ⟨v, hv, hr.agreesWith ha⟩
  · obtain ⟨m, hm, hr⟩ := ha.reflects hd hx hv
    exact ⟨m, hm, hr.agreesWith ha⟩

/-- A program whose top level calls a function and keeps the result, with a jump that is left
out. -/
def callOnce : LabelCode where
  main := ⟨#[⟨0, #[.pushTrue, .functionRef 0, .makeFunction, .call 1, .store 0, .load 0,
    .popJumpIfZero 1, .goto 1]⟩, ⟨1, #[.string "done", .exit]⟩], 2⟩
  functions := #[⟨"same", [1], ⟨#[⟨0, #[.load 1, .ret]⟩], 1⟩⟩]
  vars := #[⟨"x", .globalMutable, 0, none⟩, ⟨"y", .functionMutable, 1, some 0⟩]

/-- Its executable. -/
def callOnceAssembled : Executable where
  main := ⟨.big, #[6, 10, 0, 0, 0, 0, 16, 14, 1, 18, 0, 0, 0, 0, 17, 0, 0, 0, 0, 2, 0, 0, 0, 24, 10,
    0, 0, 0, 1, 22]⟩
  routines := #[⟨"same", ⟨.big, #[19, 0, 0, 0, 0, 15]⟩, 1, 1⟩]
  constants := #[.function 0, .string "done"]
  globals := #["x"]

theorem assemble_refines_callOnce :
    callOnce.assemble .big = .ok callOnceAssembled ∧ callOnce.DistinctLabels ∧
      callOnceAssembled.Addressable ∧ ∃ v m, v.globals = #[.boolean true] ∧
        callOnceAssembled.Ends ⟨fun _ => .zero, .accepting, 1024⟩ .finished v ∧
        callOnce.Ends ⟨fun _ => .zero, .accepting, 1024⟩ .finished m ∧
        m.AgreesWith callOnce callOnceAssembled v := by
  have hasm : callOnce.assemble .big = .ok callOnceAssembled := by decide +kernel
  have hd : callOnce.DistinctLabels := by
    simp [LabelCode.DistinctLabels, LabelCode.blocks, callOnce, Block.labelIds]
  have hx : callOnceAssembled.Addressable :=
    ⟨by decide, by simp [callOnceAssembled, Chunk.size, UInt32.size], by decide, by decide⟩
  have hv : callOnceAssembled.Ends ⟨fun _ => .zero, .accepting, 1024⟩ .finished
      ⟨⟨[.string "done"], .fresh⟩, #[.boolean true], 30, [], 0⟩ := ⟨20, by decide +kernel⟩
  obtain ⟨m, hm, hagree⟩ := (LabelCode.assemble_refines hasm hd hx _ _).2 _ hv
  exact ⟨hasm, hd, hx, _, m, rfl, hv, hm, hagree⟩

end Stackscript
