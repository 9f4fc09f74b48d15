import Stackscript.Proofs.OperandRanges
import Stackscript.Proofs.StackDiscipline

/-!
# Faults of running programs

A machine that is aligned, has room for all its variables and knows all functions among its values
meets no fault but rare ones: a write whose index shows the array that is written to, a frame for
which the bytes cannot be counted, and a constant that should be a function and is none. All that a
step leads to is such a machine again.

* `Machine.Known`, `Machine.Shaped`, `Machine.Rare`;
* `Step.Keeps`, with **`Machine.execute_keeps`**;
* `Executable.Regular`, `Machine.Sound`, with `Machine.sound_load`, **`Machine.Sound.step`**,
  **`Machine.Sound.rare`**.
-/

namespace Stackscript

/-- The natives are no functions of the program. -/
theorem NativeEntry.known_value {count : Nat} {entry : NativeEntry}
    (h : entry ∈ NativeEntry.table.toList) : entry.value.Known count := by
  have hall : ∀ e ∈ NativeEntry.table.toList, e.value.Known count := by
    simp [NativeEntry.table, NativeEntry.ofNative, Value.Known]
  exact hall entry h

/-- All functions among the values of a machine are known. -/
structure Machine.Known (count : Nat) (v : Machine) : Prop where
  core : v.core.Known count
  globals : ∀ x ∈ v.globals.toList, x.Known count
  frames : ∀ f ∈ v.frames, ∀ x ∈ f.locals.toList, x.Known count

/-- There is room for the variables of the program and for those of every active call. -/
structure Machine.Shaped (exe : Executable) (v : Machine) : Prop where
  globals : v.globals.size = exe.globals.size
  frames : ∀ f ∈ v.frames, ∃ r, exe.routines[f.routine]? = some r ∧ r.locals ≤ f.locals.size

/-- The faults that can be met. -/
inductive Machine.Rare (exe : Executable) (v : Machine) : Fault → Prop where
  | core {f : Fault} : v.core.Rare f → Rare exe v f
  | frameSize {r : Routine} : r ∈ exe.routines.toList →
      byteLimit ≤ v.charged + Frame.cost r.locals ∨
      Frame.fits r.locals = false → Rare exe v .frameSize

/-- A step leaves only functions that are known, or ends the run, but for a rare fault. -/
def Step.Keeps (exe : Executable) (v : Machine) : Step → Prop
  | .next v' => v'.Known exe.routines.size
  | .exit _ | .failed _ _ => True
  | .fault f _ => v.Rare exe f

namespace Machine

variable {exe : Executable} {host : Host} {v v' : Machine} {count : Nat}

theorem Known.jump (h : v.Known count) (address : Nat) : (v.jump address).Known count := by
  obtain ⟨core, globals, ip, _ | ⟨f, frames⟩, charged⟩ := v
  · exact ⟨h.core, h.globals, h.frames⟩
  · exact ⟨h.core, h.globals, List.forall_mem_cons.2 (List.forall_mem_cons.1 h.frames)⟩

theorem Shaped.jump (h : v.Shaped exe) (address : Nat) : (v.jump address).Shaped exe := by
  obtain ⟨core, globals, ip, _ | ⟨f, frames⟩, charged⟩ := v
  · exact ⟨h.globals, h.frames⟩
  · exact ⟨h.globals, List.forall_mem_cons.2 (List.forall_mem_cons.1 h.frames)⟩

theorem Rare.of_jump {f : Fault} {address : Nat} (h : (v.jump address).Rare exe f) :
    v.Rare exe f := by
  cases h with
  | core h => rw [core_jump] at h; exact .core h
  | frameSize hr h => rw [charged_jump] at h; exact .frameSize hr h

/-! ## Instructions -/

theorem Known.onCore (h : v.Known exe.routines.size) {effect : Core → Effect}
    (he : (effect v.core).Keeps exe.routines.size v.core) : (v.onCore effect).Keeps exe v := by
  obtain ⟨core, globals, ip, frames, charged⟩ := v
  simp only [Machine.onCore]
  cases hc : effect core with
  | done c => rw [hc] at he; exact ⟨he, h.globals, h.frames⟩
  | failed e c => trivial
  | fault f c => rw [hc] at he; exact .core he

theorem Known.pushOrFault (h : v.Known exe.routines.size) {x : Option Value}
    (hx : ∃ y, x = some y ∧ y.Known exe.routines.size) : (v.pushOrFault x).Keeps exe v := by
  obtain ⟨y, rfl, hy⟩ := hx
  exact ⟨h.core.push hy, h.globals, h.frames⟩

theorem Known.jumpIf (h : v.Known exe.routines.size) (wanted : Bool) (target : UInt32)
    (hroom : 1 ≤ v.core.stack.length) : (v.jumpIf wanted target).Keeps exe v := by
  obtain ⟨⟨_ | ⟨x, rest⟩, world⟩, globals, ip, frames, charged⟩ := v
  · cases hroom
  · have hpopped : Known exe.routines.size ⟨⟨rest, world⟩, globals, ip, frames, charged⟩ :=
      ⟨⟨(List.forall_mem_cons.1 h.core.stack).2, h.core.heap⟩, h.globals, h.frames⟩
    simp only [Machine.jumpIf]
    split
    · exact hpopped.jump target.toNat
    · exact hpopped

theorem known_of_mem_setIfInBounds {xs : Array Value} {slot : Nat} {x : Value} (hx : x.Known count)
    (hxs : ∀ y ∈ xs.toList, y.Known count) :
    ∀ y ∈ (xs.setIfInBounds slot x).toList, y.Known count := by
  intro y hy
  rw [Array.toList_setIfInBounds] at hy
  rcases List.mem_or_eq_of_mem_set hy with hy | rfl
  · exact hxs y hy
  · exact hx

theorem Known.storeGlobal (h : v.Known exe.routines.size) {slot : Nat}
    (hroom : 1 ≤ v.core.stack.length)
    (hslot : slot < v.globals.size) : (v.storeGlobal slot).Keeps exe v := by
  obtain ⟨⟨_ | ⟨x, rest⟩, world⟩, globals, ip, frames, charged⟩ := v
  · cases hroom
  · obtain ⟨hx, hrest⟩ := List.forall_mem_cons.1 h.core.stack
    simp only [Machine.storeGlobal, if_pos hslot]
    exact ⟨⟨hrest, h.core.heap⟩, known_of_mem_setIfInBounds hx h.globals, h.frames⟩

theorem Known.storeFrameVar (h : v.Known exe.routines.size) {slot : Nat}
    (hroom : 1 ≤ v.core.stack.length)
    {f : Frame} {frames : List Frame} (hframes : v.frames = f :: frames)
    (hslot : slot < f.locals.size) : (v.storeFrameVar slot).Keeps exe v := by
  obtain ⟨⟨_ | ⟨x, rest⟩, world⟩, globals, ip, frames', charged⟩ := v
  · cases hroom
  · cases hframes
    obtain ⟨hx, hrest⟩ := List.forall_mem_cons.1 h.core.stack
    obtain ⟨hf, hframes⟩ := List.forall_mem_cons.1 h.frames
    simp only [Machine.storeFrameVar, if_pos hslot]
    exact ⟨⟨hrest, h.core.heap⟩, h.globals,
      List.forall_mem_cons.2 ⟨known_of_mem_setIfInBounds hx hf, hframes⟩⟩

theorem Known.enter (h : v.Known exe.routines.size) {index count : Nat}
    (hindex : index < exe.routines.size)
    (hroom : count ≤ v.core.stack.length) {w : Machine} (hw : w.charged = v.charged) :
    (v.enter exe host index count).Keeps exe w := by
  obtain ⟨args, rest, hs⟩ := Core.exists_splitTop hroom []
  obtain ⟨hargs, hrest⟩ := h.core.split hs
  obtain ⟨⟨stack, world⟩, globals, ip, frames, charged⟩ := v
  have hr := Array.getElem?_eq_getElem hindex
  have hmem := Array.getElem_mem_toList hindex
  simp only [Machine.enter, hr, hs]
  split
  case isTrue => trivial
  case isFalse =>
    split
    case isTrue hlimit => exact .frameSize hmem (.inl (hw ▸ hlimit))
    case isFalse =>
      split
      case isTrue => trivial
      case isFalse =>
        split
        case isFalse hfits => exact .frameSize hmem (.inr (by simpa using hfits))
        case isTrue =>
          refine ⟨⟨hrest, h.core.heap⟩, h.globals,
            List.forall_mem_cons.2 ⟨fun x hx => ?_, h.frames⟩⟩
          rcases List.mem_append.1 hx with hx | hx
          · exact hargs x hx
          · cases List.eq_of_mem_replicate hx
            trivial

theorem Known.call (h : v.Known exe.routines.size) {count : Nat}
    (hroom : count + 1 ≤ v.core.stack.length) : (v.call exe host count).Keeps exe v := by
  obtain ⟨⟨_ | ⟨callee, rest⟩, world⟩, globals, ip, frames, charged⟩ := v
  · cases hroom
  · obtain ⟨hcallee, hrest⟩ := List.forall_mem_cons.1 h.core.stack
    have hroom' : count ≤ rest.length := Nat.le_of_succ_le_succ hroom
    have hpopped : Known exe.routines.size ⟨⟨rest, world⟩, globals, ip, frames, charged⟩ :=
      ⟨⟨hrest, h.core.heap⟩, h.globals, h.frames⟩
    cases callee with
    | native f =>
      have hkeeps := hpopped.core.callNative host f hroom' ⟨.native f :: rest, world⟩
      simp only [Machine.call]
      cases hc : Core.callNative host f count ⟨rest, world⟩ with
      | done c => rw [hc] at hkeeps; exact ⟨hkeeps, h.globals, h.frames⟩
      | failed e c => trivial
      | fault f c => rw [hc] at hkeeps; exact .core hkeeps
    | function index => exact hpopped.enter hcallee hroom' rfl
    | _ => trivial

theorem Known.leave (h : v.Known exe.routines.size) (hshaped : v.Shaped exe)
    (hframes : v.frames ≠ []) : (v.leave exe).Keeps exe v := by
  obtain ⟨core, globals, ip, _ | ⟨f, frames⟩, charged⟩ := v
  · exact absurd rfl hframes
  · obtain ⟨r, hr, -⟩ := hshaped.frames f (by simp)
    simp only [Machine.leave, hr]
    exact ⟨h.core, h.globals, (List.forall_mem_cons.1 h.frames).2⟩

/-- The innermost call of a machine in a routine has room for the variables of the routine. -/
theorem Shaped.running (h : v.Shaped exe) {locals : Nat}
    (hlocals : exe.localsOf v.running = some locals) :
    ∃ f frames, v.frames = f :: frames ∧ locals ≤ f.locals.size := by
  obtain ⟨core, globals, ip, _ | ⟨f, frames⟩, charged⟩ := v
  · cases hlocals
  · obtain ⟨r, hr, hle⟩ := h.frames f (by simp)
    refine ⟨f, frames, rfl, ?_⟩
    have hlocals : exe.routines[f.routine]?.map (·.locals) = some locals := hlocals
    rw [hr] at hlocals
    cases hlocals
    exact hle

/-- **An instruction that finds its operands and what it names** meets no fault but a rare one. -/
theorem execute_keeps {op : Op} (h : v.Known exe.routines.size) (hshaped : v.Shaped exe)
    (hconstants : ∀ x ∈ exe.constants.toList, x.Known exe.routines.size)
    (hroom : op.takes ≤ v.core.stack.length)
    (hrange : op.InRange exe (exe.localsOf v.running)) (hret : op = .ret → v.frames ≠ []) :
    (v.execute exe host op).Keeps exe v := by
  cases op with
  | pop => exact h.onCore (h.core.pop hroom)
  | goto target => exact h.jump target.toNat
  | popJumpIfZero target => exact h.jumpIf false target hroom
  | popJumpIfNonzero target => exact h.jumpIf true target hroom
  | binary op => exact h.onCore (h.core.binary op hroom)
  | unary op => exact h.onCore (h.core.unary op hroom)
  | pushTrue => exact h.pushOrFault ⟨.boolean true, rfl, trivial⟩
  | pushFalse => exact h.pushOrFault ⟨.boolean false, rfl, trivial⟩
  | pushNull => exact h.pushOrFault ⟨.null, rfl, trivial⟩
  | number n => exact h.pushOrFault ⟨.number n, rfl, trivial⟩
  | loadConst index =>
    exact h.pushOrFault ⟨_, Array.getElem?_eq_getElem hrange,
      hconstants _ (Array.getElem_mem_toList hrange)⟩
  | makeArray count => exact h.onCore (h.core.makeArray hroom)
  | getIndex => exact h.onCore (h.core.getIndex hroom)
  | setIndex => exact h.onCore (h.core.setIndex hroom)
  | call count => exact h.call hroom
  | ret => exact h.leave hshaped (hret rfl)
  | makeFunction => exact h.onCore (h.core.makeFunction exe.routines.size)
  | loadGlobal slot =>
    have hslot : slot.toNat < v.globals.size := hshaped.globals ▸ hrange
    exact h.pushOrFault ⟨_, Array.getElem?_eq_getElem hslot,
      h.globals _ (Array.getElem_mem_toList hslot)⟩
  | storeGlobal slot => exact h.storeGlobal hroom (hshaped.globals ▸ hrange)
  | loadFrameVar slot =>
    obtain ⟨locals, hlocals, hslot⟩ := hrange
    obtain ⟨f, frames, hframes, hle⟩ := hshaped.running hlocals
    have hslot : slot.toNat < f.locals.size := Nat.lt_of_lt_of_le hslot hle
    have hf := h.frames f (by simp [hframes])
    simp only [execute, loadFrameVar, hframes]
    exact h.pushOrFault ⟨_, Array.getElem?_eq_getElem hslot, hf _ (Array.getElem_mem_toList hslot)⟩
  | storeFrameVar slot =>
    obtain ⟨locals, hlocals, hslot⟩ := hrange
    obtain ⟨f, frames, hframes, hle⟩ := hshaped.running hlocals
    exact h.storeFrameVar hroom hframes (Nat.lt_of_lt_of_le hslot hle)
  | loadNative index =>
    refine h.pushOrFault ⟨_, congrArg _ (Array.getElem?_eq_getElem hrange), ?_⟩
    exact NativeEntry.known_value (Array.getElem_mem_toList hrange)
  | exit => trivial

/-! ## Runs -/

theorem Stays.shaped {address : Nat} (h : v.Stays address v') (hv : v.Shaped exe) :
    v'.Shaped exe := by
  cases h with
  | top hg => exact ⟨hg.trans hv.globals, nofun⟩
  | call hg hl =>
    obtain ⟨hf, hframes⟩ := List.forall_mem_cons.1 hv.frames
    exact ⟨hg.trans hv.globals, List.forall_mem_cons.2 ⟨by rwa [hl], hframes⟩⟩

theorem le_size_enter (index locals : Nat) (args : List Value) :
    locals ≤ (Frame.enter index locals args).locals.size := by
  simp only [Frame.enter, List.size_toArray, List.length_append, List.length_replicate]
  omega

theorem Goes.shaped {op : Op} {next : Nat} (h : Goes exe host op next v v') (hv : v.Shaped exe) :
    v'.Shaped exe := by
  cases h with
  | stays _ hstays _ => exact hstays.shaped hv
  | enters _ _ _ hr =>
    have hjump := hv.jump next
    exact ⟨hv.globals, List.forall_mem_cons.2 ⟨⟨_, hr, le_size_enter _ _ _⟩, hjump.frames⟩⟩
  | leaves _ hframes _ =>
    exact ⟨hv.globals, fun f hf => hv.frames f (by rw [hframes]; exact List.mem_cons_of_mem _ hf)⟩

theorem Goes.charged_le {op : Op} {next : Nat} (h : Goes exe host op next v v')
    (hv : v.charged ≤ host.budget) : v'.charged ≤ host.budget := by
  cases h with
  | stays _ hstays _ => cases hstays <;> exact hv
  | enters _ _ _ _ _ hbudget _ => exact hbudget
  | leaves => exact Nat.le_trans (Nat.sub_le _ _) hv

end Machine

/-- What is proved of executables: the numbers of operands at all offsets, and that whatever
instructions name is there. -/
structure Executable.Regular (exe : Executable) (d : Option Nat → Nat → Option Nat) : Prop where
  graded : exe.Graded d
  inRange : exe.InRange
  constants : ∀ x ∈ exe.constants.toList, x.Known exe.routines.size

theorem LabelCode.Lowers.regular {code : LabelCode} {p : Program} {exe : Executable}
    {folding : Bool}
    (hl : code.Lowers p) (ha : (code.foldIf folding).AssembledTo exe) (hs : exe.Short) :
    ∃ d, exe.Regular d := by
  obtain ⟨d, hd⟩ := hl.graded ha hs
  exact ⟨d, hd, ha.inRange, hl.known_constants ha⟩

namespace Machine

variable {exe : Executable} {host : Host} {v v' : Machine} {d : Option Nat → Nat →
  Option Nat} {bases : List Nat}

/-- **A machine that is sound**: aligned, with room for its variables, with functions that are
known, and charged within the budget. -/
structure Sound (exe : Executable) (d : Option Nat → Nat → Option Nat) (host : Host) (v : Machine)
    (bases : List Nat) : Prop where
  aligned : v.Aligned exe d bases
  known : v.Known exe.routines.size
  shaped : v.Shaped exe
  charged : v.charged ≤ host.budget

theorem sound_load (hd : exe.Regular d) (host : Host) : (load exe .empty).Sound exe d host [0] where
  aligned := .top (hd.graded none exe.main rfl).start
  known := ⟨⟨nofun, Heap.known_empty _⟩, fun x hx => by
    rw [load, Array.toList_replicate] at hx
    cases List.eq_of_mem_replicate hx
    trivial, nofun⟩
  shaped := ⟨Array.size_replicate, nofun⟩
  charged := Nat.zero_le _

/-- A sound machine runs a chunk. -/
theorem Shaped.chunk (h : v.Shaped exe) : ∃ chunk, v.chunk? exe = some chunk := by
  obtain ⟨core, globals, ip, _ | ⟨f, frames⟩, charged⟩ := v
  · exact ⟨exe.main, rfl⟩
  · obtain ⟨r, hr, -⟩ := h.frames f (by simp)
    exact ⟨r.chunk, by simp only [chunk?, hr, Option.map_some]⟩

/-- The next step of a sound machine does what it should. -/
theorem Sound.keeps (h : v.Sound exe d host bases) (hd : exe.Regular d) :
    (v.step exe host).Keeps exe v := by
  obtain ⟨chunk, hchunk⟩ := h.shaped.chunk
  have hof : exe.chunkOf v.running = some chunk := chunk?_eq exe v ▸ hchunk
  obtain ⟨base, k, -, hk, hheight⟩ := h.aligned.level
  have hgraded := hd.graded v.running chunk hof
  obtain ⟨op, hlt, hop, hshift⟩ := hgraded.step hk
  obtain ⟨listed, hlisted, hall⟩ := hgraded.listed
  have hrange :=
    hd.inRange v.running chunk hof listed hlisted _ _ ((hall v.currentIp op).2 ⟨⟨k, hk⟩, hop⟩)
  have htakes := hshift.takes
  have hkeeps : ((v.jump (v.currentIp + op.size)).execute exe host op).Keeps exe
      (v.jump (v.currentIp + op.size)) := by
    refine execute_keeps (h.known.jump _)
      (h.shaped.jump _) hd.constants ?_ (by rwa [running_jump]) fun hret hnil => ?_
    · rw [core_jump]
      omega
    · have hlength := v.length_frames_jump (v.currentIp + op.size)
      rw [hnil] at hlength
      have hframes : v.frames = [] := List.length_eq_zero_iff.1 hlength.symm
      have hcall := (hshift.ret hret).1
      rw [running, hframes] at hcall
      cases hcall
  have hstep : v.step exe host = (v.jump (v.currentIp + op.size)).execute exe host op := by
    simp only [Machine.step, hchunk, if_neg (Nat.not_le_of_lt hlt), hop]
  rw [hstep]
  generalize (v.jump (v.currentIp + op.size)).execute exe host op = st at hkeeps
  cases st with
  | fault f v' => exact hkeeps.of_jump
  | _ => exact hkeeps

/-- **A step keeps a machine sound.** -/
theorem Sound.step (h : v.Sound exe d host bases) (hd : exe.Regular d)
    (hstep : v.step exe host = .next v') : v'.Sound exe d host (v.rebase v' bases) := by
  have hkeeps := h.keeps hd
  rw [hstep] at hkeeps
  obtain ⟨chunk, op, -, -, -, hgoes⟩ := step_next hstep
  exact ⟨h.aligned.step hd.graded hstep, hkeeps, hgoes.shaped h.shaped, hgoes.charged_le h.charged⟩

/-- **A sound machine meets no fault but rare ones.** -/
theorem Sound.rare (h : v.Sound exe d host bases) (hd : exe.Regular d) {f : Fault}
    (hstep : v.step exe host = .fault f v') : v.Rare exe f := by
  have hkeeps := h.keeps hd
  rwa [hstep] at hkeeps

end Machine

/-- **Every machine that a run reaches is sound.** -/
theorem Executable.Regular.sound {exe : Executable} {d : Option Nat → Nat → Option Nat}
    {host : Host} {v : Machine}
    {bases : List Nat} (hd : exe.Regular d) (h : exe.Reaches host v bases) :
    v.Sound exe d host bases := by
  induction h with
  | load => exact Machine.sound_load hd host
  | step _ hstep ih => exact ih.step hd hstep

end Stackscript
