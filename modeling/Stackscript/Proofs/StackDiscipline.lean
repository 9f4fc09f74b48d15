import Stackscript.Proofs.ChunkLevels

/-!
# The operands of a running program

Every active call has a base, the height of the stack when it was entered. The stack is at all times
as high above the base of the running call as the offset of the next instruction says, and a caller
that waits will find as many operands above its own base as its offset says, once the result lies
there.

* `Machine.rebase`, `Executable.Reaches`: reachable machines, with the bases of their calls;
* `Executable.Aligned`, with **`Executable.Aligned.step`** and `Executable.Aligned.exit`;
* **`stack_discipline`**.
-/

namespace Stackscript

/-! ## Bases -/

/-- The routine that is running, if any. -/
def Machine.running (v : Machine) : Option Nat := v.frames.head?.map (·.routine)

/-- The bases after a step, innermost first: a call that has been entered stands on what is left of
the stack without its arguments, and one that has been left stands on nothing any more. -/
def Machine.rebase (v v' : Machine) (bases : List Nat) : List Nat :=
  if v.frames.length < v'.frames.length then v'.core.stack.length :: bases
  else if v'.frames.length < v.frames.length then bases.tail
  else bases

/-- The machines that a run of an executable reaches, with the bases of the active calls and of the
top level. -/
inductive Executable.Reaches (exe : Executable) (host : Host) : Machine → List Nat → Prop where
  | load : Reaches exe host (.load exe .empty) [0]
  | step {v v' : Machine} {bases : List Nat} : Reaches exe host v bases →
      v.step exe host = .next v' → Reaches exe host v' (v.rebase v' bases)

theorem Machine.rebase_stays {v v' : Machine} (h : v'.frames.length = v.frames.length)
    (bases : List Nat) : v.rebase v' bases = bases := by
  rw [rebase, if_neg (by omega), if_neg (by omega)]

theorem Machine.rebase_enters {v v' : Machine} (h : v'.frames.length = v.frames.length + 1)
    (bases : List Nat) : v.rebase v' bases = v'.core.stack.length :: bases := by
  rw [rebase, if_pos (by omega)]

theorem Machine.rebase_leaves {v v' : Machine} (h : v.frames.length = v'.frames.length + 1)
    (bases : List Nat) : v.rebase v' bases = bases.tail := by
  rw [rebase, if_neg (by omega), if_pos (by omega)]

theorem Machine.chunk?_eq (exe : Executable) (v : Machine) :
    v.chunk? exe = exe.chunkOf v.running := by
  obtain ⟨core, globals, ip, _ | ⟨f, frames⟩, charged⟩ := v <;> rfl

/-! ## Alignment -/

/-- **The stack is as high above each base as the offsets say**, and the charge is that of the
active calls. A call that waits for a result counts it. -/
inductive AlignedFrames (exe : Executable) (d : Option Nat → Nat → Option Nat) :
    List Frame → Nat → Nat → Nat → List Nat → Prop where
  | top {ip height : Nat} : d none ip = some height → AlignedFrames exe d [] ip height 0 [0]
  | call {f : Frame} {frames : List Frame} {r : Routine} {ip base k height charged charged' : Nat}
      {bases : List Nat} : exe.routines[f.routine]? = some r → d (some f.routine) f.ip = some k →
      height = base + k → charged' = charged + Frame.cost r.locals →
      AlignedFrames exe d frames ip (base + 1) charged bases →
      AlignedFrames exe d (f :: frames) ip height charged' (base :: bases)

/-- The machine is aligned. -/
def Machine.Aligned (exe : Executable) (d : Option Nat → Nat → Option Nat) (v : Machine)
    (bases : List Nat) : Prop :=
  AlignedFrames exe d v.frames v.ip v.core.stack.length v.charged bases

namespace Machine

variable {exe : Executable} {d : Option Nat → Nat → Option Nat} {host : Host}
  {v v' : Machine} {bases : List Nat}

/-- The height of the stack above the base of the running call. -/
theorem Aligned.level (h : v.Aligned exe d bases) :
    ∃ base k, bases.head? = some base ∧ d v.running v.currentIp = some k ∧
      v.core.stack.length = base + k := by
  obtain ⟨core, globals, ip, frames, charged⟩ := v
  cases h with
  | top hk => exact ⟨0, _, rfl, hk, (Nat.zero_add _).symm⟩
  | call _ hk hheight _ _ => exact ⟨_, _, rfl, hk, hheight⟩

/-- At the next instruction of an aligned machine. -/
theorem Aligned.instr (h : v.Aligned exe d bases) (hd : exe.Graded d) {chunk : Chunk} {op : Op}
    (hchunk : v.chunk? exe = some chunk) (hop : chunk.decode v.currentIp = .ok op) :
    ∃ base k, bases.head? = some base ∧ d v.running v.currentIp = some k ∧
      v.core.stack.length = base + k ∧
      op.Graded v.running.isSome (d v.running) (v.currentIp + op.size) k := by
  obtain ⟨base, k, hbase, hk, hheight⟩ := h.level
  obtain ⟨op', -, hop', hgraded⟩ := (hd v.running chunk (chunk?_eq exe v ▸ hchunk)).step hk
  cases hop.symm.trans hop'
  exact ⟨base, k, hbase, hk, hheight, hgraded⟩

/-- The running call of an aligned machine may go on elsewhere, with the number of operands
there. -/
theorem Aligned.moved (h : v.Aligned exe d bases) {base k address : Nat}
    (hbase : bases.head? = some base)
    (hstays : v.Stays address v') (hk : d v.running address = some k) :
    AlignedFrames exe d v'.frames v'.ip (base + k) v'.charged bases := by
  cases hstays with
  | top =>
    cases h with
    | top =>
      cases hbase
      rw [Nat.zero_add]
      exact .top hk
  | call =>
    cases h with
    | call hr _ _ hcharged hrest =>
      cases hbase
      exact .call hr hk rfl hcharged hrest

theorem Stays.length_frames {address : Nat} (h : v.Stays address v') :
    v'.frames.length = v.frames.length := by
  cases h <;> rfl

@[simp]
theorem charged_jump (v : Machine) (address : Nat) : (v.jump address).charged = v.charged := by
  obtain ⟨core, globals, ip, _ | ⟨f, frames⟩, charged⟩ := v <;> rfl

@[simp]
theorem running_jump (v : Machine) (address : Nat) : (v.jump address).running = v.running := by
  obtain ⟨core, globals, ip, _ | ⟨f, frames⟩, charged⟩ := v <;> rfl

@[simp]
theorem length_frames_jump (v : Machine) (address : Nat) :
    (v.jump address).frames.length = v.frames.length :=
  (stays_jump v.core).length_frames

/-- A caller waits behind the call, where its result is counted. -/
theorem Aligned.caller (h : v.Aligned exe d bases) (hd : exe.Graded d) {chunk : Chunk}
    {count : UInt8} {callee : Value}
    {args rest : List Value} (hchunk : v.chunk? exe = some chunk)
    (hop : chunk.decode v.currentIp = .ok (.call count))
    (hstack : v.core.stack = callee :: (args.reverse ++ rest)) (hargs : args.length = count.toNat) :
    AlignedFrames exe d (v.jump (v.currentIp + (Op.call count).size)).frames
      (v.jump (v.currentIp + (Op.call count).size)).ip (rest.length + 1) v.charged bases := by
  obtain ⟨base, k, hbase, hk, hheight, hgraded⟩ := h.instr hd hchunk hop
  have htakes : count.toNat + 1 ≤ k := hgraded.takes
  have hcaller := h.moved hbase (stays_jump v.core) (hgraded.goes _ rfl)
  rw [hstack, List.length_cons, List.length_append, List.length_reverse, hargs] at hheight
  have hrest : base + (k - (Op.call count).takes + (Op.call count).gives) = rest.length + 1 := by
    show base + (k - (count.toNat + 1) + 1) = rest.length + 1
    omega
  rw [hrest] at hcaller
  simpa using hcaller

/-- **A step keeps a machine aligned.** -/
theorem Aligned.step (h : v.Aligned exe d bases) (hd : exe.Graded d)
    (hstep : v.step exe host = .next v') : v'.Aligned exe d (v.rebase v' bases) := by
  obtain ⟨chunk, op, hchunk, -, hop, hgoes⟩ := step_next hstep
  obtain ⟨base, k, hbase, hk, hheight, hgraded⟩ := h.instr hd hchunk hop
  have htakes := hgraded.takes
  cases hgoes with
  | @stays _ address hto hstays hcore =>
    obtain ⟨taken, given, rest, hs, htaken, hs', hgiven⟩ := hcore
    have hlength : v'.core.stack.length = base + (k - op.takes + op.gives) := by
      rw [hs, List.length_append] at hheight
      rw [hs', List.length_append]
      omega
    rw [rebase_stays hstays.length_frames, Aligned, hlength]
    exact h.moved hbase hstays (hgraded.goes address hto)
  | @enters count index r args rest hcall hstack hargs hr harity hbudget hlimit =>
    subst hcall
    have hstart : d (some index) 0 = some 0 := by
      refine (hd (some index) r.chunk ?_).start
      rw [Executable.chunkOf, hr]
      rfl
    rw [rebase_enters (congrArg (· + 1) (v.length_frames_jump _))]
    exact .call hr hstart rfl rfl (h.caller hd hchunk hop hstack hargs)
  | @leaves f frames r hret hframes hr =>
    subst hret
    obtain ⟨-, rfl⟩ := hgraded.ret rfl
    rw [rebase_leaves (by rw [hframes]; rfl)]
    show AlignedFrames exe d frames v.ip v.core.stack.length
      (v.charged - Frame.cost r.locals) bases.tail
    rw [Aligned, hframes] at h
    generalize v.charged = charged at h
    cases h with
    | call hr' _ _ hcharged hrest =>
      cases hbase
      cases hr.symm.trans hr'
      rw [hcharged, Nat.add_sub_cancel, hheight]
      exact hrest

/-- **Where an aligned machine exits**, nothing is left on the stack, no call is active and nothing
is charged. -/
theorem Aligned.exit (h : v.Aligned exe d bases) (hd : exe.Graded d)
    (hstep : v.step exe host = .exit v') :
    v'.core.stack = [] ∧ v'.frames = [] ∧ v'.charged = 0 := by
  obtain ⟨chunk, hchunk, hpast | ⟨hop, rfl⟩⟩ := step_exit hstep
  · obtain ⟨base, k, -, hk, -⟩ := h.level
    obtain ⟨op, hlt, -⟩ := (hd v.running chunk (chunk?_eq exe v ▸ hchunk)).step hk
    omega
  · obtain ⟨base, k, -, hk, -, hgraded⟩ := h.instr hd hchunk hop
    obtain ⟨htop, rfl⟩ := hgraded.exit rfl
    obtain ⟨⟨stack, world⟩, globals, ip, frames, charged⟩ := v
    cases h with
    | call => cases htop
    | top h₀ =>
      have hlength : stack.length = 0 := Option.some.inj (h₀.symm.trans hk)
      exact ⟨List.length_eq_zero_iff.1 hlength, rfl, rfl⟩

end Machine

/-! ## Runs -/

namespace Executable

variable {exe : Executable} {d : Option Nat → Nat → Option Nat} {host : Host}
  {v v' : Machine} {bases : List Nat}

/-- **Every machine that a run reaches is aligned.** -/
theorem Graded.aligned (hd : exe.Graded d) (h : exe.Reaches host v bases) :
    v.Aligned exe d bases := by
  induction h with
  | load => exact .top (hd none exe.main rfl).start
  | step _ hstep ih => exact ih.step hd hstep

theorem Reaches.steps {n : Nat} (hv : exe.Reaches host v bases)
    (h : Steps (Machine.advance exe host) n v v') : ∃ bases', exe.Reaches host v' bases' := by
  induction h generalizing bases with
  | zero => exact ⟨bases, hv⟩
  | @succ n v w v' hw _ ih =>
    have hstep : v.step exe host = .next w := by
      unfold Machine.advance at hw
      cases hs : v.step exe host <;> rw [hs] at hw <;> cases hw
      rfl
    exact ih (hv.step hstep)

/-- The run of an executable that ends has reached its last step. -/
theorem Ends.last {halt : Halt} (h : exe.Ends host halt v') :
    ∃ v bases, exe.Reaches host v bases ∧ v.advance exe host = .done (halt, v') := by
  obtain ⟨n, v, hsteps, hdone⟩ := ends_iff.1 h
  obtain ⟨bases, hv⟩ := Reaches.load.steps hsteps
  exact ⟨v, bases, hv, hdone⟩

/-- The run of an executable that finishes has reached an exit. -/
theorem Ends.exit (h : exe.Ends host .finished v') :
    ∃ v bases, exe.Reaches host v bases ∧ v.step exe host = .exit v' := by
  obtain ⟨v, bases, hv, hdone⟩ := h.last
  refine ⟨v, bases, hv, ?_⟩
  unfold Machine.advance at hdone
  cases hs : v.step exe host with
  | exit w =>
    rw [hs] at hdone; exact congrArg Step.exit (Prod.ext_iff.1 (Progress.done.inj hdone)).2
  | _ => rw [hs] at hdone; cases hdone

end Executable

/-- **The operand stack is disciplined.** The executable of a text without errors has, if its chunks
are short, a number of operands at every offset: none at the start of a chunk, one at every return,
none at an exit. The stack of every machine that a run reaches is by that number higher than the
base of the running call; and a run that finishes leaves nothing on the stack, no call active and
nothing charged. -/
theorem stack_discipline {s : Settings} {source : String} {code : LabelCode}
    (h : s.labelCode source = .ok code) (order : ByteOrder) :
    ∃ exe, s.executable order source = .ok exe ∧ (exe.Short → ∃ d : Option Nat → Nat → Nat,
      (∀ c chunk, exe.chunkOf c = some chunk → d c 0 = 0 ∧ ∃ ops, chunk.instructions = .ok ops ∧
        (∀ offset, (offset, .ret) ∈ ops → d c offset = 1) ∧
          ∀ offset, (offset, .exit) ∈ ops → d c offset = 0) ∧
      ∀ host, (∀ v bases, exe.Reaches host v bases →
          ∃ base, bases.head? = some base ∧ v.core.stack.length = base + d v.running v.currentIp) ∧
        ∀ v, exe.Ends host .finished v → v.core.stack = [] ∧ v.frames = [] ∧ v.charged = 0) := by
  obtain ⟨exe, p, lowered, hexe, hl, ha⟩ := Settings.executable_of_labelCode h order
  refine ⟨exe, hexe, fun hshort => ?_⟩
  obtain ⟨d, hd⟩ := hl.graded ha hshort
  refine ⟨fun c offset => (d c offset).getD 0, fun c chunk hc => ?_, fun host =>
    ⟨fun v bases hv => ?_, fun v hv => ?_⟩⟩
  · have hchunk := hd c chunk hc
    obtain ⟨ops, hops, hall⟩ := hchunk.listed
    have hlisted : ∀ {offset op}, (offset, op) ∈ ops →
        ∃ k, d c offset = some k ∧ op.Graded c.isSome (d c) (offset + op.size) k := by
      intro offset op hmem
      obtain ⟨⟨k, hk⟩, hop⟩ := (hall offset op).1 hmem
      obtain ⟨op', -, hop', hgraded⟩ := hchunk.step hk
      cases hop.symm.trans hop'
      exact ⟨k, hk, hgraded⟩
    refine ⟨by simp only [hchunk.start, Option.getD_some], ops, hops, fun offset hmem =>
      ?_, fun offset hmem => ?_⟩
    · obtain ⟨k, hk, hgraded⟩ := hlisted hmem
      simp only [hk, Option.getD_some, (hgraded.ret rfl).2]
    · obtain ⟨k, hk, hgraded⟩ := hlisted hmem
      simp only [hk, Option.getD_some, (hgraded.exit rfl).2]
  · obtain ⟨base, k, hbase, hk, hheight⟩ := (hd.aligned hv).level
    exact ⟨base, hbase, by simp only [hk, Option.getD_some, hheight]⟩
  · obtain ⟨w, bases, hw, hexit⟩ := Executable.Ends.exit hv
    exact (hd.aligned hw).exit hd hexit

/-- A recursive call while operands wait for it, and a loop that is left in the middle. -/
def waitingSource : String :=
  "function f(n) \x7b return n ? n * f(n - 1) : [1, 2][0]; \x7d
   var i = 0; while (true) \x7b i = [i, [f(3)]]; if (f(2) > 1) break; \x7d"

theorem stack_discipline_waiting :
    ∃ code exe v, Settings.standard.labelCode waitingSource = .ok code ∧
      Settings.standard.executable .big waitingSource = .ok exe ∧ exe.Short ∧
      exe.Ends ⟨fun _ => .zero, .accepting, 1024⟩ .finished v ∧
      v.core.stack = [] ∧ v.frames = [] ∧ v.charged = 0 := by
  have hrun : ((Settings.standard.executable .big waitingSource).toOption.map fun exe =>
      decide exe.Short && (match (Machine.load exe .empty).run exe ⟨fun _ => .zero,
      .accepting, 1024⟩ 200 with
        | .finished _ => true
        | _ => false)) = some true := by decide +kernel
  obtain ⟨code, exe, hcode, hexe, hshort, hrun⟩ := Settings.exists_short_executable hrun
  obtain ⟨exe', hexe', hdiscipline⟩ := stack_discipline hcode .big
  cases hexe.symm.trans hexe'
  obtain ⟨d, -, hrest⟩ := hdiscipline hshort
  split at hrun
  case h_1 v hv =>
    have hends : exe.Ends ⟨fun _ => .zero, .accepting, 1024⟩ .finished v := ⟨200, hv⟩
    exact ⟨code, exe, v, hcode, hexe, hshort, hends, (hrest _).2 v hends⟩
  case h_2 => cases hrun

end Stackscript
