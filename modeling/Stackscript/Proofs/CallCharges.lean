import Stackscript.Proofs.MachineSafety

/-!
# The account of the active calls

Every call is charged for the bytes of its frame when it is entered, and the charge is taken back
when it returns. The account balances in every state of every run, of hand-written bytecode too: the
charge is the sum over the active calls, it is within the budget, and no call has half a frame. A
call that the budget does not allow is refused before anything has changed.

A frame so large that its bytes cannot be counted is not refused: it is a fault, as large as the
budget may be.

* `Executable.frameCost`, `Machine.Accounted`;
* `Step.Spares`, **`Machine.step_spares`**: a step that ends a run leaves the active calls alone;
* **`Machine.Accounted.step`**, `Machine.Accounted.run`: what a step and what a run keep;
* `Machine.step_call`: the three ways of a call of a routine;
* **`Executable.calls_accounted`**.
-/

namespace Stackscript

/-- The bytes that an active call is charged for. -/
def Executable.frameCost (exe : Executable) (f : Frame) : Nat :=
  (exe.routines[f.routine]?.map fun r => Frame.cost r.locals).getD 0

/-- The machine that a step leads to, whether the run goes on or not. -/
def Step.machine : Step → Machine
  | .next m | .exit m | .failed _ m | .fault _ m => m

/-- **The account of the active calls balances.** -/
structure Machine.Accounted (exe : Executable) (host : Host) (v : Machine) : Prop where
  charged : v.charged = (v.frames.map exe.frameCost).sum
  within : v.charged ≤ host.budget
  frames : ∀ f ∈ v.frames, ∃ r, exe.routines[f.routine]? = some r ∧
    f.locals.size = max r.locals r.arity

/-! ## Steps that end a run -/

/-- A step that does not go on leaves the active calls, their charge and the globals as they
were. -/
def Step.Spares (v : Machine) : Step → Prop
  | .next _ => True
  | .exit m | .failed _ m | .fault _ m =>
    m.frames = v.frames ∧ m.charged = v.charged ∧ m.globals = v.globals

namespace Machine

variable {exe : Executable} {host : Host} {v v' : Machine} {op : Op}

theorem onCore_spares (effect : Core → Effect) : (v.onCore effect).Spares v := by
  obtain ⟨core, globals, ip, frames, charged⟩ := v
  rw [onCore]
  cases effect core with
  | done core' => trivial
  | failed e core' => exact ⟨rfl, rfl, rfl⟩
  | fault f core' => exact ⟨rfl, rfl, rfl⟩

theorem pushOrFault_spares (x : Option Value) : (v.pushOrFault x).Spares v := by
  cases x with
  | none => exact ⟨rfl, rfl, rfl⟩
  | some x => trivial

theorem enter_spares (index count : Nat) : (v.enter exe host index count).Spares v := by
  obtain ⟨⟨stack, world⟩, globals, ip, frames, charged⟩ := v
  simp only [enter]
  split
  case h_1 => exact ⟨rfl, rfl, rfl⟩
  case h_2 r _ =>
    split
    case isTrue => exact ⟨rfl, rfl, rfl⟩
    case isFalse =>
      split
      case isTrue => exact ⟨rfl, rfl, rfl⟩
      case isFalse =>
        split
        case isTrue => exact ⟨rfl, rfl, rfl⟩
        case isFalse =>
          split
          case h_1 => exact ⟨rfl, rfl, rfl⟩
          case h_2 => split <;> trivial

theorem call_spares (count : Nat) : (v.call exe host count).Spares v := by
  obtain ⟨⟨_ | ⟨callee, rest⟩, world⟩, globals, ip, frames, charged⟩ := v
  · exact ⟨rfl, rfl, rfl⟩
  · cases callee with
    | native f =>
      exact onCore_spares (v := ⟨⟨rest, world⟩, globals, ip, frames, charged⟩) fun c =>
        c.callNative host f count
    | function index =>
      exact enter_spares (v := ⟨⟨rest, world⟩, globals, ip, frames, charged⟩) index count
    | _ => exact ⟨rfl, rfl, rfl⟩

theorem execute_spares (op : Op) (v : Machine) : (execute exe host op v).Spares v := by
  cases op with
  | pop | binary | unary | makeArray | getIndex | setIndex | makeFunction => exact onCore_spares _
  | pushTrue | pushFalse | pushNull | number => trivial
  | loadConst | loadGlobal | loadNative => exact pushOrFault_spares _
  | goto => trivial
  | exit => exact ⟨rfl, rfl, rfl⟩
  | call count => exact call_spares count.toNat
  | popJumpIfZero | popJumpIfNonzero =>
    obtain ⟨⟨_ | ⟨x, rest⟩, world⟩, globals, ip, frames, charged⟩ := v
    · exact ⟨rfl, rfl, rfl⟩
    · trivial
  | storeGlobal slot =>
    obtain ⟨⟨_ | ⟨x, rest⟩, world⟩, globals, ip, frames, charged⟩ := v
    · exact ⟨rfl, rfl, rfl⟩
    · simp only [execute, storeGlobal]
      split
      · trivial
      · exact ⟨rfl, rfl, rfl⟩
  | loadFrameVar slot =>
    simp only [execute, loadFrameVar]
    split
    · exact ⟨rfl, rfl, rfl⟩
    · exact pushOrFault_spares _
  | storeFrameVar slot =>
    obtain ⟨⟨_ | ⟨x, rest⟩, world⟩, globals, ip, _ | ⟨f, frames⟩, charged⟩ := v
    · exact ⟨rfl, rfl, rfl⟩
    · exact ⟨rfl, rfl, rfl⟩
    · exact ⟨rfl, rfl, rfl⟩
    · simp only [execute, storeFrameVar]
      split
      · trivial
      · exact ⟨rfl, rfl, rfl⟩
  | ret =>
    obtain ⟨core, globals, ip, _ | ⟨f, frames⟩, charged⟩ := v
    · exact ⟨rfl, rfl, rfl⟩
    · simp only [execute, leave]
      split
      · exact ⟨rfl, rfl, rfl⟩
      · trivial

/-- **A step that ends a run leaves the active calls alone**, but for the address at which the
running one would go on. -/
theorem step_spares (exe : Executable) (host : Host) (v : Machine) :
    ∃ address, (v.step exe host).Spares (v.jump address) := by
  have hsame : ∀ {s : Step}, s.Spares v → ∃ address, s.Spares (v.jump address) :=
    fun h => ⟨v.currentIp, by rwa [v.jump_currentIp]⟩
  simp only [step]
  split
  case h_1 => exact hsame ⟨rfl, rfl, rfl⟩
  case h_2 chunk _ =>
    split
    case isTrue => split <;> exact hsame ⟨rfl, rfl, rfl⟩
    case isFalse =>
      split
      case h_1 => exact hsame ⟨rfl, rfl, rfl⟩
      case h_2 op _ => exact ⟨_, execute_spares op _⟩

/-! ## The invariant -/

/-- Only the routines of the active calls and the numbers of their variables matter. -/
theorem Accounted.of_map (h : v.Accounted exe host)
    (hframes : v'.frames.map (fun f => (f.routine, f.locals.size)) = v.frames.map fun f =>
    (f.routine, f.locals.size)) (hcharged : v'.charged = v.charged) : v'.Accounted exe host where
  charged := by
    have hcost : ∀ frames : List Frame, frames.map exe.frameCost =
        (frames.map fun f => (f.routine, f.locals.size)).map
        fun p => (exe.routines[p.1]?.map fun r => Frame.cost r.locals).getD 0 :=
      fun frames => by rw [List.map_map]; rfl
    rw [hcharged, h.charged, hcost, hcost, hframes]
  within := hcharged ▸ h.within
  frames := by
    intro f hf
    have hmem : (f.routine, f.locals.size) ∈ v.frames.map fun f => (f.routine, f.locals.size) :=
      hframes ▸ List.mem_map_of_mem hf
    obtain ⟨g, hg, heq⟩ := List.mem_map.1 hmem
    obtain ⟨hroutine, hsize⟩ := Prod.mk.inj heq
    obtain ⟨r, hr, hlocals⟩ := h.frames g hg
    exact ⟨r, hroutine ▸ hr, hsize ▸ hlocals⟩

theorem Accounted.stays {address : Nat} (h : v.Accounted exe host) (hstays : v.Stays address v') :
    v'.Accounted exe host := by
  refine h.of_map ?_ ?_
  · cases hstays with
    | top => rfl
    | call _ hlocals => rw [List.map_cons, List.map_cons, hlocals]
  · cases hstays <;> rfl

theorem Accounted.jump (h : v.Accounted exe host) (address : Nat) :
    (v.jump address).Accounted exe host :=
  h.stays (stays_jump v.core)

theorem size_locals_enter (index locals : Nat) (args : List Value) :
    (Frame.enter index locals args).locals.size = max locals args.length := by
  simp only [Frame.enter, List.size_toArray, List.length_append, List.length_replicate]
  omega

/-- A step that goes on keeps the account. -/
theorem Goes.accounted {next : Nat} (h : Goes exe host op next v v') (hv : v.Accounted exe host) :
    v'.Accounted exe host := by
  have hwithin := h.charged_le hv.within
  cases h with
  | stays _ hstays _ => exact hv.stays hstays
  | @enters count index r args rest _ _ hargs hr harity _ _ =>
    have hcost : exe.frameCost (Frame.enter index r.locals args) = Frame.cost r.locals := by
      rw [Executable.frameCost, Frame.enter, hr]
      rfl
    have hjump := hv.jump next
    refine ⟨?_, hwithin, List.forall_mem_cons.2 ⟨⟨r, hr, ?_⟩, hjump.frames⟩⟩
    · show v.charged + Frame.cost r.locals = exe.frameCost _ +
        ((v.jump next).frames.map exe.frameCost).sum
      rw [hcost, ← hjump.charged, charged_jump, Nat.add_comm]
    · rw [size_locals_enter, hargs, harity]
  | @leaves f frames r _ hframes hr =>
    have hcost : exe.frameCost f = Frame.cost r.locals := by
      rw [Executable.frameCost, hr]
      rfl
    have hcharged := hv.charged
    rw [hframes, List.map_cons, List.sum_cons, hcost] at hcharged
    refine ⟨?_, hwithin, fun g hg => hv.frames g (by rw [hframes]; exact List.mem_cons_of_mem _ hg)⟩
    show v.charged - Frame.cost r.locals = (frames.map exe.frameCost).sum
    omega

/-- **A step keeps the account**, whether the run goes on or ends. -/
theorem Accounted.step (h : v.Accounted exe host) :
    (v.step exe host).machine.Accounted exe host := by
  obtain ⟨address, hspares⟩ := step_spares exe host v
  have hjump := h.jump address
  cases hstep : v.step exe host with
  | next m =>
    obtain ⟨chunk, op, -, -, -, hgoes⟩ := step_next hstep
    exact hgoes.accounted h
  | exit m | failed e m | fault f m =>
    rw [hstep] at hspares
    obtain ⟨hframes, hcharged, -⟩ := hspares
    exact hjump.of_map (congrArg _ hframes) hcharged

theorem accounted_load (exe : Executable) (host : Host) (heap : Heap) :
    (load exe heap).Accounted exe host :=
  ⟨rfl, Nat.zero_le _, nofun⟩

/-- **A run keeps the account**, however many steps it makes and however it ends. -/
theorem Accounted.run (h : v.Accounted exe host) (fuel : Nat) :
    (v.run exe host fuel).machine.Accounted exe host := by
  induction fuel generalizing v with
  | zero => exact h
  | succ fuel ih =>
    have hm := h.step
    rw [Machine.run]
    cases hstep : v.step exe host with
    | next m =>
      rw [hstep] at hm
      exact ih hm
    | exit m =>
      rw [hstep] at hm
      show (m.finish host).machine.Accounted exe host
      rw [finish]
      split <;> exact hm
    | failed e m | fault f m =>
      rw [hstep] at hm
      exact hm

/-! ## Calls and returns -/

/-- **The next instruction calls a routine with as many arguments as it takes**, and they lie on the
stack. -/
structure Calls (exe : Executable) (v : Machine) (count : UInt8) (index : Nat) (r : Routine)
    (args rest : List Value) : Prop where
  instr : ∃ chunk, v.chunk? exe = some chunk ∧ chunk.decode v.currentIp = .ok (.call count)
  stack : v.core.stack = .function index :: (args.reverse ++ rest)
  routine : exe.routines[index]? = some r
  arity : r.arity = count.toNat
  args : args.length = count.toNat

/-- The machine behind a call that was not made: the callee has been taken off the stack, and
nothing else. -/
def uncalled (v : Machine) (count : UInt8) : Machine :=
  { v.jump (v.currentIp + (Op.call count).size) with core := ⟨v.core.stack.tail, v.core.world⟩ }

theorem globals_jump (v : Machine) (address : Nat) : (v.jump address).globals = v.globals := by
  obtain ⟨core, globals, ip, _ | ⟨f, frames⟩, charged⟩ := v <;> rfl

theorem step_of_decode {chunk : Chunk} (hchunk : v.chunk? exe = some chunk)
    (hop : chunk.decode v.currentIp = .ok op) :
    v.step exe host = execute exe host op (v.jump (v.currentIp + op.size)) := by
  have hlt : v.currentIp < chunk.size := by
    refine Nat.lt_of_not_le fun hle => ?_
    have hbyte : chunk.byte? v.currentIp = none := Array.getElem?_eq_none hle
    rw [Chunk.decode, hbyte] at hop
    cases hop
  simp only [step, hchunk, hop, if_neg (Nat.not_le_of_lt hlt)]

/-- A call of a routine is a fault, is refused or is made, as the bytes that it needs say. -/
theorem step_call {count : UInt8} {index : Nat} {r : Routine} {args rest : List Value}
    (h : v.Calls exe count index r args rest) :
    v.step exe host =
      if byteLimit ≤ v.charged + Frame.cost r.locals then .fault .frameSize (v.uncalled count)
      else if host.budget < v.charged + Frame.cost r.locals then
        .failed (.callStack (v.charged + Frame.cost r.locals) host.budget) (v.uncalled count)
      else if Frame.fits r.locals then
        .next (v.entered (v.currentIp + (Op.call count).size) index r args rest)
      else .fault .frameSize { v.uncalled count with core := ⟨rest, v.core.world⟩ } := by
  obtain ⟨chunk, hchunk, hop⟩ := h.instr
  rw [step_of_decode hchunk hop]
  have hstack := h.stack
  have harity : ¬ r.arity ≠ args.length := not_not_intro (h.arity.trans h.args.symm)
  obtain ⟨⟨stack, world⟩, globals, ip, frames, charged⟩ := v
  subst hstack
  rw [execute, ← h.args]
  cases frames <;>
    simp only [jump, call, enter, h.routine, if_neg harity, splitTop_pushed, uncalled,
    entered, List.tail_cons]

/-- Where the running call returns, its charge is a part of all that is charged. -/
theorem Accounted.step_ret (h : v.Accounted exe host) {chunk : Chunk} {f : Frame}
    {frames : List Frame}
    (hchunk : v.chunk? exe = some chunk) (hop : chunk.decode v.currentIp = .ok .ret)
    (hframes : v.frames = f :: frames) :
    ∃ r, exe.routines[f.routine]? = some r ∧ Frame.cost r.locals ≤ v.charged ∧
      v.step exe host = .next (v.left frames r) := by
  obtain ⟨r, hr, -⟩ := h.frames f (by rw [hframes]; exact List.mem_cons_self)
  have hcharged := h.charged
  rw [hframes, List.map_cons, List.sum_cons, Executable.frameCost, hr] at hcharged
  refine ⟨r, hr, hcharged ▸ Nat.le_add_right _ _, ?_⟩
  rw [step_of_decode hchunk hop]
  obtain ⟨core, globals, ip, frames', charged⟩ := v
  subst hframes
  simp only [execute, Machine.jump, leave, hr, left]

end Machine

/-- **The account of the active calls balances in every state of every run.** However many steps a
run has made and however it has ended, the charge is the sum over the active calls and within the
budget, and each of them has a routine and as many variables as this needs. A return takes back no
more than is charged. A call of a routine with its arguments on the stack, whose bytes can be
counted, is refused exactly if they are over the budget, and then leaves the active calls, the
charge, the globals and the arguments as they were. If the bytes cannot be counted, the call is a
fault. -/
theorem Executable.calls_accounted (exe : Executable) (host : Host) (heap : Heap) (fuel : Nat) :
    ((Machine.load exe heap).run exe host fuel).machine.Accounted exe host ∧
      ∀ v, (Machine.load exe heap).run exe host fuel = .outOfFuel v →
        (∀ chunk f frames, v.chunk? exe = some chunk → chunk.decode v.currentIp = .ok .ret →
          v.frames = f :: frames →
          ∃ r, exe.routines[f.routine]? = some r ∧ Frame.cost r.locals ≤ v.charged ∧
            v.step exe host = .next (v.left frames r)) ∧
        ∀ count index r args rest, v.Calls exe count index r args rest →
          ((v.frames.map exe.frameCost).sum + Frame.cost r.locals < byteLimit →
            ((∃ required limit m, v.step exe host = .failed (.callStack required limit) m) ↔
              host.budget < (v.frames.map exe.frameCost).sum + Frame.cost r.locals)) ∧
          (byteLimit ≤ (v.frames.map exe.frameCost).sum + Frame.cost r.locals →
            ∃ m, v.step exe host = .fault .frameSize m) ∧
          ∀ required limit m, v.step exe host = .failed (.callStack required limit) m →
            m.frames = (v.jump (v.currentIp + (Op.call count).size)).frames ∧
              m.charged = v.charged ∧
              m.globals = v.globals ∧ m.core = ⟨args.reverse ++ rest, v.core.world⟩ := by
  have hrun := (Machine.accounted_load exe host heap).run fuel
  refine ⟨hrun, fun v hv => ?_⟩
  rw [hv] at hrun
  have hv : v.Accounted exe host := hrun
  refine ⟨fun chunk f frames hchunk hop hframes => hv.step_ret hchunk hop hframes,
    fun count index r args rest hcalls => ?_⟩
  rw [← hv.charged, Machine.step_call hcalls]
  refine ⟨fun hlt => ⟨?_, fun hover => ?_⟩, fun hle => ⟨_, if_pos hle⟩, ?_⟩
  · rintro ⟨required, limit, m, hstep⟩
    refine Nat.lt_of_not_le fun hle => ?_
    rw [if_neg (Nat.not_le_of_lt hlt), if_neg (Nat.not_lt_of_le hle)] at hstep
    split at hstep <;> cases hstep
  · rw [if_neg (Nat.not_le_of_lt hlt), if_pos hover]
    exact ⟨_, _, _, rfl⟩
  · intro required limit m hstep
    split at hstep
    case isTrue => cases hstep
    case isFalse =>
      split at hstep
      case isTrue =>
        cases hstep
        refine ⟨rfl, v.charged_jump _, v.globals_jump _, ?_⟩
        rw [Machine.uncalled, hcalls.stack, List.tail_cons]
      case isFalse => split at hstep <;> cases hstep

/-- The top level calls a routine with one argument, which calls itself with the same. -/
def endless : Executable where
  main := .ofOps .little [.pushTrue, .loadConst 0, .call 1]
  routines := #[⟨"f", .ofOps .little [.loadFrameVar 0, .loadConst 0, .call 1, .ret], 1, 2⟩]
  constants := #[.function 0]
  globals := #[]

/-- Two calls of the routine are active, and a third is about to be made. -/
def endlessTwice : Machine where
  core := ⟨[.function 0, .boolean true], .fresh⟩
  globals := #[]
  ip := 8
  frames := [⟨0, 10, #[.boolean true, .null]⟩, ⟨0, 12, #[.boolean true, .null]⟩]
  charged := 240

/-- Of 300 bytes, two calls take 240, and a third is refused. -/
theorem calls_accounted_endless :
    (Machine.load endless .empty).run endless ⟨fun _ => .zero, .accepting, 300⟩ 8 =
      .outOfFuel endlessTwice ∧
      endlessTwice.Calls endless 1 0 ⟨"f", .ofOps .little [.loadFrameVar 0, .loadConst 0, .call 1,
        .ret], 1, 2⟩ [.boolean true] [] ∧
      (endlessTwice.frames.map endless.frameCost).sum = 240 ∧
      ∃ required limit m,
        endlessTwice.step endless ⟨fun _ => .zero, .accepting, 300⟩ =
          .failed (.callStack required limit) m ∧
          m.charged = 240 ∧ m.core.stack = [.boolean true] := by
  have hrun : (Machine.load endless .empty).run endless ⟨fun _ => .zero, .accepting, 300⟩ 8 =
      .outOfFuel endlessTwice := by decide +kernel
  have hcalls : endlessTwice.Calls endless 1 0
      ⟨"f", .ofOps .little [.loadFrameVar 0, .loadConst 0, .call 1, .ret], 1, 2⟩ [.boolean true]
      [] :=
    ⟨⟨_, rfl, by decide +kernel⟩, rfl, rfl, rfl, rfl⟩
  obtain ⟨-, hcall⟩ := (Executable.calls_accounted endless _ .empty 8).2 _ hrun
  obtain ⟨hrefused, -, hleft⟩ := hcall _ _ _ _ _ hcalls
  obtain ⟨required, limit, m, hstep⟩ := (hrefused (by decide)).2 (by decide)
  obtain ⟨-, hcharged, -, hcore⟩ := hleft _ _ _ hstep
  exact ⟨hrun, hcalls, by decide, required, limit, m, hstep, hcharged, by rw [hcore]; rfl⟩

/-- The top level calls a routine with so many variables that the bytes of its frame cannot be
counted. -/
def uncountable : Executable where
  main := .ofOps .little [.loadConst 0, .call 0]
  routines := #[⟨"f", .ofOps .little [.pushNull, .ret], 0, Nat.pow 2 61⟩]
  constants := #[.function 0]
  globals := #[]

/-- A call far over the budget that is not refused. -/
theorem uncountable_not_refused :
    ∃ v r, (Machine.load uncountable .empty).run uncountable ⟨fun _ => .zero, .accepting, 40960⟩ 1 =
      .outOfFuel v ∧ v.Calls uncountable 0 0 r [] [] ∧
      40960 < (v.frames.map uncountable.frameCost).sum + Frame.cost r.locals ∧
      v.step uncountable ⟨fun _ => .zero, .accepting, 40960⟩ =
        .fault .frameSize ⟨⟨[], .fresh⟩, #[], 7, [], 0⟩ :=
  ⟨⟨⟨[.function 0], .fresh⟩, #[], 5, [], 0⟩, _,
    by decide +kernel, ⟨⟨_, rfl, by decide +kernel⟩, rfl, rfl, rfl, rfl⟩, by
    decide, by decide +kernel⟩

end Stackscript
