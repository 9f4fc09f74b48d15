import Stackscript.Proofs.Runs

/-!
# What a step of the stack machine can do

A step that goes on does one of three things. It stays in the running call, where it replaces
operands on the top of the stack and may write one variable; it enters a routine, taking the callee
and the arguments off the stack; or it leaves the running call, and nothing else changes. All that
is proved about runs of the machine rests on this.

* `Op.takes`, `Op.gives`, `Op.GoesTo`: operands and successors of a byte instruction;
* `Core.Replaces`, `Machine.Stays`, `Machine.entered`, `Machine.left`;
* `Machine.Goes`, the three cases, and **`Machine.step_next`**, `Machine.step_exit`.
-/

namespace Stackscript

namespace Op

/-- The number of operands that a byte instruction takes off the stack. -/
def takes : Op → Nat
  | .pop | .popJumpIfZero _ | .popJumpIfNonzero _ | .unary _ | .makeFunction | .storeGlobal _
  | .storeFrameVar _
  | .ret => 1
  | .binary _ | .getIndex => 2
  | .setIndex => 3
  | .makeArray count => count.toNat
  | .call count => count.toNat + 1
  | .goto _ | .pushTrue | .pushFalse | .pushNull | .number _ | .loadConst _ | .loadGlobal _
  | .loadFrameVar _
  | .loadNative _ | .exit => 0

/-- The number of operands that a byte instruction puts on the stack. -/
def gives : Op → Nat
  | .pop | .popJumpIfZero _ | .popJumpIfNonzero _ | .storeGlobal _ | .storeFrameVar _ | .ret
  | .goto _ | .exit => 0
  | _ => 1

/-- A byte instruction with another one behind it at `next` leads to an address of the same
chunk. -/
def GoesTo (next : Nat) : Op → Nat → Prop
  | .goto target, address => address = target.toNat
  | .popJumpIfZero target, address | .popJumpIfNonzero target, address =>
    address = next ∨ address = target.toNat
  | .ret, _ | .exit, _ => False
  | _, address => address = next

end Op

/-! ## Operands -/

/-- Values on the top of the stack are replaced by others. -/
def Core.Replaces (takes gives : Nat) (c c' : Core) : Prop :=
  ∃ taken given rest, c.stack = taken ++ rest ∧ taken.length = takes ∧
    c'.stack = given ++ rest ∧ given.length = gives

theorem splitTop_eq_some {n : Nat} {stack above args rest : List Value}
    (h : splitTop n stack above = some (args, rest)) :
    ∃ taken, stack = taken ++ rest ∧ taken.length = n ∧ args = taken.reverse ++ above := by
  induction n generalizing stack above with
  | zero =>
    cases h
    exact ⟨[], rfl, rfl, rfl⟩
  | succ n ih =>
    cases stack with
    | nil => cases h
    | cons v stack =>
      obtain ⟨taken, rfl, rfl, rfl⟩ := ih h
      exact ⟨v :: taken, rfl, rfl, by simp⟩

namespace Core

variable {c c' : Core}

theorem push_replaces (v : Value) (c : Core) : Replaces 0 1 c (c.push v) :=
  ⟨[], [v], c.stack, rfl, rfl, rfl, rfl⟩

theorem pop_replaces (h : c.pop = .done c') : Replaces 1 0 c c' := by
  obtain ⟨stack, world⟩ := c
  cases stack with
  | nil => cases h
  | cons v rest => cases h; exact ⟨[v], [], rest, rfl, rfl, rfl, rfl⟩

theorem binary_replaces {op : BinaryOperator} (h : c.binary op = .done c') : Replaces 2 1 c c' := by
  obtain ⟨_ | ⟨y, _ | ⟨x, rest⟩⟩, world⟩ := c
  · cases h
  · cases h
  · simp only [Core.binary] at h
    split at h
    case h_1 v _ => cases h; exact ⟨[y, x], [v], rest, rfl, rfl, rfl, rfl⟩
    case h_2 => cases h

theorem unary_replaces {op : UnaryOperator} (h : c.unary op = .done c') : Replaces 1 1 c c' := by
  obtain ⟨_ | ⟨x, rest⟩, world⟩ := c
  · cases h
  · simp only [Core.unary] at h
    split at h
    case h_1 v _ => cases h; exact ⟨[x], [v], rest, rfl, rfl, rfl, rfl⟩
    case h_2 => cases h

theorem makeArray_replaces {n : Nat} (h : c.makeArray n = .done c') : Replaces n 1 c c' := by
  obtain ⟨stack, world⟩ := c
  simp only [Core.makeArray] at h
  split at h
  case h_1 => cases h
  case h_2 items rest hsplit =>
    obtain ⟨taken, rfl, rfl, -⟩ := splitTop_eq_some hsplit
    cases h
    exact ⟨taken, [_], rest, rfl, rfl, rfl, rfl⟩

theorem getIndex_replaces (h : c.getIndex = .done c') : Replaces 2 1 c c' := by
  obtain ⟨_ | ⟨y, _ | ⟨x, rest⟩⟩, world⟩ := c
  · cases h
  · cases h
  · simp only [Core.getIndex] at h
    split at h
    case h_1 v _ => cases h; exact ⟨[y, x], [v], rest, rfl, rfl, rfl, rfl⟩
    case h_2 => cases h

theorem setIndex_replaces (h : c.setIndex = .done c') : Replaces 3 1 c c' := by
  obtain ⟨_ | ⟨z, _ | ⟨y, _ | ⟨x, rest⟩⟩⟩, world⟩ := c
  · cases h
  · cases h
  · cases h
  · simp only [Core.setIndex] at h
    split at h
    case h_1 heap _ => cases h; exact ⟨[z, y, x], [z], rest, rfl, rfl, rfl, rfl⟩
    case h_2 => cases h
    case h_3 => cases h

theorem callNative_replaces {host : Host} {f : Native} {count : Nat}
    (h : c.callNative host f count = .done c') : Replaces count 1 c c' := by
  obtain ⟨stack, world⟩ := c
  simp only [Core.callNative] at h
  split at h
  case isTrue => cases h
  case isFalse =>
    split at h
    case h_1 => cases h
    case h_2 args rest hsplit =>
      obtain ⟨taken, rfl, rfl, -⟩ := splitTop_eq_some hsplit
      split at h
      case h_1 v _ _ => cases h; exact ⟨taken, [v], rest, rfl, rfl, rfl, rfl⟩
      case h_2 => cases h

theorem makeFunction_replaces {count : Nat} (h : c.makeFunction count = .done c') :
    Replaces 1 1 c c' := by
  obtain ⟨_ | ⟨x, rest⟩, world⟩ := c
  · cases h
  · have hsame : c' = ⟨x :: rest, world⟩ := by
      simp only [Core.makeFunction] at h
      split at h
      case h_1 i _ _ =>
        split at h
        case isTrue => cases h; rfl
        case isFalse => cases h
      case h_2 => cases h
      case h_3 => cases h
    subst hsame
    exact ⟨[x], [x], rest, rfl, rfl, rfl, rfl⟩

end Core

/-! ## Machines -/

/-- **The running call goes on at an address.** Its own variables and those of the program may have
been written; whatever belongs to the calls around it is as it was. -/
inductive Machine.Stays (address : Nat) : Machine → Machine → Prop where
  | top {core core' : Core} {globals globals' : Array Value} {ip charged : Nat} :
      globals'.size = globals.size →
      Stays address ⟨core, globals, ip, [], charged⟩ ⟨core', globals', address, [], charged⟩
  | call {core core' : Core} {globals globals' locals locals' : Array Value}
      {ip charged routine old : Nat} {frames : List Frame} : globals'.size = globals.size →
      locals'.size = locals.size →
        Stays address ⟨core, globals, ip, ⟨routine, old, locals⟩ :: frames, charged⟩ ⟨core',
        globals', ip, ⟨routine, address, locals'⟩ :: frames, charged⟩

/-- The machine that has entered a routine, with the arguments and the callee taken off the stack;
the caller will go on at `next`. -/
def Machine.entered (v : Machine) (next index : Nat) (r : Routine) (args rest : List Value) :
    Machine :=
  ⟨⟨rest, v.core.world⟩, v.globals, (v.jump next).ip, Frame.enter index r.locals args ::
    (v.jump next).frames, v.charged + Frame.cost r.locals⟩

/-- The machine that has left the running call. -/
def Machine.left (v : Machine) (frames : List Frame) (r : Routine) : Machine :=
  { v with frames, charged := v.charged - Frame.cost r.locals }

/-- **What a byte instruction does that goes on.** -/
inductive Machine.Goes (exe : Executable) (host : Host) (op : Op) (next : Nat) :
    Machine → Machine → Prop where
  | stays {v v' : Machine} {address : Nat} : op.GoesTo next address → v.Stays address v' →
      v.core.Replaces op.takes op.gives v'.core → Goes exe host op next v v'
  | enters {v : Machine} {count : UInt8} {index : Nat} {r : Routine} {args rest : List Value} :
      op = .call count → v.core.stack = .function index :: (args.reverse ++ rest) →
      args.length = count.toNat → exe.routines[index]? = some r → r.arity = count.toNat →
      v.charged + Frame.cost r.locals ≤ host.budget → v.charged + Frame.cost r.locals < byteLimit →
      Goes exe host op next v (v.entered next index r args rest)
  | leaves {v : Machine} {f : Frame} {frames : List Frame} {r : Routine} : op = .ret →
      v.frames = f :: frames → exe.routines[f.routine]? = some r →
      Goes exe host op next v (v.left frames r)

namespace Machine

variable {exe : Executable} {host : Host} {v v' : Machine} {op : Op} {next : Nat}

@[simp]
theorem core_jump (v : Machine) (address : Nat) : (v.jump address).core = v.core := by
  obtain ⟨core, globals, ip, _ | ⟨f, frames⟩, charged⟩ := v <;> rfl

theorem jump_jump (v : Machine) (a b : Nat) : (v.jump a).jump b = v.jump b := by
  obtain ⟨core, globals, ip, _ | ⟨f, frames⟩, charged⟩ := v <;> rfl

theorem stays_jump {address : Nat} (core : Core) :
    v.Stays address ({ v with core }.jump address) := by
  obtain ⟨core', globals, ip, _ | ⟨⟨routine, old, locals⟩, frames⟩, charged⟩ := v
  · exact .top rfl
  · exact .call rfl rfl

/-- An effect on the operands that is done. -/
theorem onCore_next {effect : Core → Effect} (h : (v.jump next).onCore effect = .next v') :
    ∃ core, effect v.core = .done core ∧ v' = { v with core }.jump next := by
  obtain ⟨core', globals, ip, _ | ⟨⟨routine, old, locals⟩, frames⟩, charged⟩ := v <;>
  · simp only [jump, onCore] at h
    show ∃ core, effect core' = .done core ∧ _
    cases he : effect core' with
    | done core => rw [he] at h; cases h; exact ⟨core, rfl, rfl⟩
    | failed e core => rw [he] at h; cases h
    | fault f core => rw [he] at h; cases h

theorem Goes.of_onCore {effect : Core → Effect} (h : (v.jump next).onCore effect = .next v')
    (hop : op.GoesTo next next) (he : ∀ {c core}, effect c = .done core →
    c.Replaces op.takes op.gives core) : Goes exe host op next v v' := by
  obtain ⟨core, hcore, rfl⟩ := onCore_next h
  refine .stays hop (stays_jump core) ?_
  rw [core_jump]
  exact he hcore

theorem Goes.of_push {x : Option Value} (h : (v.jump next).pushOrFault x = .next v')
    (hop : op.GoesTo next next) (htakes : op.takes = 0) (hgives : op.gives = 1) :
    Goes exe host op next v v' := by
  cases x with
  | none => simp [pushOrFault] at h
  | some x =>
    have h' : (v.jump next).onCore (fun c => .done (c.push x)) = .next v' := h
    refine .of_onCore h' hop fun hc => ?_
    cases hc
    rw [htakes, hgives]
    exact Core.push_replaces x _

theorem Goes.of_jumpIf {wanted : Bool} {target : UInt32}
    (h : (v.jump next).jumpIf wanted target = .next v')
    (hnext : op.GoesTo next next) (htarget : op.GoesTo next target.toNat) (htakes : op.takes = 1)
    (hgives : op.gives = 0) : Goes exe host op next v v' := by
  obtain ⟨⟨_ | ⟨x, rest⟩, world⟩, globals, ip, frames, charged⟩ := v
  · cases frames <;> cases h
  · have hcore : Core.Replaces op.takes op.gives ⟨x :: rest, world⟩ ⟨rest, world⟩ :=
      ⟨[x], [], rest, rfl, htakes.symm, rfl, hgives.symm⟩
    cases frames <;>
    · simp only [jump, jumpIf] at h
      split at h <;> cases h
      · exact .stays htarget (stays_jump ⟨rest, world⟩) hcore
      · exact .stays hnext (stays_jump ⟨rest, world⟩) hcore

theorem Goes.of_storeGlobal {slot : UInt32} (h : (v.jump next).storeGlobal slot.toNat = .next v') :
    Goes exe host (.storeGlobal slot) next v v' := by
  obtain ⟨⟨_ | ⟨x, rest⟩, world⟩, globals, ip, frames, charged⟩ := v
  · cases frames <;> cases h
  · have hcore : Core.Replaces 1 0 ⟨x :: rest, world⟩ ⟨rest, world⟩ :=
      ⟨[x], [], rest, rfl, rfl, rfl, rfl⟩
    have hsize : (globals.setIfInBounds slot.toNat x).size = globals.size :=
      Array.size_setIfInBounds
    cases frames with
    | nil =>
      simp only [jump, storeGlobal] at h
      split at h <;> cases h
      exact .stays rfl (.top hsize) hcore
    | cons f frames =>
      simp only [jump, storeGlobal] at h
      split at h <;> cases h
      exact .stays rfl (.call hsize rfl) hcore

theorem Goes.of_storeFrameVar {slot : UInt32}
    (h : (v.jump next).storeFrameVar slot.toNat = .next v') :
    Goes exe host (.storeFrameVar slot) next v v' := by
  obtain ⟨⟨_ | ⟨x, rest⟩, world⟩, globals, ip, _ | ⟨f, frames⟩, charged⟩ := v
  · cases h
  · cases h
  · cases h
  · simp only [jump, storeFrameVar] at h
    split at h <;> cases h
    exact .stays rfl (.call rfl Array.size_setIfInBounds) ⟨[x], [], rest, rfl, rfl, rfl, rfl⟩

/-- A routine that is entered. -/
theorem enter_next {index count : Nat} (h : v.enter exe host index count = .next v') :
    ∃ r args rest, exe.routines[index]? = some r ∧ r.arity = count ∧
      v.charged + Frame.cost r.locals < byteLimit ∧
      v.charged + Frame.cost r.locals ≤ host.budget ∧ v.core.stack = args.reverse ++ rest ∧
      args.length = count ∧
      v' = ⟨⟨rest, v.core.world⟩, v.globals, v.ip, Frame.enter index r.locals args :: v.frames,
        v.charged + Frame.cost r.locals⟩ := by
  obtain ⟨⟨stack, world⟩, globals, ip, frames, charged⟩ := v
  simp only [enter] at h
  split at h
  case h_1 => cases h
  case h_2 r hr =>
    split at h
    case isTrue => cases h
    case isFalse harity =>
      split at h
      case isTrue => cases h
      case isFalse hlimit =>
        split at h
        case isTrue => cases h
        case isFalse hbudget =>
          split at h
          case h_1 => cases h
          case h_2 args rest hsplit =>
            split at h
            case isFalse => cases h
            case isTrue =>
              cases h
              obtain ⟨taken, rfl, rfl, rfl⟩ := splitTop_eq_some hsplit
              exact ⟨r, _, rest, hr, Decidable.not_not.1 harity,
                by simpa using hlimit, by simpa using hbudget, by simp, by simp, rfl⟩

theorem Goes.of_call {count : UInt8} (h : (v.jump next).call exe host count.toNat = .next v') :
    Goes exe host (.call count) next v v' := by
  obtain ⟨⟨_ | ⟨callee, rest⟩, world⟩, globals, ip, frames, charged⟩ := v
  · cases frames <;> cases h
  · cases callee with
    | native f =>
      have h' : (jump next ⟨⟨rest, world⟩, globals, ip, frames, charged⟩).onCore
          (fun c => c.callNative host f count.toNat) = .next v' := by
        cases frames <;> exact h
      obtain ⟨core, hcore, rfl⟩ := onCore_next h'
      refine .stays rfl (stays_jump core) ?_
      rw [core_jump]
      obtain ⟨taken, given, rest', rfl, hn, hs, hg⟩ := Core.callNative_replaces hcore
      exact ⟨.native f :: taken, given, rest', rfl, by simp [hn, Op.takes], hs, hg⟩
    | function index =>
      have h' : (jump next ⟨⟨rest, world⟩, globals, ip, frames, charged⟩).enter exe host index
          count.toNat = .next v' := by
        cases frames <;> exact h
      obtain ⟨r, args, rest', hr, harity, hlimit, hbudget, hs, hn, rfl⟩ := enter_next h'
      cases frames with
      | nil => exact .enters rfl (congrArg _ hs) hn hr harity hbudget hlimit
      | cons f frames => exact .enters rfl (congrArg _ hs) hn hr harity hbudget hlimit
    | _ => cases frames <;> cases h

theorem Goes.of_leave (h : (v.jump next).leave exe = .next v') : Goes exe host .ret next v v' := by
  obtain ⟨core, globals, ip, _ | ⟨f, frames⟩, charged⟩ := v
  · cases h
  · simp only [jump, leave] at h
    split at h <;> cases h
    case h_2 r hr => exact .leaves rfl rfl hr

/-- **A step that goes on decodes a byte instruction and does what this one does.** -/
theorem step_next (h : v.step exe host = .next v') :
    ∃ chunk op, v.chunk? exe = some chunk ∧ v.currentIp < chunk.size ∧
      chunk.decode v.currentIp = .ok op ∧ Goes exe host op (v.currentIp + op.size) v v' := by
  simp only [step] at h
  split at h
  case h_1 => cases h
  case h_2 chunk hchunk =>
    split at h
    case isTrue => split at h <;> cases h
    case isFalse hlt =>
      split at h
      case h_1 => cases h
      case h_2 op hop =>
        refine ⟨chunk, op, hchunk, by omega, hop, ?_⟩
        cases op with
        | pop => exact .of_onCore h rfl Core.pop_replaces
        | goto target =>
          cases h
          rw [jump_jump]
          exact .stays rfl (stays_jump v.core) ⟨[], [], v.core.stack, rfl, rfl,
            by rw [core_jump]; rfl, rfl⟩
        | popJumpIfZero target => exact .of_jumpIf h (.inl rfl) (.inr rfl) rfl rfl
        | popJumpIfNonzero target => exact .of_jumpIf h (.inl rfl) (.inr rfl) rfl rfl
        | binary op => exact .of_onCore h rfl Core.binary_replaces
        | unary op => exact .of_onCore h rfl Core.unary_replaces
        | makeArray count => exact .of_onCore h rfl Core.makeArray_replaces
        | getIndex => exact .of_onCore h rfl Core.getIndex_replaces
        | setIndex => exact .of_onCore h rfl Core.setIndex_replaces
        | makeFunction => exact .of_onCore h rfl Core.makeFunction_replaces
        | call count => exact .of_call h
        | ret => exact .of_leave h
        | storeGlobal slot => exact .of_storeGlobal h
        | storeFrameVar slot => exact .of_storeFrameVar h
        | loadFrameVar slot =>
          simp only [execute, loadFrameVar] at h
          split at h
          case h_1 => cases h
          case h_2 => exact .of_push h rfl rfl rfl
        | exit => cases h
        | _ =>
          simp only [execute] at h
          exact .of_push h rfl rfl rfl

/-! ## Ends -/

theorem afterEffect_ne_exit (globals : Array Value) (ip : Nat) (frames : List Frame) (charged : Nat)
    (e : Effect) : afterEffect globals ip frames charged e ≠ .exit v' := by
  cases e <;> nofun

theorem pushOrFault_ne_exit (x : Option Value) : v.pushOrFault x ≠ .exit v' := by cases x <;> nofun

theorem enter_ne_exit (index count : Nat) : v.enter exe host index count ≠ .exit v' := by
  unfold enter
  grind

/-- Only an exit exits. -/
theorem execute_exit (h : v.execute exe host op = .exit v') : op = .exit ∧ v' = v := by
  obtain ⟨⟨stack, world⟩, globals, ip, frames, charged⟩ := v
  cases op with
  | exit => cases h; exact ⟨rfl, rfl⟩
  | goto => cases h
  | pop | binary | unary | makeArray | getIndex | setIndex | makeFunction =>
    exact absurd h (afterEffect_ne_exit _ _ _ _ _)
  | pushTrue | pushFalse | pushNull | number | loadConst | loadGlobal | loadNative =>
    simp only [execute] at h
    exact absurd h (pushOrFault_ne_exit _)
  | popJumpIfZero | popJumpIfNonzero => cases stack <;> cases h
  | storeGlobal slot =>
    cases stack with
    | nil => cases h
    | cons x rest => simp only [execute, storeGlobal] at h; split at h <;> cases h
  | loadFrameVar slot =>
    cases frames with
    | nil => cases h
    | cons f frames => exact absurd h (pushOrFault_ne_exit _)
  | storeFrameVar slot =>
    cases stack <;> cases frames <;> simp only [execute, storeFrameVar] at h <;> try cases h
    split at h <;> cases h
  | call count =>
    cases stack with
    | nil => cases h
    | cons callee rest =>
      cases callee with
      | native f => exact absurd h (afterEffect_ne_exit _ _ _ _ _)
      | function index =>
        simp only [execute, call] at h
        exact absurd h (enter_ne_exit index count.toNat)
      | _ => cases h
  | ret =>
    cases frames with
    | nil => cases h
    | cons f frames => simp only [execute, leave] at h; split at h <;> cases h

/-- **A run exits at an exit, or behind the end of the top level.** -/
theorem step_exit (h : v.step exe host = .exit v') :
    ∃ chunk, v.chunk? exe = some chunk ∧ (chunk.size ≤ v.currentIp ∨
      chunk.decode v.currentIp = .ok .exit ∧ v' = v.jump (v.currentIp + Op.exit.size)) := by
  simp only [step] at h
  split at h
  case h_1 => cases h
  case h_2 chunk hchunk =>
    refine ⟨chunk, hchunk, ?_⟩
    split at h
    case isTrue hle => exact .inl hle
    case isFalse =>
      split at h
      case h_1 => cases h
      case h_2 op hop =>
        obtain ⟨rfl, rfl⟩ := execute_exit h
        exact .inr ⟨hop, rfl⟩

end Machine

end Stackscript
