import Stackscript.Executable.Basic
import Stackscript.Machine.Core
import Stackscript.Native.Table

/-!
# The stack machine

The state of a run of an executable, and its single steps. A step decodes the instruction at the
current address and carries it out; it is a total function, and every way in which it can end is a
case of `Step`.

* `Frame`, the record of an active call, and `Frame.cost`, its charge against the budget;
* `Machine`, `Machine.load`;
* `Machine.execute`, `Machine.step`.
-/

namespace Stackscript

/-- The numbers of bytes that can be counted are those below this one. -/
def byteLimit : Nat := Nat.pow 2 64

/-- An active call of a routine. -/
structure Frame where
  /-- The index of the routine. -/
  routine : Nat
  /-- The address of the next instruction. -/
  ip : Nat
  /-- The variables, parameters first. -/
  locals : Array Value
deriving DecidableEq, Inhabited

namespace Frame

/-- The frame of a new call: the arguments first, then null up to the number of variables. -/
def enter (routine locals : Nat) (args : List Value) : Frame :=
  ⟨routine, 0, (args ++ List.replicate (locals - args.length) Value.null).toArray⟩

/-- The number of bytes that a frame with so many variables is charged for. -/
def cost (locals : Nat) : Nat := 40 * locals + 40

/-- So many variables can be addressed. -/
def fits (locals : Nat) : Bool := decide (40 * locals < Nat.pow 2 63)

end Frame

/-- The state of a run. -/
structure Machine where
  core : Core
  globals : Array Value
  /-- The address of the next instruction of the top level. -/
  ip : Nat
  /-- The active calls, innermost first. -/
  frames : List Frame
  /-- The bytes charged for the active calls. -/
  charged : Nat
deriving DecidableEq

/-- What one step of a machine leads to. -/
inductive Step where
  | next (m : Machine)
  | exit (m : Machine)
  | failed (e : Failure) (m : Machine)
  | fault (f : Fault) (m : Machine)
deriving DecidableEq

namespace Machine

/-- The state before the first step; the heap holds the arrays of the constant pool. -/
def load (exe : Executable) (h : Heap) : Machine :=
  { core := ⟨[], { World.fresh with heap := h }⟩
    globals := Array.replicate exe.globals.size .null
    ip := 0
    frames := []
    charged := 0 }

/-- The address of the next instruction. -/
def currentIp (m : Machine) : Nat :=
  match m.frames with
  | [] => m.ip
  | f :: _ => f.ip

/-- The machine that goes on at an address. -/
def jump (address : Nat) : Machine → Machine
  | ⟨core, globals, _, [], charged⟩ => ⟨core, globals, address, [], charged⟩
  | ⟨core, globals, ip, ⟨routine, _, locals⟩ :: frames, charged⟩ =>
    ⟨core, globals, ip, ⟨routine, address, locals⟩ :: frames, charged⟩

/-- The chunk that is being run. -/
def chunk? (exe : Executable) (m : Machine) : Option Chunk :=
  match m.frames with
  | [] => some exe.main
  | f :: _ => exe.routines[f.routine]?.map (·.chunk)

/-- The names of the active routines, innermost first. -/
def activeNames (exe : Executable) (m : Machine) : List String :=
  m.frames.map fun f => (exe.routines[f.routine]?.map (·.name)).getD ""

/-- The machine after an effect on its operands. -/
def afterEffect (globals : Array Value) (ip : Nat) (frames : List Frame) (charged : Nat) :
    Effect → Step
  | .done core => .next ⟨core, globals, ip, frames, charged⟩
  | .failed e core => .failed e ⟨core, globals, ip, frames, charged⟩
  | .fault f core => .fault f ⟨core, globals, ip, frames, charged⟩

/-- Pushes a value that has to be there. -/
def pushOrFault (v : Option Value) (m : Machine) : Step :=
  match v, m with
  | some v, ⟨core, globals, ip, frames, charged⟩ =>
    .next ⟨core.push v, globals, ip, frames, charged⟩
  | none, m => .fault .outOfRange m

/-- Pops a value and jumps if its truth value is `wanted`. -/
def jumpIf (wanted : Bool) (target : UInt32) : Machine → Step
  | ⟨⟨v :: rest, world⟩, globals, ip, frames, charged⟩ =>
    let truth := world.heap.truthy v
    let m : Machine := ⟨⟨rest, world⟩, globals, ip, frames, charged⟩
    .next (if truth = wanted then m.jump target.toNat else m)
  | m => .fault .stackUnderflow m

/-- Pops a value into a global. -/
def storeGlobal (slot : Nat) : Machine → Step
  | ⟨⟨v :: rest, world⟩, globals, ip, frames, charged⟩ =>
    if slot < globals.size then
      .next ⟨⟨rest, world⟩, globals.setIfInBounds slot v, ip, frames, charged⟩
    else .fault .outOfRange ⟨⟨rest, world⟩, globals, ip, frames, charged⟩
  | m => .fault .stackUnderflow m

/-- Pushes a variable of the innermost call. -/
def loadFrameVar (slot : Nat) (m : Machine) : Step :=
  match m.frames with
  | [] => .fault .frameVarAtTop m
  | f :: _ => m.pushOrFault f.locals[slot]?

/-- Pops a value into a variable of the innermost call. -/
def storeFrameVar (slot : Nat) : Machine → Step
  | ⟨⟨v :: rest, world⟩, globals, ip, ⟨routine, address, locals⟩ :: frames, charged⟩ =>
    if slot < locals.size then
      .next ⟨⟨rest, world⟩, globals, ip,
        ⟨routine, address, locals.setIfInBounds slot v⟩ :: frames, charged⟩
    else
      .fault .outOfRange ⟨⟨rest, world⟩, globals, ip, ⟨routine, address, locals⟩ :: frames, charged⟩
  | ⟨⟨_ :: rest, world⟩, globals, ip, [], charged⟩ =>
    .fault .frameVarAtTop ⟨⟨rest, world⟩, globals, ip, [], charged⟩
  | m => .fault .stackUnderflow m

/-- Enters a routine with the top `count` values as its arguments, the callee having been taken
off. The arguments stay on the stack if the call fails. -/
def enter (exe : Executable) (host : Host) (index count : Nat) : Machine → Step
  | ⟨⟨stack, world⟩, globals, ip, frames, charged⟩ =>
    match exe.routines[index]? with
    | none => .fault .outOfRange ⟨⟨stack, world⟩, globals, ip, frames, charged⟩
    | some r =>
      let required := charged + Frame.cost r.locals
      if r.arity ≠ count then
        .failed (.routineArity count r.name r.arity) ⟨⟨stack, world⟩, globals, ip, frames, charged⟩
      else if byteLimit ≤ required then
        .fault .frameSize ⟨⟨stack, world⟩, globals, ip, frames, charged⟩
      else if host.budget < required then
        .failed (.callStack required host.budget) ⟨⟨stack, world⟩, globals, ip, frames, charged⟩
      else
        match splitTop count stack [] with
        | none => .fault .stackUnderflow ⟨⟨stack, world⟩, globals, ip, frames, charged⟩
        | some (args, rest) =>
          if Frame.fits r.locals then
            .next ⟨⟨rest, world⟩, globals, ip, Frame.enter index r.locals args :: frames, required⟩
          else .fault .frameSize ⟨⟨rest, world⟩, globals, ip, frames, charged⟩

/-- Pops the callee and calls it with the `count` values below it. -/
def call (exe : Executable) (host : Host) (count : Nat) : Machine → Step
  | ⟨⟨.native f :: rest, world⟩, globals, ip, frames, charged⟩ =>
    afterEffect globals ip frames charged (Core.callNative host f count ⟨rest, world⟩)
  | ⟨⟨.function i :: rest, world⟩, globals, ip, frames, charged⟩ =>
    enter exe host i count ⟨⟨rest, world⟩, globals, ip, frames, charged⟩
  | ⟨⟨v :: rest, world⟩, globals, ip, frames, charged⟩ =>
    .failed (.notCallable v) ⟨⟨rest, world⟩, globals, ip, frames, charged⟩
  | m => .fault .stackUnderflow m

/-- Leaves the innermost call; its result stays on the stack. -/
def leave (exe : Executable) : Machine → Step
  | ⟨core, globals, ip, f :: frames, charged⟩ =>
    match exe.routines[f.routine]? with
    | none => .fault .outOfRange ⟨core, globals, ip, f :: frames, charged⟩
    | some r => .next ⟨core, globals, ip, frames, charged - Frame.cost r.locals⟩
  | m => .fault .returnAtTop m

/-- An effect on the operands alone. -/
def onCore (effect : Core → Effect) : Machine → Step
  | ⟨core, globals, ip, frames, charged⟩ => afterEffect globals ip frames charged (effect core)

/-- Carries out an instruction; the address has already been moved behind it. -/
def execute (exe : Executable) (host : Host) (op : Op) (m : Machine) : Step :=
  match op with
  | .pop => m.onCore Core.pop
  | .goto target => .next (m.jump target.toNat)
  | .popJumpIfZero target => m.jumpIf false target
  | .popJumpIfNonzero target => m.jumpIf true target
  | .binary op => m.onCore (Core.binary op)
  | .unary op => m.onCore (Core.unary op)
  | .pushTrue => m.pushOrFault (some (.boolean true))
  | .pushFalse => m.pushOrFault (some (.boolean false))
  | .pushNull => m.pushOrFault (some .null)
  | .number n => m.pushOrFault (some (.number n))
  | .loadConst index => m.pushOrFault exe.constants[index.toNat]?
  | .makeArray count => m.onCore (Core.makeArray count.toNat)
  | .getIndex => m.onCore Core.getIndex
  | .setIndex => m.onCore Core.setIndex
  | .call count => m.call exe host count.toNat
  | .ret => m.leave exe
  | .makeFunction => m.onCore (Core.makeFunction exe.routines.size)
  | .loadGlobal slot => m.pushOrFault m.globals[slot.toNat]?
  | .storeGlobal slot => m.storeGlobal slot.toNat
  | .loadFrameVar slot => m.loadFrameVar slot.toNat
  | .storeFrameVar slot => m.storeFrameVar slot.toNat
  | .loadNative index => m.pushOrFault (NativeEntry.table[index.toNat]?.map (·.value))
  | .exit => .exit m

/-- One step of a run. -/
def step (exe : Executable) (host : Host) (m : Machine) : Step :=
  match m.chunk? exe with
  | none => .fault .outOfRange m
  | some chunk =>
    let ip := m.currentIp
    if chunk.size ≤ ip then
      if m.frames.isEmpty then .exit m else .fault .ranPastEnd m
    else
      match chunk.decode ip with
      | .error f => .fault (.decode f) m
      | .ok op => execute exe host op (m.jump (ip + op.size))

end Machine

end Stackscript
