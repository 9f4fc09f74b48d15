import Stackscript.Label.Code
import Stackscript.Proofs.Runs

/-!
# The label machine

A machine that runs label code as it stands. It is at a place of a block: a label in layout order
and an instruction of it. A jump goes to the label that it names, the end of a label leads on to the
label that follows, variables are kept by their numbers, and constants stand in the instructions.

* `Place`, `Store`, `Activation`, `LabelMachine`;
* `LabelFunction.frameVars` and `LabelCode.globalVars`, the variables that a call keeps and those
  that the program keeps, each once and in the order in which they are first named;
* `LabelMachine.execute`, `LabelMachine.step`, `LabelCode.Ends`;
* `LabelCode.DistinctLabels`.
-/

namespace Stackscript

/-! ## The variables of functions and programs -/

/-- The variable that an instruction reads or writes. -/
def Instr.mention? : Instr → Option VarId
  | .load id | .store id => some id
  | _ => none

/-- The variable is kept once for the whole program. -/
def keptGlobally (vars : Array Variable) (id : VarId) : Bool :=
  vars[id]?.any fun v => v.storage.isGlobal

/-- The variable is kept in every call anew. -/
def keptInFrames (vars : Array Variable) (id : VarId) : Bool :=
  vars[id]?.any fun v => !v.storage.isGlobal && v.storage != .native

theorem NativeEntry.slot?_spec {name : String} {slot : Nat} (h : slot? name = some slot) :
    ∃ entry, table[slot]? = some entry ∧ entry.name = name := by
  obtain ⟨hlt, hname, -⟩ := Array.findIdx?_eq_some_iff_getElem.1 h
  exact ⟨table[slot], Array.getElem?_eq_getElem hlt, by simpa using hname⟩

namespace Block

/-- All instructions of a block in layout order. -/
def instrs (b : Block) : List Instr := b.labels.toList.flatMap (·.code.toList)

/-- The variables that a block names, in layout order. -/
def mentions (b : Block) : List VarId := b.instrs.filterMap Instr.mention?

/-- The names of the labels of a block in layout order. -/
def labelIds {C : Type} (b : Block C) : List LabelId := b.labels.toList.map (·.id)

end Block

/-- The variables that a call of a function keeps, parameters first. -/
def LabelFunction.frameVars (vars : Array Variable) (f : LabelFunction) : List VarId :=
  (f.parameters ++ f.block.mentions.filter (keptInFrames vars)).eraseDups

namespace LabelCode

/-- The blocks of a program, the top level first. -/
def blocks (code : LabelCode) : List Block := code.main :: code.functions.toList.map (·.block)

/-- The variables that a program keeps. -/
def globalVars (code : LabelCode) : List VarId :=
  (code.blocks.flatMap fun b => b.mentions.filter (keptGlobally code.vars)).eraseDups

/-- No two labels of a block have the same name. -/
def DistinctLabels (code : LabelCode) : Prop := ∀ b ∈ code.blocks, b.labelIds.Nodup

end LabelCode

/-! ## States -/

/-- A place in a block: a label, by its place in the layout, and an instruction of it. -/
structure Place where
  label : Nat
  index : Nat
deriving DecidableEq, Inhabited

/-- The place behind an instruction. -/
def Place.next (p : Place) : Place := ⟨p.label, p.index + 1⟩

/-- The start of a block. -/
def Place.start : Place := ⟨0, 0⟩

/-- The contents of variables, by number. -/
abbrev Store := VarId → Value

namespace Store

/-- Every variable is null. -/
def fresh : Store := fun _ => .null

/-- The store after a variable has been written. -/
def set (s : Store) (id : VarId) (v : Value) : Store := fun x => if x = id then v else s x

/-- The store in which arguments have been given to variables in order, all others being null. -/
def ofArgs (ids : List VarId) (args : List Value) : Store :=
  fun id => ((ids.zip args).lookup id).getD .null

end Store

/-- An active call of a function. -/
structure Activation where
  /-- The index of the function. -/
  function : Nat
  place : Place
  vars : Store

/-- The state of a run of label code. -/
structure LabelMachine where
  core : Core
  globals : Store
  /-- The place in the top level. -/
  place : Place
  /-- The active calls, innermost first. -/
  frames : List Activation
  /-- The bytes charged for the active calls. -/
  charged : Nat

/-- What one step of a label machine leads to. -/
abbrev LabelStep := Progress LabelMachine (Halt × LabelMachine)

namespace LabelMachine

/-- The state before the first step. -/
def load : LabelMachine := ⟨⟨[], .fresh⟩, .fresh, .start, [], 0⟩

/-- The place of the next instruction. -/
def here (m : LabelMachine) : Place :=
  match m.frames with
  | [] => m.place
  | a :: _ => a.place

/-- The machine that goes on at a place. -/
def moveTo (p : Place) : LabelMachine → LabelMachine
  | ⟨core, globals, _, [], charged⟩ => ⟨core, globals, p, [], charged⟩
  | ⟨core, globals, q, ⟨f, _, vars⟩ :: frames, charged⟩ =>
    ⟨core, globals, q, ⟨f, p, vars⟩ :: frames, charged⟩

/-- The machine with other operands in another world. -/
def withCore (core : Core) (m : LabelMachine) : LabelMachine := { m with core }

/-- The block that is being run. -/
def block? (code : LabelCode) (m : LabelMachine) : Option Block :=
  match m.frames with
  | [] => some code.main
  | a :: _ => code.functions[a.function]?.map (·.block)

@[simp]
theorem block?_moveTo (code : LabelCode) (m : LabelMachine) (p : Place) :
    (m.moveTo p).block? code = m.block? code := by
  obtain ⟨core, globals, q, frames, charged⟩ := m
  cases frames <;> rfl

@[simp]
theorem here_moveTo (m : LabelMachine) (p : Place) : (m.moveTo p).here = p := by
  obtain ⟨core, globals, q, frames, charged⟩ := m
  cases frames <;> rfl

@[simp]
theorem moveTo_moveTo (m : LabelMachine) (p q : Place) : (m.moveTo p).moveTo q = m.moveTo q := by
  obtain ⟨core, globals, r, frames, charged⟩ := m
  cases frames <;> rfl

@[simp]
theorem moveTo_here (m : LabelMachine) : m.moveTo m.here = m := by
  obtain ⟨core, globals, p, frames, charged⟩ := m
  cases frames <;> rfl

@[simp]
theorem core_withCore (m : LabelMachine) (core : Core) : (m.withCore core).core = core := rfl

@[simp]
theorem here_withCore (m : LabelMachine) (core : Core) : (m.withCore core).here = m.here := rfl

@[simp]
theorem block?_withCore (code : LabelCode) (m : LabelMachine) (core : Core) :
    (m.withCore core).block? code = m.block? code := rfl

@[simp]
theorem withCore_withCore (m : LabelMachine) (core core' : Core) :
    (m.withCore core).withCore core' = m.withCore core' := rfl

@[simp]
theorem withCore_core (m : LabelMachine) : m.withCore m.core = m := rfl

@[simp]
theorem moveTo_withCore (m : LabelMachine) (core : Core) (p : Place) :
    (m.withCore core).moveTo p = (m.moveTo p).withCore core := by
  obtain ⟨core', globals, q, frames, charged⟩ := m
  cases frames <;> rfl

@[simp]
theorem core_moveTo (m : LabelMachine) (p : Place) : (m.moveTo p).core = m.core := by
  obtain ⟨core, globals, q, frames, charged⟩ := m
  cases frames <;> rfl

/-- The names of the active functions, innermost first. -/
def activeNames (code : LabelCode) (m : LabelMachine) : List String :=
  m.frames.map fun a => (code.functions[a.function]?.map (·.name)).getD ""

/-! ## Instructions -/

/-- The end of a run in a fault. -/
def halt (f : Fault) (m : LabelMachine) : LabelStep := .done (.fault f, m)

/-- Pushes a value. -/
def push (v : Value) (m : LabelMachine) : LabelStep := .next (m.withCore (m.core.push v))

/-- An effect on the operands alone. -/
def onCore (effect : Core → Effect) (m : LabelMachine) : LabelStep :=
  match effect m.core with
  | .done core => .next (m.withCore core)
  | .failed e core => .done (.failed e, m.withCore core)
  | .fault f core => .done (.fault f, m.withCore core)

/-- Goes on at a label of the block. -/
def jump (b : Block) (l : LabelId) (m : LabelMachine) : LabelStep :=
  match b.labelIds.idxOf? l with
  | some i => .next (m.moveTo ⟨i, 0⟩)
  | none => m.halt .outOfRange

/-- Pops a value and jumps if its truth value is `wanted`. -/
def jumpIf (b : Block) (wanted : Bool) (l : LabelId) : LabelMachine → LabelStep
  | ⟨⟨v :: rest, world⟩, globals, p, frames, charged⟩ =>
    let m : LabelMachine := ⟨⟨rest, world⟩, globals, p, frames, charged⟩
    if world.heap.truthy v = wanted then m.jump b l else .next m
  | m => m.halt .stackUnderflow

/-- Pushes the value of a variable. -/
def loadVar (vars : Array Variable) (id : VarId) (m : LabelMachine) : LabelStep :=
  match vars[id]? with
  | none => m.halt .outOfRange
  | some v =>
    if v.storage = .native then
      match (NativeEntry.slot? v.name).bind (NativeEntry.table[·]?) with
      | some entry => m.push entry.value
      | none => m.halt .outOfRange
    else if v.storage.isGlobal then m.push (m.globals id)
    else
      match m.frames with
      | [] => m.halt .frameVarAtTop
      | a :: _ => m.push (a.vars id)

/-- Pops a value into a variable. -/
def storeVar (vars : Array Variable) (id : VarId) : LabelMachine → LabelStep
  | ⟨⟨x :: rest, world⟩, globals, p, frames, charged⟩ =>
    match vars[id]? with
    | none => halt .outOfRange ⟨⟨rest, world⟩, globals, p, frames, charged⟩
    | some v =>
      if v.storage = .native then halt .outOfRange ⟨⟨rest, world⟩, globals, p, frames, charged⟩
      else if v.storage.isGlobal then .next ⟨⟨rest, world⟩, globals.set id x, p, frames, charged⟩
      else
        match frames with
        | [] => halt .frameVarAtTop ⟨⟨rest, world⟩, globals, p, [], charged⟩
        | ⟨f, q, locals⟩ :: frames =>
          .next ⟨⟨rest, world⟩, globals, p, ⟨f, q, locals.set id x⟩ :: frames, charged⟩
  | m => m.halt .stackUnderflow

/-- Enters a function with the top `count` values as its arguments, the callee having been taken
off. The arguments stay on the stack if the call fails. -/
def enter (code : LabelCode) (host : Host) (index count : Nat) (m : LabelMachine) : LabelStep :=
  match code.functions[index]? with
  | none => m.halt .outOfRange
  | some f =>
    let required := m.charged + Frame.cost (f.frameVars code.vars).length
    if f.arity ≠ count then .done (.failed (.routineArity count f.name f.arity), m)
    else if byteLimit ≤ required then m.halt .frameSize
    else if host.budget < required then .done (.failed (.callStack required host.budget), m)
    else
      match splitTop count m.core.stack [] with
      | none => m.halt .stackUnderflow
      | some (args, rest) =>
        let core : Core := ⟨rest, m.core.world⟩
        if Frame.fits (f.frameVars code.vars).length then
          .next { m with
            core
            frames := ⟨index, .start, .ofArgs (f.frameVars code.vars) args⟩ :: m.frames
            charged := required }
        else (m.withCore core).halt .frameSize

/-- Pops the callee and calls it with the `count` values below it. -/
def call (code : LabelCode) (host : Host) (count : Nat) : LabelMachine → LabelStep
  | ⟨⟨.native f :: rest, world⟩, globals, p, frames, charged⟩ =>
    onCore (Core.callNative host f count) ⟨⟨rest, world⟩, globals, p, frames, charged⟩
  | ⟨⟨.function i :: rest, world⟩, globals, p, frames, charged⟩ =>
    enter code host i count ⟨⟨rest, world⟩, globals, p, frames, charged⟩
  | ⟨⟨v :: rest, world⟩, globals, p, frames, charged⟩ =>
    .done (.failed (.notCallable v), ⟨⟨rest, world⟩, globals, p, frames, charged⟩)
  | m => m.halt .stackUnderflow

/-- Leaves the innermost call; its result stays on the stack. -/
def leave (code : LabelCode) : LabelMachine → LabelStep
  | ⟨core, globals, p, a :: frames, charged⟩ =>
    match code.functions[a.function]? with
    | none => halt .outOfRange ⟨core, globals, p, a :: frames, charged⟩
    | some f =>
      .next ⟨core, globals, p, frames, charged - Frame.cost (f.frameVars code.vars).length⟩
  | m => m.halt .returnAtTop

/-- Carries out an instruction of a block; the place has already been moved behind it. -/
def execute (code : LabelCode) (host : Host) (b : Block) (i : Instr) (m : LabelMachine) :
    LabelStep :=
  match i with
  | .pop => m.onCore Core.pop
  | .pushTrue => m.push (.boolean true)
  | .pushFalse => m.push (.boolean false)
  | .pushNull => m.push .null
  | .ret => m.leave code
  | .exit => .done (.atEnd host m.core.world, m)
  | .goto l => m.jump b l
  | .popJumpIfZero l => m.jumpIf b false l
  | .popJumpIfNonzero l => m.jumpIf b true l
  | .binary op => m.onCore (Core.binary op)
  | .unary op => m.onCore (Core.unary op)
  | .number n => m.push (.number n)
  | .string s => m.push (.string s)
  | .makeArray count => m.onCore (Core.makeArray count.toNat)
  | .functionRef index => m.push (.function index)
  | .load id => m.loadVar code.vars id
  | .store id => m.storeVar code.vars id
  | .call count => m.call code host count.toNat
  | .makeFunction => m.onCore (Core.makeFunction code.functions.size)
  | .getIndex => m.onCore Core.getIndex
  | .setIndex => m.onCore Core.setIndex

/-- One step of a run. Behind the last label the top level ends, and a function must not come
there. -/
def step (code : LabelCode) (host : Host) (m : LabelMachine) : LabelStep :=
  match m.block? code with
  | none => m.halt .outOfRange
  | some b =>
    match b.labels[m.here.label]? with
    | none => if m.frames.isEmpty then .done (.atEnd host m.core.world, m) else m.halt .ranPastEnd
    | some l =>
      match l.code[m.here.index]? with
      | none => .next (m.moveTo ⟨m.here.label + 1, 0⟩)
      | some i => execute code host b i (m.moveTo m.here.next)

theorem step_of_instr {code : LabelCode} {host : Host} {m : LabelMachine} {b : Block} {l : Label}
    {i : Instr} (hb : m.block? code = some b) (hl : b.labels[m.here.label]? = some l)
    (hi : l.code[m.here.index]? = some i) :
    m.step code host = execute code host b i (m.moveTo m.here.next) := by
  simp only [step, hb, hl, hi]

theorem step_of_end {code : LabelCode} {host : Host} {m : LabelMachine} {b : Block} {l : Label}
    (hb : m.block? code = some b) (hl : b.labels[m.here.label]? = some l)
    (hi : l.code[m.here.index]? = none) :
    m.step code host = .next (m.moveTo ⟨m.here.label + 1, 0⟩) := by
  simp only [step, hb, hl, hi]

end LabelMachine

/-- The run of a program in label code ends in a machine. -/
def LabelCode.Ends (code : LabelCode) (host : Host) (halt : Halt) (m : LabelMachine) : Prop :=
  Stackscript.Ends (LabelMachine.step code host) .load (halt, m)

end Stackscript
