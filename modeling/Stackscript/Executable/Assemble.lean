import Stackscript.Executable.Basic
import Stackscript.Label.Code
import Stackscript.Native.Table

/-!
# Assembly

Label code becomes bytecode in two passes over each block. The first drafts every instruction:
variables get slots, strings and function references get entries of the constant pool, and jumps
still name labels. The second lays the drafts out and fills in the addresses. A jump at the end of
a label to the label that follows needs no instruction. Writing zero addresses first and inserting
the right ones into the chunk gives the same (`Block.assemblePatched_eq`).

* `AssemblyFault`, `AssemblyFault.message?`;
* `Slots`, the tables that drafting fills; `Draft`, an instruction whose jump target is open;
* `draft`, `Block.layout`, `labelOffsets`, `Block.assemble`;
* `LabelCode.assemble`.
-/

namespace Stackscript

/-- Why label code cannot be assembled. -/
inductive AssemblyFault where
  | unboundLabel (l : LabelId)
  | localAtTop (name : String)
  | storeToNative (name : String)
  | unknownNative (name : String)
  | unknownVariable (id : VarId)
deriving DecidableEq

/-- The wording of an assembly fault, if it has one. -/
def AssemblyFault.message? : AssemblyFault → Option String
  | .unboundLabel l => some ("internal error: jump to unbound label " ++ LabelId.text l)
  | .localAtTop name =>
    some ("internal error: local variable \"" ++ name ++ "\" used in top-level code")
  | .storeToNative name => some ("internal error: store to native \"" ++ name ++ "\"")
  | .unknownNative name => some ("internal error: unknown native \"" ++ name ++ "\"")
  | .unknownVariable _ => none

/-- The tables that drafting fills. The position of an entry is its slot. -/
structure Slots where
  constants : Array Value
  globals : Array VarId
  /-- The variables of the function being drafted; there are none at the top level. -/
  locals : Option (Array VarId)
deriving DecidableEq

/-- The slot of a variable in a table, which gets a new one at its first use. -/
def slotOf (table : Array VarId) (id : VarId) : Nat × Array VarId :=
  match table.idxOf? id with
  | some slot => (slot, table)
  | none => (table.size, table.push id)

/-- An instruction whose jump target, if it has one, is still a label. -/
inductive Draft where
  | plain (op : Op)
  | goto (target : LabelId)
  | popJumpIfZero (target : LabelId)
  | popJumpIfNonzero (target : LabelId)
deriving DecidableEq

namespace Draft

/-- The number of bytes of the instruction. -/
def size : Draft → Nat
  | .plain op => op.size
  | .goto _ => (Op.goto 0).size
  | .popJumpIfZero _ => (Op.popJumpIfZero 0).size
  | .popJumpIfNonzero _ => (Op.popJumpIfNonzero 0).size

/-- A jump to a label, which has to stand at some offset. -/
def address (offsets : List (LabelId × Nat)) (l : LabelId) (make : UInt32 → Op) :
    Except AssemblyFault Op :=
  match offsets.lookup l with
  | some offset => .ok (make (UInt32.ofNat offset))
  | none => .error (.unboundLabel l)

/-- The instruction with the address of its target. -/
def resolve (offsets : List (LabelId × Nat)) : Draft → Except AssemblyFault Op
  | .plain op => .ok op
  | .goto l => address offsets l Op.goto
  | .popJumpIfZero l => address offsets l Op.popJumpIfZero
  | .popJumpIfNonzero l => address offsets l Op.popJumpIfNonzero

end Draft

/-- Drafts the push of a constant, which gets an entry of its own in the pool. -/
def draftConstant (v : Value) (s : Slots) : Draft × Slots :=
  (.plain (.loadConst (UInt32.ofNat s.constants.size)), { s with constants := s.constants.push v })

/-- Drafts a use of a variable that is kept globally or in frames. -/
def draftVariable (v : Variable) (id : VarId) (global frame : UInt32 → Op) (s : Slots) :
    Except AssemblyFault (Draft × Slots) :=
  if v.storage.isGlobal then
    let (slot, globals) := slotOf s.globals id
    .ok (.plain (global (UInt32.ofNat slot)), { s with globals })
  else
    match s.locals with
    | none => .error (.localAtTop v.name)
    | some locals =>
      let (slot, locals) := slotOf locals id
      .ok (.plain (frame (UInt32.ofNat slot)), { s with locals := some locals })

/-- Drafts the read of a variable. -/
def draftLoad (vars : Array Variable) (id : VarId) (s : Slots) :
    Except AssemblyFault (Draft × Slots) :=
  match vars[id]? with
  | none => .error (.unknownVariable id)
  | some v =>
    if v.storage = .native then
      match NativeEntry.slot? v.name with
      | some slot => .ok (.plain (.loadNative (UInt32.ofNat slot)), s)
      | none => .error (.unknownNative v.name)
    else draftVariable v id Op.loadGlobal Op.loadFrameVar s

/-- Drafts the write of a variable. -/
def draftStore (vars : Array Variable) (id : VarId) (s : Slots) :
    Except AssemblyFault (Draft × Slots) :=
  match vars[id]? with
  | none => .error (.unknownVariable id)
  | some v =>
    if v.storage = .native then .error (.storeToNative v.name)
    else draftVariable v id Op.storeGlobal Op.storeFrameVar s

/-- Drafts an instruction. -/
def draft (vars : Array Variable) (i : Instr) (s : Slots) :
    Except AssemblyFault (Draft × Slots) :=
  match i with
  | .pop => .ok (.plain .pop, s)
  | .pushTrue => .ok (.plain .pushTrue, s)
  | .pushFalse => .ok (.plain .pushFalse, s)
  | .pushNull => .ok (.plain .pushNull, s)
  | .ret => .ok (.plain .ret, s)
  | .exit => .ok (.plain .exit, s)
  | .goto l => .ok (.goto l, s)
  | .popJumpIfZero l => .ok (.popJumpIfZero l, s)
  | .popJumpIfNonzero l => .ok (.popJumpIfNonzero l, s)
  | .binary op => .ok (.plain (.binary op), s)
  | .unary op => .ok (.plain (.unary op), s)
  | .number n => .ok (.plain (.number n), s)
  | .string text => .ok (draftConstant (.string text) s)
  | .makeArray count => .ok (.plain (.makeArray count), s)
  | .functionRef index => .ok (draftConstant (.function index) s)
  | .load id => draftLoad vars id s
  | .store id => draftStore vars id s
  | .call count => .ok (.plain (.call count), s)
  | .makeFunction => .ok (.plain .makeFunction, s)
  | .getIndex => .ok (.plain .getIndex, s)
  | .setIndex => .ok (.plain .setIndex, s)

/-- Drafts a list of instructions in order. -/
def draftAll (vars : Array Variable) :
    List Instr → Slots → Except AssemblyFault (List Draft × Slots)
  | [], s => .ok ([], s)
  | i :: is, s => do
    let (d, s) ← draft vars i s
    let (ds, s) ← draftAll vars is s
    return (d :: ds, s)

/-- The instructions of a label that are laid out: all but a last jump to the label that follows. -/
def Label.laidOut (next : Option LabelId) (l : Label) : List Instr :=
  match l.code.back? with
  | some (.goto target) => if next = some target then l.code.pop.toList else l.code.toList
  | _ => l.code.toList

/-- The labels in layout order, each with the instructions that are laid out. -/
def layout : List Label → List (LabelId × List Instr)
  | [] => []
  | l :: ls => (l.id, l.laidOut (ls.head?.map (·.id))) :: layout ls

/-- Drafts the labels of a block in order. -/
def draftLabels (vars : Array Variable) :
    List (LabelId × List Instr) → Slots → Except AssemblyFault (List (LabelId × List Draft) × Slots)
  | [], s => .ok ([], s)
  | (l, code) :: ls, s => do
    let (ds, s) ← draftAll vars code s
    let (rest, s) ← draftLabels vars ls s
    return ((l, ds) :: rest, s)

/-- The number of bytes of a list of instructions. -/
def draftsSize : List Draft → Nat
  | [] => 0
  | d :: ds => d.size + draftsSize ds

/-- The offsets at which labels start, the last label first. -/
def labelOffsets (start : Nat) (seen : List (LabelId × Nat)) :
    List (LabelId × List Draft) → List (LabelId × Nat)
  | [] => seen
  | (l, ds) :: ls => labelOffsets (start + draftsSize ds) ((l, start) :: seen) ls

/-- The chunk of a block, and the tables after drafting it. -/
def Block.assemble (vars : Array Variable) (order : ByteOrder) (b : Block) (s : Slots) :
    Except AssemblyFault (Chunk × Slots) := do
  let (drafts, s) ← draftLabels vars (layout b.labels.toList) s
  let offsets := labelOffsets 0 [] drafts
  let ops ← (drafts.flatMap (·.2)).mapM (Draft.resolve offsets)
  return (Chunk.ofOps order ops, s)

namespace LabelFunction

/-- The slots of parameters: every variable once, in order. -/
def parameterSlots (parameters : List VarId) : Array VarId :=
  parameters.foldl (fun table id => (slotOf table id).2) #[]

/-- The routine of a function, and the tables after drafting it. -/
def assemble (vars : Array Variable) (order : ByteOrder) (f : LabelFunction) (s : Slots) :
    Except AssemblyFault (Routine × Slots) := do
  let (chunk, s) ← f.block.assemble vars order
    { s with locals := some (parameterSlots f.parameters) }
  return (⟨f.name, chunk, f.arity, (s.locals.getD #[]).size⟩, s)

/-- The routines of a list of functions in order. -/
def assembleAll (vars : Array Variable) (order : ByteOrder) :
    List LabelFunction → Slots → Except AssemblyFault (List Routine × Slots)
  | [], s => .ok ([], s)
  | f :: fs, s => do
    let (r, s) ← f.assemble vars order s
    let (rs, s) ← assembleAll vars order fs s
    return (r :: rs, s)

end LabelFunction

/-- The executable of a program in label code. -/
def LabelCode.assemble (code : LabelCode) (order : ByteOrder) :
    Except AssemblyFault Executable := do
  let (main, s) ← code.main.assemble code.vars order ⟨#[], #[], none⟩
  let (routines, s) ← LabelFunction.assembleAll code.vars order code.functions.toList s
  return {
    main
    routines := routines.toArray
    constants := s.constants
    globals := s.globals.map fun id => (code.vars[id]?.map (·.name)).getD "" }

end Stackscript
