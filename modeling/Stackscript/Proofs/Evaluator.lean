import Stackscript.Tree.Basic
import Stackscript.Proofs.LabelMachine
import Stackscript.Proofs.Lists

/-!
# Evaluation of syntax trees

Programs run as they stand, without being lowered. A name is resolved lexically to a cell; there is
one cell for every declaration, and one for every call of the function that the declaration stands
in. All cells are null at first. Operands are evaluated from left to right, the arguments of a call
before the callee, and loops, jumps out of them and returns are carried by the signals of
statements.

* `Cell`, `Names`, `Stmt.after`: which names are known at a point of a program;
* `FunctionDef`, `Stmt.functions`, `Stmt.declared`: the functions and variables of a statement;
* `Memory`, `Interrupt`, `Eval`, `Signal`;
* `Eval.expr`, `Eval.stmt`, `Eval.invoke`;
* `Observation`, `Program.evaluate`, `Program.Ends`.
-/

namespace Stackscript

/-! ## Names -/

/-- Where the value of a name is kept. -/
inductive Cell where
  /-- An entry of the native table. -/
  | native (slot : Nat)
  /-- A variable declared outside all functions. -/
  | shared (id : VarId)
  /-- A variable of the calls of a function. -/
  | own (function : Nat) (id : VarId)
deriving DecidableEq

/-- The number of the variable; the natives come before all that is declared. -/
def Cell.id : Cell → VarId
  | .native slot => slot
  | .shared id => id
  | .own _ id => id

/-- What is known at a point of a program. Declarations and functions are numbered in the order in
which they stand in the text. -/
structure Names where
  /-- The names in scope, innermost first. -/
  bound : List (String × Cell)
  /-- The function whose body the point stands in. -/
  function : Option Nat
  nextVar : VarId
  nextFunction : Nat
deriving DecidableEq

namespace Names

/-- The start of a program. -/
def top : Names := ⟨[], none, NativeEntry.table.size, 0⟩

/-- The cell that a name stands for. -/
def lookup? (n : Names) (name : String) : Option Cell :=
  (n.bound.lookup name).or ((NativeEntry.slot? name).map .native)

/-- The cell of the next declaration. -/
def cell (n : Names) : Cell :=
  match n.function with
  | none => .shared n.nextVar
  | some f => .own f n.nextVar

/-- A name is declared. -/
def declare (n : Names) (name : String) : Names :=
  { n with bound := (name, n.cell) :: n.bound, nextVar := n.nextVar + 1 }

/-- Names are declared in order. -/
def declareAll (n : Names) (names : List (Located String)) : Names :=
  names.foldl (fun n name => n.declare name.val) n

/-- The end of a scope: what was declared in it is forgotten, but its numbers stay used. -/
def resume (n inner : Names) : Names :=
  { n with nextVar := inner.nextVar, nextFunction := inner.nextFunction }

/-- The next function. -/
def inNext (n : Names) : Names :=
  { n with function := some n.nextFunction, nextFunction := n.nextFunction + 1 }

/-- The body of the next function, with its parameters declared. -/
def enter (n : Names) (params : List (Located String)) : Names := n.inNext.declareAll params

end Names

mutual

/-- What is known after a statement. -/
def Stmt.after (n : Names) : Stmt → Names
  | .var name _ => n.declare name.val
  | .const name _ => n.declare name.val
  | .function name params body =>
    (n.declare name.val).resume (Stmt.afterAll ((n.declare name.val).enter params) body)
  | .block body => n.resume (Stmt.afterAll n body)
  | .ifThen _ yes => yes.after n
  | .ifElse _ yes no => no.after (yes.after n)
  | .while _ body => n.resume (body.after n)
  | .expr _ | .return .. | .break _ | .continue _ | .empty => n

/-- What is known after statements. -/
def Stmt.afterAll (n : Names) : List Stmt → Names
  | [] => n
  | s :: ss => Stmt.afterAll (s.after n) ss

end

mutual

/-- The variables that a statement declares, those of inner functions left out. -/
def Stmt.declared (n : Names) : Stmt → List (String × VarId)
  | .var name _ | .const name _ | .function name _ _ => [(name.val, n.nextVar)]
  | .block body => Stmt.declaredAll n body
  | .ifThen _ yes => yes.declared n
  | .ifElse _ yes no => yes.declared n ++ no.declared (yes.after n)
  | .while _ body => body.declared n
  | .expr _ | .return .. | .break _ | .continue _ | .empty => []

/-- The variables that statements declare, those of inner functions left out. -/
def Stmt.declaredAll (n : Names) : List Stmt → List (String × VarId)
  | [] => []
  | s :: ss => s.declared n ++ Stmt.declaredAll (s.after n) ss

end

/-- A function as it stands in the text. -/
structure FunctionDef where
  name : String
  params : List (Located String)
  body : List Stmt
  /-- What is known at its declaration, its own name included. -/
  names : Names

namespace FunctionDef

/-- What is known at the start of the body. -/
def inner (f : FunctionDef) : Names := f.names.enter f.params

/-- The numbers of the parameters. -/
def paramIds (f : FunctionDef) : List VarId := List.range' f.names.nextVar f.params.length

/-- The number of variables of a call: the parameters and what the body declares. -/
def cells (f : FunctionDef) : Nat := f.params.length + (Stmt.declaredAll f.inner f.body).length

end FunctionDef

mutual

/-- The functions of a statement in the order in which they stand in the text. -/
def Stmt.functions (n : Names) : Stmt → List FunctionDef
  | .function name params body =>
    ⟨name.val, params, body, n.declare name.val⟩ ::
      Stmt.functionsAll ((n.declare name.val).enter params) body
  | .block body => Stmt.functionsAll n body
  | .ifThen _ yes => yes.functions n
  | .ifElse _ yes no => yes.functions n ++ no.functions (yes.after n)
  | .while _ body => body.functions n
  | .var .. | .const .. | .expr _ | .return .. | .break _ | .continue _ | .empty => []

/-- The functions of statements in the order in which they stand in the text. -/
def Stmt.functionsAll (n : Names) : List Stmt → List FunctionDef
  | [] => []
  | s :: ss => s.functions n ++ Stmt.functionsAll (s.after n) ss

end

/-! ## Evaluation -/

/-- What an evaluation reads and changes: the world, the variables of the program and those of the
innermost call. -/
structure Memory where
  world : World
  globals : Store
  own : Store

namespace Memory

/-- The memory before anything is evaluated. -/
def fresh : Memory := ⟨.fresh, .fresh, .fresh⟩

/-- The value of a cell. -/
def read (s : Memory) : Cell → Value
  | .native slot => (NativeEntry.table[slot]?.map (·.value)).getD .null
  | .shared id => s.globals id
  | .own _ id => s.own id

/-- The memory after a cell has been written; the native table stays as it is. -/
def write (s : Memory) (v : Value) : Cell → Memory
  | .native _ => s
  | .shared id => { s with globals := s.globals.set id v }
  | .own _ id => { s with own := s.own.set id v }

/-- The memory with another heap. -/
def withHeap (s : Memory) (heap : Heap) : Memory := { s with world := { s.world with heap } }

end Memory

/-- Why an evaluation has no result. -/
inductive Interrupt where
  /-- The program has ended; the calls that were active, innermost first. -/
  | halted (halt : Halt) (calls : List String)
  | outOfFuel
deriving DecidableEq

/-- An evaluation. -/
abbrev Eval := EStateM Interrupt Memory

/-- How a statement is left. -/
inductive Signal where
  | normal
  | broken
  | continued
  | returned (v : Value)
deriving DecidableEq

/-- The result of a call whose body is left so. -/
def Signal.value : Signal → Value
  | .returned v => v
  | _ => .null

namespace Eval

/-- The program ends. -/
def halt {α : Type} (h : Halt) : Eval α := throw (.halted h [])

/-- The program fails. -/
def fail {α : Type} (e : Failure) : Eval α := halt (.failed e)

/-- The cell that a name stands for. -/
def resolve (n : Names) (name : String) : Eval Cell :=
  match n.lookup? name with
  | some c => pure c
  | none => halt (.fault .outOfRange)

/-- The value of a cell. -/
def read (c : Cell) : Eval Value := fun s => .ok (s.read c) s

/-- Writes a cell. -/
def write (c : Cell) (v : Value) : Eval Unit := fun s => .ok () (s.write v c)

/-- The result of an operation. -/
def operation (r : Heap → Except OperationError Value) : Eval Value := fun s =>
  match r s.world.heap with
  | .ok v => .ok v s
  | .error e => fail (.operation e) s

/-- The truth value of a value. -/
def truth (v : Value) : Eval Bool := fun s => .ok (s.world.heap.truthy v) s

/-- A new array. -/
def newArray (items : List Value) : Eval Value := fun s =>
  let (r, heap) := s.world.heap.alloc items.toArray
  .ok (.array r) (s.withHeap heap)

/-- Writes an element. -/
def writeElement (target index value : Value) : Eval Value := fun s =>
  match s.world.heap.setIndex target index value with
  | .done heap => .ok value (s.withHeap heap)
  | .failed e => fail (.operation e) s
  | .overlap => halt (.fault .overlap) s

/-- Calls a native. -/
def callNative (host : Host) (f : Native) (args : List Value) : Eval Value := fun s =>
  if f.arity ≠ args.length then fail (.nativeArity args.length f.arity) s
  else
    match f.call host args s.world with
    | (.ok v, world) => .ok v { s with world }
    | (.error e, world) => fail (.native e) { s with world }

/-- Evaluates the body of a call with variables of its own. -/
def inCall (name : String) (own : Store) (body : Eval Signal) : Eval Value := fun s =>
  match body { s with own } with
  | .ok signal s' => .ok signal.value { s' with own := s.own }
  | .error (.halted h calls) s' => .error (.halted h (calls ++ [name])) s'
  | .error .outOfFuel s' => .error .outOfFuel s'

/-- Repeats a body as long as a test holds. -/
def loop (test : Eval Bool) (body : Eval Signal) : (fuel : Nat) → Eval Signal
  | 0 => throw .outOfFuel
  | fuel + 1 => do
    if ← test then
      match ← body with
      | .normal | .continued => loop test body fuel
      | .broken => return .normal
      | .returned v => return .returned v
    else return .normal

section Trees

variable (call : Value → List Value → Eval Value)

mutual

/-- Evaluates an expression. -/
def expr (n : Names) : Expr → Eval Value
  | .number _ x => return .number x
  | .string _ s => return .string s
  | .boolean _ b => return .boolean b
  | .null _ => return .null
  | .array _ items => do newArray (← exprs n items)
  | .ident _ name => do read (← resolve n name)
  | .binary _ op left right => do
    let x ← expr n left
    let y ← expr n right
    operation fun _ => x.binary op y
  | .unary _ op arg => do
    let x ← expr n arg
    operation fun h => h.unary op x
  | .cond _ test yes no => do
    if ← truth (← expr n test) then expr n yes else expr n no
  | .assign _ target value => do
    let c ← resolve n target.val
    let v ← expr n value
    write c v
    return v
  | .assignAt _ _ object position value => do
    let target ← expr n object
    let index ← expr n position
    let v ← expr n value
    writeElement target index v
  | .index _ object position => do
    let target ← expr n object
    let index ← expr n position
    operation fun h => h.getIndex target index
  | .call _ callee args => do
    let values ← exprs n args
    call (← expr n callee) values

/-- Evaluates expressions from left to right. -/
def exprs (n : Names) : List Expr → Eval (List Value)
  | [] => return []
  | e :: es => do
    let v ← expr n e
    return v :: (← exprs n es)

end

/-- Evaluates an expression, null if there is none. -/
def optional (n : Names) : Option Expr → Eval Value
  | some e => expr call n e
  | none => return .null

mutual

/-- Evaluates a statement. A loop may be repeated `fuel` times. -/
def stmt (fuel : Nat) (n : Names) : Stmt → Eval Signal
  | .var _ init => do
    write n.cell (← optional call n init)
    return .normal
  | .const _ init => do
    write n.cell (← expr call n init)
    return .normal
  | .function .. => do
    write n.cell (.function n.nextFunction)
    return .normal
  | .expr e => do
    let _ ← expr call n e
    return .normal
  | .block body => stmts fuel n body
  | .ifThen test yes => do
    if ← truth (← expr call n test) then stmt fuel n yes else return .normal
  | .ifElse test yes no => do
    if ← truth (← expr call n test) then stmt fuel n yes else stmt fuel (yes.after n) no
  | .while test body => loop (do truth (← expr call n test)) (stmt fuel n body) fuel
  | .return value _ => do return .returned (← optional call n value)
  | .break _ => return .broken
  | .continue _ => return .continued
  | .empty => return .normal

/-- Evaluates statements in order, as long as they are left normally. -/
def stmts (fuel : Nat) (n : Names) : List Stmt → Eval Signal
  | [] => return .normal
  | s :: ss => do
    match ← stmt fuel n s with
    | .normal => stmts fuel (s.after n) ss
    | signal => return signal

end

end Trees

/-- Calls a value, given the bytes that are charged for the active calls. Calls may be nested `fuel`
deep. -/
def invoke (functions : List FunctionDef) (host : Host) : (fuel charged : Nat) → Value →
    List Value → Eval Value
  | 0, _, _, _ => throw .outOfFuel
  | _ + 1, _, .native f, args => callNative host f args
  | fuel + 1, charged, .function i, args =>
    match functions[i]? with
    | none => halt (.fault .outOfRange)
    | some f =>
      let required := charged + Frame.cost f.cells
      if f.params.length ≠ args.length then
        fail (.routineArity args.length f.name f.params.length)
      else if byteLimit ≤ required then halt (.fault .frameSize)
      else if host.budget < required then fail (.callStack required host.budget)
      else
        inCall f.name (.ofArgs f.paramIds args)
          (stmts (invoke functions host fuel required) fuel f.inner f.body)
  | _ + 1, _, v, _ => fail (.notCallable v)

end Eval

/-! ## Programs -/

/-- What can be observed of a run that has ended. -/
structure Observation where
  halt : Halt
  /-- The names of the calls that were active, innermost first. -/
  calls : List String
  world : World
  /-- The variables declared outside all functions, in the order of their declarations. -/
  globals : List (String × Value)
deriving DecidableEq

namespace Program

/-- The functions of a program in the order in which they stand in the text. -/
def functions (p : Program) : List FunctionDef := Stmt.functionsAll .top p

/-- The variables that a program declares outside all functions. -/
def globals (p : Program) : List (String × VarId) := Stmt.declaredAll .top p

/-- What is observed when the evaluation of a program ends in a memory. -/
def observe (p : Program) (halt : Halt) (calls : List String) (s : Memory) : Observation :=
  ⟨halt, calls, s.world, p.globals.map fun (name, id) => (name, s.globals id)⟩

/-- Evaluates a program; at its end the output is flushed. There is no result if fuel runs out. -/
def evaluate (p : Program) (host : Host) (fuel : Nat) : Option Observation :=
  match Eval.stmts (Eval.invoke p.functions host fuel 0) fuel .top p .fresh with
  | .ok _ s => some (p.observe (.atEnd host s.world) [] s)
  | .error (.halted halt calls) s => some (p.observe halt calls s)
  | .error .outOfFuel _ => none

/-- The evaluation of a program ends. -/
def Ends (p : Program) (host : Host) (o : Observation) : Prop :=
  ∃ fuel, p.evaluate host fuel = some o

end Program

/-- What is observed when the run of an executable ends in a machine. -/
def Machine.observe (exe : Executable) (halt : Halt) (v : Machine) : Observation :=
  ⟨halt, v.activeNames exe, v.core.world, exe.globals.toList.zip v.globals.toList⟩

end Stackscript
