import Stackscript.Label.Builder
import Stackscript.Tree.Basic

/-!
# Label code of a program

Expressions leave their value on the operand stack, statements leave it as it was. Operands are
evaluated from left to right, the arguments of a call before the callee. Conditions become jumps
over labels, and every function gets a block of its own.

* `Expr.literalKind?`, `checkIndexable`;
* `Expr.lower`, `Stmt.lower`;
* `LabelCode.ofProgram`.
-/

namespace Stackscript

/-- The kind of literal that an expression is, if it is one. -/
def Expr.literalKind? : Expr → Option LiteralKind
  | .number .. => some .number
  | .string .. => some .string
  | .boolean .. => some .boolean
  | .null .. => some .null
  | .array .. => some .array
  | _ => none

namespace Lower

/-- Refuses to index a literal that has no elements. -/
def checkIndexable (object : Expr) : Lower Unit :=
  match object.literalKind? with
  | some .number => fail object.span (.indexedLiteral .number)
  | some .boolean => fail object.span (.indexedLiteral .boolean)
  | some .null => fail object.span (.indexedLiteral .null)
  | _ => pure ()

/-- Refuses to call a literal, or to pass more arguments than a call can carry. -/
def checkCall (span : Span) (callee : Expr) (args : List Expr) : Lower Unit :=
  match callee.literalKind? with
  | some kind => fail callee.span (.calledLiteral kind)
  | none =>
    if maxArguments < args.length then fail span (.tooManyArguments args.length) else pure ()

mutual

/-- Lowers an expression. -/
def expr : Expr → Lower Unit
  | .number _ n => emit (.number n)
  | .string _ s => emit (.string s)
  | .boolean _ true => emit .pushTrue
  | .boolean _ false => emit .pushFalse
  | .null _ => emit .pushNull
  | .array _ items => do
    exprs items
    emit (.makeArray (UInt32.ofNat items.length))
  | .ident span name => do
    let (id, _) ← resolve name span
    emit (.load id)
  | .binary _ op left right => do
    expr left
    expr right
    emit (.binary op)
  | .unary _ op arg => do
    expr arg
    emit (.unary op)
  | .cond _ test yes no => do
    expr test
    let otherwise ← reserve
    let stop ← reserve
    emit (.popJumpIfZero otherwise)
    let _ ← fresh
    expr yes
    emit (.goto stop)
    bind otherwise
    expr no
    bind stop
  | .assign _ target value => do
    let (id, v) ← resolve target.val target.span
    if v.storage.isConstant then fail target.span (.constantAssignment target.val)
    else
      expr value
      emit (.store id)
      emit (.load id)
  | .assignAt _ _ object position value => do
    checkIndexable object
    expr object
    expr position
    expr value
    emit .setIndex
  | .index _ object position => do
    checkIndexable object
    expr object
    expr position
    emit .getIndex
  | .call span callee args => do
    checkCall span callee args
    exprs args
    expr callee
    emit (.call (UInt8.ofNat args.length))

/-- Lowers expressions from left to right. -/
def exprs : List Expr → Lower Unit
  | [] => pure ()
  | e :: es => do
    expr e
    exprs es

end

/-- Lowers the value that a variable starts with, null if none is given. -/
def initialValue : Option Expr → Lower Unit
  | some e => expr e
  | none => emit .pushNull

/-- Declares a variable and stores the value on the stack in it. -/
def declareAndStore (name : Located String) (constant : Bool) : Lower Unit := do
  let id ← declare name constant
  emit (.store id)

/-- Declares the parameters of a function. A parameter that cannot be declared is recorded and left
out. -/
def parameters (owner : Nat) : List (Located String) → Lower (List VarId)
  | [] => pure []
  | p :: ps => fun b =>
    match declareAs p .functionMutable (some owner) b with
    | .ok id b => ((id :: ·) <$> parameters owner ps) b
    | .error e b => (do record e; parameters owner ps) b

/-- The statement is a return statement. -/
def isReturn : Stmt → Bool
  | .return .. => true
  | _ => false

/-- Starts a function: its entry in the table of functions, and the code that makes its value. The
result is its index. -/
def beginFunction (name : Located String) (params : List (Located String)) : Lower Nat := do
  let id ← declare name true
  if maxArguments < params.length then
    fail name.span (.tooManyParameters name.val params.length)
  else
    let index := (← get).functions.size
    modify fun b => { b with functions := b.functions.push ⟨name.val, [], .empty⟩ }
    emit (.functionRef index)
    emit .makeFunction
    emit (.store id)
    return index

/-- Carries out an action that lowers the body of a function in a block of its own, and enters the
block and the parameters that the action returns into the table of functions. -/
def inFunction (index : Nat) (action : Lower (List VarId)) : Lower Unit := do
  let outer ← get
  set { outer with block := .empty, function := some index }
  let params ← inScope .function action
  modify fun b => { b with
    block := outer.block
    function := outer.function
    functions := b.functions.modify index fun f =>
      { f with parameters := params, block := b.block } }

mutual

/-- Lowers a statement. -/
def stmt : Stmt → Lower Unit
  | .var name init => do
    initialValue init
    declareAndStore name false
  | .const name init => do
    expr init
    declareAndStore name true
  | .function name params body => do
    let index ← beginFunction name params
    inFunction index do
      let ids ← parameters index params
      stmts body
      if body.getLast?.any isReturn then return ids
      else
        emit .pushNull
        emit .ret
        return ids
  | .expr e => do
    expr e
    emit .pop
  | .block body => inScope .normal (stmts body)
  | .ifThen test yes => do
    expr test
    let otherwise ← reserve
    emit (.popJumpIfZero otherwise)
    let _ ← fresh
    stmt yes
    bind otherwise
  | .ifElse test yes no => do
    expr test
    let otherwise ← reserve
    emit (.popJumpIfZero otherwise)
    let _ ← fresh
    stmt yes
    let stop ← reserve
    emit (.goto stop)
    bind otherwise
    stmt no
    bind stop
  | .while test body => do
    let stop ← reserve
    let condition ← fresh
    expr test
    emit (.popJumpIfZero stop)
    let _ ← fresh
    inScope (.loop condition stop) (stmt body)
    emit (.goto condition)
    bind stop
  | .return value span => do
    if (← get).scopes.inFunction then
      initialValue value
      emit .ret
    else fail span .returnOutside
  | .break span => do
    match (← get).scopes.enclosingLoop? with
    | some (_, stop) => emit (.goto stop)
    | none => fail span .breakOutside
  | .continue span => do
    match (← get).scopes.enclosingLoop? with
    | some (condition, _) => emit (.goto condition)
    | none => fail span .continueOutside
  | .empty => pure ()

/-- Lowers statements in order, recording the errors of those that fail. -/
def stmts : List Stmt → Lower Unit
  | [] => pure ()
  | s :: ss => do
    recording (stmt s)
    stmts ss

end

/-- Lowers a program; at its end the run ends. -/
def program (p : Program) : Lower Unit := do
  inScope .normal (stmts p)
  let _ ← fresh
  emit .exit

end Lower

/-- The label code of a program, or what is wrong with it. Variables, functions and the labels of a
function are numbered without a bound. -/
def LabelCode.ofProgram (p : Program) : Except (List (Located StaticError)) LabelCode :=
  match Lower.program p .initial with
  | .ok () b =>
    if b.errors.isEmpty then .ok ⟨b.block, b.functions, b.scopes.vars⟩
    else .error b.errors.reverse
  | .error e b => .error (e :: b.errors).reverse

end Stackscript
