import Stackscript.Label.Code
import Stackscript.Label.Scope
import Stackscript.Source.Span

/-!
# Building label code

The state in which a tree is lowered to label code, and the actions on it. An action that fails
leaves the state as far as it got, so that lowering can go on with the next statement.

* `LiteralKind`, `StaticError`, `StaticError.message`;
* `Builder`, `Lower`;
* `Lower.emit`, `reserve`, `fresh`, `bind`, `inScope`, `recording`, `declare`, `resolve`.
-/

namespace Stackscript

/-- The kinds of literal that messages name. -/
inductive LiteralKind where
  | number
  | string
  | boolean
  | null
  | array
deriving DecidableEq

/-- The name of a kind of literal. -/
def LiteralKind.name : LiteralKind → String
  | .number => "number"
  | .string => "string"
  | .boolean => "boolean"
  | .null => "null"
  | .array => "array"

/-- The largest number of arguments and of parameters. -/
def maxArguments : Nat := 255

/-- What is wrong with a program that is well formed as a tree. -/
inductive StaticError where
  | declare (e : DeclareError)
  | unknownVariable (name : String)
  /-- The variable belongs to an outer function, or to a block outside all functions. -/
  | captured (name : String) (byFunction : Bool)
  | tooManyParameters (name : String) (count : Nat)
  | tooManyArguments (count : Nat)
  | constantAssignment (name : String)
  | calledLiteral (kind : LiteralKind)
  | indexedLiteral (kind : LiteralKind)
  | returnOutside
  | breakOutside
  | continueOutside
deriving DecidableEq

/-- The wording of a static error. -/
def StaticError.message : StaticError → String
  | .declare e => e.message
  | .unknownVariable name => "Variable \"" ++ name ++ "\" does not exist."
  | .captured name byFunction =>
    "Variable \"" ++ name ++ "\" belongs to " ++
      (if byFunction then "an enclosing function" else "an enclosing block of top-level code") ++
      "; closures are not supported."
  | .tooManyParameters name count =>
    "Function \"" ++ name ++ "\" declares " ++ toString count ++ " parameters; the limit is " ++
      toString maxArguments ++ "."
  | .tooManyArguments count =>
    "A call may pass at most " ++ toString maxArguments ++ " arguments, found " ++ toString count ++
      "."
  | .constantAssignment name => "Cannot assign a value to constant variable \"" ++ name ++ "\""
  | .calledLiteral kind => "Cannot call a " ++ kind.name ++ " literal."
  | .indexedLiteral kind => "Cannot index a " ++ kind.name ++ " literal."
  | .returnOutside => "A return statement may only appear in a function."
  | .breakOutside => "A break statement may only appear in a loop."
  | .continueOutside => "A continue statement may only appear in a loop."

/-- The state in which a tree is lowered. -/
structure Builder where
  scopes : ScopeTable
  /-- The block that receives instructions. -/
  block : Block
  /-- The function that is being lowered, if it is not the top level. -/
  function : Option Nat
  /-- The functions declared so far. -/
  functions : Array LabelFunction
  /-- The errors recorded so far, latest first. -/
  errors : List (Located StaticError)
deriving DecidableEq, Inhabited

/-- The state before anything is lowered. -/
def Builder.initial : Builder := ⟨.initial, .empty, none, #[], []⟩

/-- An action of lowering. -/
abbrev Lower := EStateM (Located StaticError) Builder

namespace Lower

/-- Fails with an error. -/
def fail {α : Type} (span : Span) (e : StaticError) : Lower α := throw ⟨span, e⟩

/-- Adds an instruction. -/
def emit (i : Instr) : Lower Unit := modify fun b => { b with block := b.block.add i }

/-- Reserves a label name. -/
def reserve : Lower LabelId := modifyGet fun b =>
  let (id, block) := b.block.reserve
  (id, { b with block })

/-- Starts a label of a new name. -/
def fresh : Lower LabelId := modifyGet fun b =>
  let (id, block) := b.block.fresh
  (id, { b with block })

/-- Starts the label of a given name. -/
def bind (id : LabelId) : Lower Unit := modify fun b => { b with block := b.block.bind id }

/-- Carries out an action inside a scope, which is closed also if the action fails. -/
def inScope {α : Type} (kind : ScopeKind) (action : Lower α) : Lower α := fun b =>
  match action { b with scopes := b.scopes.enter kind } with
  | .ok a b => .ok a { b with scopes := b.scopes.leave }
  | .error e b => .error e { b with scopes := b.scopes.leave }

/-- Records an error. -/
def record (e : Located StaticError) : Lower Unit :=
  modify fun b => { b with errors := e :: b.errors }

/-- Carries out an action and records its error if it fails. -/
def recording (action : Lower Unit) : Lower Unit := fun b =>
  match action b with
  | .ok () b => .ok () b
  | .error e b => record e b

/-- Declares a variable in the innermost scope. -/
def declareAs (name : Located String) (storage : Storage) (owner : Option Nat) : Lower VarId := do
  let b ← get
  match b.scopes.declare name.val storage owner with
  | .ok (id, scopes) =>
    set { b with scopes }
    return id
  | .error e => fail name.span (.declare e)

/-- Declares a constant or a variable; where it is kept depends on whether a function is being
lowered. -/
def declare (name : Located String) (constant : Bool) : Lower VarId := do
  let b ← get
  let storage : Storage :=
    match b.scopes.inFunction, constant with
    | false, true => .globalConstant
    | false, false => .globalMutable
    | true, true => .functionConstant
    | true, false => .functionMutable
  declareAs name storage b.function

/-- The variable `v` cannot be reached from the function that is being lowered. -/
def isCaptured (function : Option Nat) (v : Variable) : Bool :=
  v.storage != .native && v.owner != function && decide (0 < v.scopeIndex)

/-- The variable that a name stands for. Variables of outer functions cannot be used. -/
def resolve (name : String) (span : Span) : Lower (VarId × Variable) := do
  let b ← get
  match b.scopes.lookup? name with
  | none => fail span (.unknownVariable name)
  | some id =>
    match b.scopes.vars[id]? with
    | none => fail span (.unknownVariable name)
    | some v =>
      if isCaptured b.function v then
        set { b with scopes := b.scopes.markClosed id }
        fail span (.captured name v.owner.isSome)
      else return (id, v)

end Lower

end Stackscript
