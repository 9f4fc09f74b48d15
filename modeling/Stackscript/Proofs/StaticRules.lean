import Stackscript.Native.Table
import Stackscript.Tree.Basic

/-!
# The rules of programs

What a program has to keep to besides its grammar, said of the tree alone. The top level, every
block, every body of a loop and every body of a function is a region in which names are declared;
the branches of an alternative are none, and the parameters of a function belong to the region of
its body. Statements are gone through in order: a name is known after its declaration, that of a
function in its own body too.

* `Region`, `Context`: the regions around a point of a program;
* `Context.Resolves`, `Context.Free`, `Context.InLoop`, `Context.InFunction`;
* `Expr.Valid`, `Stmt.Valid`, **`Program.Valid`**.
-/

namespace Stackscript

/-- The constructs that make a region. -/
inductive RegionKind where
  /-- The top level or a block. -/
  | plain
  | loop
  | function
deriving DecidableEq

/-- A name that is declared. -/
structure Declaration where
  name : String
  /-- Nothing may be assigned to it: it is a constant or a function. -/
  fixed : Bool
deriving DecidableEq

/-- A region and what has been declared directly in it. -/
structure Region where
  kind : RegionKind
  declared : List Declaration
deriving DecidableEq

/-- The region declares a name. -/
def Region.Declares (r : Region) (name : String) : Prop := ∃ fixed, ⟨name, fixed⟩ ∈ r.declared

/-- The regions around a point of a program, innermost first; the last one is the top level. -/
abbrev Context := List Region

namespace Context

/-- A name may be used, and is fixed or not. -/
inductive Resolves (ctx : Context) (name : String) : (fixed : Bool) → Prop where
  /-- The innermost region that declares it is the top level, or no function lies between. -/
  | declared {inner outer : Context} {r : Region} {fixed : Bool} : ctx = inner ++ r :: outer →
      (∀ s ∈ inner, ¬ s.Declares name) → ⟨name, fixed⟩ ∈ r.declared →
      (outer = [] ∨ ∀ s ∈ inner, s.kind ≠ .function) → Resolves ctx name fixed
  /-- It is not declared, but a native. -/
  | native {entry : NativeEntry} : (∀ s ∈ ctx, ¬ s.Declares name) →
      entry ∈ NativeEntry.table.toList → entry.name = name → Resolves ctx name true

/-- The innermost region does not declare a name. -/
def Free (ctx : Context) (name : String) : Prop := ∀ r ∈ ctx.head?, ¬ r.Declares name

/-- A name is declared in the innermost region. -/
def declare (d : Declaration) : Context → Context
  | [] => []
  | r :: outer => ⟨r.kind, r.declared ++ [d]⟩ :: outer

/-- There is a loop around, and no function in between. -/
def InLoop (ctx : Context) : Prop :=
  ∃ inner r outer, ctx = inner ++ r :: outer ∧ r.kind = .loop ∧ ∀ s ∈ inner, s.kind ≠ .function

/-- There is a function around. -/
def InFunction (ctx : Context) : Prop := ∃ r ∈ ctx, r.kind = .function

/-- The regions after a statement. -/
def after (ctx : Context) : Stmt → Context
  | .var name _ => ctx.declare ⟨name.val, false⟩
  | .const name _ | .function name _ _ => ctx.declare ⟨name.val, true⟩
  | .ifThen _ yes => ctx.after yes
  | .ifElse _ yes no => (ctx.after yes).after no
  | .expr _ | .block _ | .while .. | .return .. | .break _ | .continue _ | .empty => ctx

end Context

namespace Expr

/-- The expression is a literal. -/
def IsLiteral : Expr → Prop
  | .number .. | .string .. | .boolean .. | .null _ | .array .. => True
  | _ => False

/-- The expression is a literal that has no elements. -/
def IsScalar : Expr → Prop
  | .number .. | .boolean .. | .null _ => True
  | _ => False

mutual

/-- **An expression keeps the rules**: names are resolved, and what is assigned to is not fixed; a
call has at most 255 arguments; no literal is called, and none without elements is indexed. -/
def Valid (ctx : Context) : Expr → Prop
  | .number .. | .string .. | .boolean .. | .null _ => True
  | .array _ items => ValidAll ctx items
  | .ident _ name => ∃ fixed, ctx.Resolves name fixed
  | .binary _ _ left right => left.Valid ctx ∧ right.Valid ctx
  | .unary _ _ arg => arg.Valid ctx
  | .cond _ test yes no => test.Valid ctx ∧ yes.Valid ctx ∧ no.Valid ctx
  | .assign _ target value => ctx.Resolves target.val false ∧ value.Valid ctx
  | .assignAt _ _ object position value =>
    ¬ object.IsScalar ∧ object.Valid ctx ∧ position.Valid ctx ∧ value.Valid ctx
  | .index _ object position => ¬ object.IsScalar ∧ object.Valid ctx ∧ position.Valid ctx
  | .call _ callee args =>
    (¬ callee.IsLiteral ∧ args.length ≤ 255) ∧ ValidAll ctx args ∧ callee.Valid ctx

/-- Expressions keep the rules. -/
def ValidAll (ctx : Context) : List Expr → Prop
  | [] => True
  | e :: es => e.Valid ctx ∧ ValidAll ctx es

end

/-- An expression, if there is one, keeps the rules. -/
def ValidOptional (ctx : Context) : Option Expr → Prop
  | some e => e.Valid ctx
  | none => True

end Expr

namespace Stmt

mutual

/-- **A statement keeps the rules**: no region declares a name twice; a function has at most 255
parameters; jumps out of loops stand in loops of the same function, and returns in functions. -/
def Valid (ctx : Context) : Stmt → Prop
  | .var name init => Expr.ValidOptional ctx init ∧ ctx.Free name.val
  | .const name init => init.Valid ctx ∧ ctx.Free name.val
  | .function name params body =>
      (ctx.Free name.val ∧ params.length ≤ 255) ∧ (params.map (·.val)).Nodup ∧
        ValidAll (⟨.function, params.map (⟨·.val, false⟩)⟩ :: ctx.declare ⟨name.val, true⟩) body
  | .expr e => e.Valid ctx
  | .block body => ValidAll (⟨.plain, []⟩ :: ctx) body
  | .ifThen test yes => test.Valid ctx ∧ yes.Valid ctx
  | .ifElse test yes no => test.Valid ctx ∧ yes.Valid ctx ∧ no.Valid (ctx.after yes)
  | .while test body => test.Valid ctx ∧ body.Valid (⟨.loop, []⟩ :: ctx)
  | .return value _ => ctx.InFunction ∧ Expr.ValidOptional ctx value
  | .break _ | .continue _ => ctx.InLoop
  | .empty => True

/-- Statements keep the rules, in order. -/
def ValidAll (ctx : Context) : List Stmt → Prop
  | [] => True
  | s :: ss => s.Valid ctx ∧ ValidAll (ctx.after s) ss

end

end Stmt

/-- **A program is valid** if its statements, at the top level, keep the rules. -/
def Program.Valid (p : Program) : Prop := Stmt.ValidAll [⟨.plain, []⟩] p

end Stackscript
