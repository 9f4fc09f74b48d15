import Stackscript.Number.Basic
import Stackscript.Operator
import Stackscript.Source.Span

/-!
# Syntax trees

The trees of expressions and statements. Every expression knows the part of the text that it was
read from; a parenthesised expression is its inner expression with the span of the parentheses.

There are just the trees that texts have. A tree that is put together by hand could also assign to
something other than a variable or an element, or declare a constant without a value, which would
be null. The parser reports both as errors, and such trees are left out.

* `Expr`, `Expr.span`, `Expr.withSpan`;
* `Stmt`, `Program`.
-/

namespace Stackscript

/-- An expression, each form with its span. -/
inductive Expr where
  | number (span : Span) (n : Number)
  | string (span : Span) (s : String)
  | boolean (span : Span) (b : Bool)
  | null (span : Span)
  | array (span : Span) (items : List Expr)
  | ident (span : Span) (name : String)
  | binary (span : Span) (op : BinaryOperator) (left right : Expr)
  | unary (span : Span) (op : UnaryOperator) (arg : Expr)
  | cond (span : Span) (test yes no : Expr)
  /-- The assignment of a value to a variable. -/
  | assign (span : Span) (target : Located String) (value : Expr)
  /-- The assignment of a value to an element; the target has a span of its own. -/
  | assignAt (span : Span) (target : Span) (object index value : Expr)
  | index (span : Span) (object index : Expr)
  | call (span : Span) (callee : Expr) (args : List Expr)
deriving Inhabited

namespace Expr

/-- The part of the text that an expression was read from. -/
def span : Expr → Span
  | .number s _ | .string s _ | .boolean s _ | .null s | .array s _ | .ident s _ | .binary s _ _ _
  | .unary s _ _ | .cond s _ _ _ | .assign s _ _ | .assignAt s _ _ _ _ | .index s _ _
  | .call s _ _ => s

/-- The same expression with another span. -/
def withSpan (s : Span) : Expr → Expr
  | .number _ n => .number s n
  | .string _ t => .string s t
  | .boolean _ b => .boolean s b
  | .null _ => .null s
  | .array _ items => .array s items
  | .ident _ name => .ident s name
  | .binary _ op left right => .binary s op left right
  | .unary _ op arg => .unary s op arg
  | .cond _ test yes no => .cond s test yes no
  | .assign _ target value => .assign s target value
  | .assignAt _ target object position value => .assignAt s target object position value
  | .index _ object position => .index s object position
  | .call _ callee args => .call s callee args

end Expr

/-- A statement. -/
inductive Stmt where
  | var (name : Located String) (init : Option Expr)
  | const (name : Located String) (init : Expr)
  | function (name : Located String) (params : List (Located String)) (body : List Stmt)
  | expr (e : Expr)
  | block (body : List Stmt)
  | ifThen (test : Expr) (yes : Stmt)
  | ifElse (test : Expr) (yes no : Stmt)
  | while (test : Expr) (body : Stmt)
  | return (value : Option Expr) (span : Span)
  | break (span : Span)
  | continue (span : Span)
  | empty
deriving Inhabited

/-- A program is a list of statements. -/
abbrev Program := List Stmt

end Stackscript
