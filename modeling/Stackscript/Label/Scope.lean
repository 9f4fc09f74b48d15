import Stackscript.Label.Instr
import Stackscript.Native.Table

/-!
# Scopes

Names are resolved through nested scopes, innermost first, and below all of them the natives. The
table owns every variable that was ever declared; closing a scope forgets its names and keeps its
variables.

* `ScopeKind`, `Scope`, `ScopeTable`;
* `ScopeTable.enter`, `leave`, `depth`, `declare`, `lookup?`, `markClosed`;
* `ScopeTable.enclosingLoop?`, `inFunction`;
* `DeclareError`, `DeclareError.message`.
-/

namespace Stackscript

/-- The construct that a scope belongs to. -/
inductive ScopeKind where
  | normal
  /-- The body of a loop, with the labels of its condition and of its end. -/
  | loop (condition stop : LabelId)
  | function
deriving DecidableEq, Inhabited

/-- The names declared in one construct. -/
structure Scope where
  kind : ScopeKind
  bindings : List (String × VarId)
deriving DecidableEq, Inhabited

/-- The open scopes, innermost first, and all variables declared so far. -/
structure ScopeTable where
  vars : Array Variable
  scopes : List Scope
deriving DecidableEq, Inhabited

/-- Why a name cannot be declared. -/
inductive DeclareError where
  | duplicate (name : String)
  | noScope (name : String)
deriving DecidableEq

/-- The wording of a declaration error. -/
def DeclareError.message : DeclareError → String
  | .duplicate name => "Variable \"" ++ name ++ "\" has already been declared in this scope."
  | .noScope name => "internal error: variable \"" ++ name ++ "\" declared outside any scope"

namespace ScopeTable

/-- The variables of the natives, whose numbers are their slots. -/
def natives : Array Variable :=
  NativeEntry.table.map fun entry => ⟨entry.name, .native, -1, none⟩

/-- The table without open scopes. -/
def initial : ScopeTable := ⟨natives, []⟩

/-- Opens a scope. -/
def enter (t : ScopeTable) (kind : ScopeKind) : ScopeTable :=
  { t with scopes := ⟨kind, []⟩ :: t.scopes }

/-- Closes the innermost scope. -/
def leave (t : ScopeTable) : ScopeTable := { t with scopes := t.scopes.tail }

/-- The depth of the innermost scope: zero for the top level. -/
def depth (t : ScopeTable) : Int := (t.scopes.length : Int) - 1

/-- Declares a name in the innermost scope. A name of an outer scope may be declared again. -/
def declare (t : ScopeTable) (name : String) (storage : Storage) (owner : Option Nat) :
    Except DeclareError (VarId × ScopeTable) :=
  match t.scopes with
  | [] => .error (.noScope name)
  | s :: outer =>
    if (s.bindings.lookup name).isSome then .error (.duplicate name)
    else
      let id := t.vars.size
      .ok (id, {
        vars := t.vars.push ⟨name, storage, t.depth, owner⟩
        scopes := { s with bindings := (name, id) :: s.bindings } :: outer })

/-- The variable that a name stands for. -/
def lookup? (t : ScopeTable) (name : String) : Option VarId :=
  (t.scopes.findSome? (·.bindings.lookup name)).or (NativeEntry.slot? name)

/-- The table in which a variable is marked as referred to by an inner function. -/
def markClosed (t : ScopeTable) (id : VarId) : ScopeTable :=
  { t with vars := t.vars.modify id fun v => { v with storage := v.storage.closed } }

/-- The labels of the nearest loop among scopes, as far as the nearest function. -/
def loopOf? : List Scope → Option (LabelId × LabelId)
  | [] => none
  | s :: outer =>
    match s.kind with
    | .normal => loopOf? outer
    | .loop condition stop => some (condition, stop)
    | .function => none

/-- The labels of condition and end of the nearest loop within the current function. -/
def enclosingLoop? (t : ScopeTable) : Option (LabelId × LabelId) := loopOf? t.scopes

/-- Some open scope is a function body. -/
def inFunction (t : ScopeTable) : Bool := t.scopes.any (·.kind == .function)

end ScopeTable

end Stackscript
