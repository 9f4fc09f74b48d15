import Stackscript.Proofs.LoweringSpec
import Stackscript.Proofs.LoweringVariables
import Stackscript.Proofs.Ownership
import Stackscript.Tree.Statement

/-!
# The table of functions

Functions are declared inside each other and beside each other. The table has them in the order in
which their declarations stand in the text, an outer function before those in its body, each with
its own parameters and its own code. The code around a declaration refers to the function once,
makes its value and stores it in the variable of the name.

* `FunctionDecl`, `Program.declarations`: the declarations of a text, with `Stmt.map_functions`;
* `Stmt.number_functions`: functions are numbered by their places in the table;
* `Stmt.outerFunctions`, **`Stmt.functions_perm`**: every function is declared in one body;
* `Block.references`, `Stmt.references_emit`, **`LabelCode.Lowers.references`**;
* `FunctionDef.DefinedIn`, `Stmt.defines`, `LabelCode.Lowers.defined`;
* `LabelCode.Enters`, **`LabelCode.ofProgram_enters`**.
-/

namespace Stackscript

/-! ## Declarations -/

/-- The declaration of a function, with the number of the function in whose body it stands. -/
structure FunctionDecl where
  name : String
  params : List (Located String)
  parent : Option Nat
deriving DecidableEq

mutual

/-- The functions that a statement declares, in the order in which they stand in the text. The
statement stands in the body of `parent`, behind `next` other declarations. -/
def Stmt.declarations (parent : Option Nat) (next : Nat) : Stmt → List FunctionDecl
  | .function name params body =>
    ⟨name.val, params, parent⟩ :: Stmt.declarationsAll (some next) (next + 1) body
  | .block body => Stmt.declarationsAll parent next body
  | .ifThen _ yes => yes.declarations parent next
  | .ifElse _ yes no =>
    let before := yes.declarations parent next
    before ++ no.declarations parent (next + before.length)
  | .while _ body => body.declarations parent next
  | .var .. | .const .. | .expr _ | .return .. | .break _ | .continue _ | .empty => []

/-- The functions that statements declare, in the order in which they stand in the text. -/
def Stmt.declarationsAll (parent : Option Nat) (next : Nat) : List Stmt → List FunctionDecl
  | [] => []
  | s :: ss =>
    let before := s.declarations parent next
    before ++ Stmt.declarationsAll parent (next + before.length) ss

end

/-- The functions that a program declares, an outer function before those in its body. -/
def Program.declarations (p : Program) : List FunctionDecl := Stmt.declarationsAll none 0 p

/-- The declaration of a function. -/
def FunctionDef.declaration (f : FunctionDef) : FunctionDecl := ⟨f.name, f.params, f.names.function⟩

theorem Names.function_enter (n : Names) (params : List (Located String)) :
    (n.enter params).function = some n.nextFunction := n.inNext.function_declareAll params

theorem Names.nextFunction_enter (n : Names) (params : List (Located String)) :
    (n.enter params).nextFunction = n.nextFunction + 1 := n.inNext.nextFunction_declareAll params

mutual

/-- The functions of a text are those that it declares. -/
theorem Stmt.map_functions (n : Names) :
    (s : Stmt) → (s.functions n).map FunctionDef.declaration =
      s.declarations n.function n.nextFunction
  | .function name params body => by
    have hbody := Stmt.map_functionsAll ((n.declare name.val).enter params) body
    rw [Names.function_enter, Names.nextFunction_enter] at hbody
    rw [Stmt.functions, List.map_cons, hbody]
    rfl
  | .block body => Stmt.map_functionsAll n body
  | .ifThen _ yes => yes.map_functions n
  | .ifElse _ yes no => by
    rw [Stmt.functions, List.map_append, no.map_functions, yes.function_after,
      yes.nextFunction_after, Stmt.declarations, ← yes.map_functions n, List.length_map]
  | .while _ body => body.map_functions n
  | .var .. | .const .. | .expr _ | .return .. | .break _ | .continue _ | .empty => rfl

theorem Stmt.map_functionsAll (n : Names) : (ss : List Stmt) →
    (Stmt.functionsAll n ss).map FunctionDef.declaration =
      Stmt.declarationsAll n.function n.nextFunction ss
  | [] => rfl
  | s :: ss => by
    rw [Stmt.functionsAll, List.map_append, Stmt.map_functionsAll, s.function_after,
      s.nextFunction_after, Stmt.declarationsAll, ← s.map_functions n, List.length_map]

end

mutual

/-- **Functions are numbered in the order in which they stand in the text.** -/
theorem Stmt.number_functions (n : Names) : (s : Stmt) →
    (s.functions n).map (·.names.nextFunction) = List.range' n.nextFunction (s.functions n).length
  | .function name params body => by
    have hbody := Stmt.number_functionsAll ((n.declare name.val).enter params) body
    rw [Names.nextFunction_enter] at hbody
    rw [Stmt.functions, List.map_cons, hbody, List.length_cons, List.range'_succ]
    rfl
  | .block body => Stmt.number_functionsAll n body
  | .ifThen _ yes => yes.number_functions n
  | .ifElse _ yes no => by
    rw [Stmt.functions, List.map_append, no.number_functions, yes.number_functions n,
      yes.nextFunction_after, List.range'_append_1, List.length_append]
  | .while _ body => body.number_functions n
  | .var .. | .const .. | .expr _ | .return .. | .break _ | .continue _ | .empty => rfl

theorem Stmt.number_functionsAll (n : Names) : (ss : List Stmt) →
    (Stmt.functionsAll n ss).map (·.names.nextFunction) =
      List.range' n.nextFunction (Stmt.functionsAll n ss).length
  | [] => rfl
  | s :: ss => by
    rw [Stmt.functionsAll, List.map_append, Stmt.number_functionsAll, s.number_functions n,
      s.nextFunction_after, List.range'_append_1, List.length_append]

end

theorem Program.number_functions (p : Program) :
    p.functions.map (·.names.nextFunction) = List.range p.functions.length := by
  rw [List.range_eq_range']
  exact Stmt.number_functionsAll .top p

theorem Program.nextFunction_of_getElem? {p : Program} {i : Nat} {f : FunctionDef}
    (h : p.functions[i]? = some f) : f.names.nextFunction = i := by
  have hnumbers := congrArg (·[i]?) p.number_functions
  simp only [List.getElem?_map, h, Option.map_some] at hnumbers
  rw [List.getElem?_range (List.getElem?_eq_some_iff.1 h).1] at hnumbers
  exact Option.some.inj hnumbers

/-! ## Functions outside and inside of others -/

mutual

/-- The functions that a statement declares, those of inner functions left out. -/
def Stmt.outerFunctions (n : Names) : Stmt → List FunctionDef
  | .function name params body => [⟨name.val, params, body, n.declare name.val⟩]
  | .block body => Stmt.outerFunctionsAll n body
  | .ifThen _ yes => yes.outerFunctions n
  | .ifElse _ yes no => yes.outerFunctions n ++ no.outerFunctions (yes.after n)
  | .while _ body => body.outerFunctions n
  | .var .. | .const .. | .expr _ | .return .. | .break _ | .continue _ | .empty => []

/-- The functions that statements declare, those of inner functions left out. -/
def Stmt.outerFunctionsAll (n : Names) : List Stmt → List FunctionDef
  | [] => []
  | s :: ss => s.outerFunctions n ++ Stmt.outerFunctionsAll (s.after n) ss

end

/-- The functions that the body of a function declares, those of inner functions left out. -/
def FunctionDef.innerFunctions (f : FunctionDef) : List FunctionDef :=
  Stmt.outerFunctionsAll f.inner f.body

theorem perm_append_flatMap {α : Type} {g : α → List α} {as bs outer outer' : List α}
    (ha : as.Perm (outer ++ as.flatMap g)) (hb : bs.Perm (outer' ++ bs.flatMap g)) :
    (as ++ bs).Perm (outer ++ outer' ++ (as ++ bs).flatMap g) := by
  refine (ha.append hb).trans ?_
  rw [List.flatMap_append, List.append_assoc, List.append_assoc]
  exact (List.perm_append_comm_assoc _ _ _).append_left outer

mutual

/-- **Every function is declared in one body**: it is an outer one, or it is declared in one of the
functions. -/
theorem Stmt.functions_perm (n : Names) : (s : Stmt) →
    (s.functions n).Perm (s.outerFunctions n ++ (s.functions n).flatMap FunctionDef.innerFunctions)
  | .function name params body =>
    (Stmt.functionsAll_perm ((n.declare name.val).enter params) body).cons _
  | .block body => Stmt.functionsAll_perm n body
  | .ifThen _ yes => yes.functions_perm n
  | .ifElse _ yes no => perm_append_flatMap (yes.functions_perm n) (no.functions_perm _)
  | .while _ body => body.functions_perm n
  | .var .. | .const .. | .expr _ | .return .. | .break _ | .continue _ | .empty => .nil

theorem Stmt.functionsAll_perm (n : Names) : (ss : List Stmt) → (Stmt.functionsAll n ss).Perm
    (Stmt.outerFunctionsAll n ss ++ (Stmt.functionsAll n ss).flatMap FunctionDef.innerFunctions)
  | [] => .nil
  | s :: ss => perm_append_flatMap (s.functions_perm n) (Stmt.functionsAll_perm _ ss)

end

/-! ## References -/

/-- The instruction refers to a function. -/
def Instr.isFunctionRef : Instr → Bool
  | .functionRef _ => true
  | _ => false

namespace Block

/-- The references of a block to functions. -/
def references (b : Block) : List Instr := b.instrs.filter Instr.isFunctionRef

theorem references_add (b : Block) (i : Instr) :
    (b.add i).references = b.references ++ [i].filter Instr.isFunctionRef := by
  rw [references, instrs_add, List.filter_append]
  rfl

theorem references_bind (b : Block) (id : LabelId) : (b.bind id).references = b.references := by
  obtain h | h := b.instrs_bind id
  · rw [references, h, references]
  · rw [references, h, List.filter_append]
    exact List.append_nil _

theorem references_reserve (b : Block) : b.reserve.2.references = b.references := rfl

theorem references_fresh (b : Block) : b.fresh.2.references = b.references := references_bind _ _

end Block

mutual

/-- Expressions do not refer to functions. -/
theorem Expr.references_emit (n : Names) :
    (e : Expr) → (b : Block) → (e.emit n b).references = b.references
  | .number .., b | .string .., b | .boolean _ true, b | .boolean _ false, b | .null _, b
  | .ident .., b =>
    (b.references_add _).trans (List.append_nil _)
  | .array _ items, b => by
    rw [Expr.emit, Block.references_add, Expr.references_emitAll n items]
    exact List.append_nil _
  | .unary _ _ arg, b => by
    rw [Expr.emit, Block.references_add, arg.references_emit n]
    exact List.append_nil _
  | .binary _ _ left right, b => by
    rw [Expr.emit, Block.references_add, right.references_emit n, left.references_emit n]
    exact List.append_nil _
  | .cond _ test yes no, b => by
    rw [Expr.emit, Block.references_bind, no.references_emit n, Block.references_bind,
      Block.references_add, yes.references_emit n, Block.references_fresh, Block.references_add,
      Block.references_reserve, Block.references_reserve, test.references_emit n]
    simp [Instr.isFunctionRef]
  | .assign _ target value, b => by
    rw [Expr.emit, Block.references_add, Block.references_add, value.references_emit n]
    simp [Instr.isFunctionRef]
  | .assignAt _ _ object position value, b => by
    rw [Expr.emit, Block.references_add, value.references_emit n, position.references_emit n,
      object.references_emit n]
    exact List.append_nil _
  | .index _ object position, b => by
    rw [Expr.emit, Block.references_add, position.references_emit n, object.references_emit n]
    exact List.append_nil _
  | .call _ callee args, b => by
    rw [Expr.emit, Block.references_add, callee.references_emit n, Expr.references_emitAll n args]
    exact List.append_nil _

theorem Expr.references_emitAll (n : Names) :
    (es : List Expr) → (b : Block) → (Expr.emitAll n es b).references = b.references
  | [], _ => rfl
  | e :: es, b => (Expr.references_emitAll n es _).trans (e.references_emit n b)

end

theorem Expr.references_emitOptional (n : Names) (e : Option Expr) (b : Block) :
    (Expr.emitOptional n e b).references = b.references := by
  cases e with
  | some e => exact e.references_emit n b
  | none => exact (b.references_add _).trans (List.append_nil _)

/-- The instruction that refers to a function. -/
def FunctionDef.reference (f : FunctionDef) : Instr := .functionRef f.names.nextFunction

mutual

/-- **Statements refer to the functions that they declare**, in their order. -/
theorem Stmt.references_emit (n : Names) (loop : Option (LabelId × LabelId)) :
    (s : Stmt) → (b : Block) →
    (s.emit n loop b).references = b.references ++ (s.outerFunctions n).map FunctionDef.reference
  | .var _ init, b => by
    rw [Stmt.emit, Block.references_add, Expr.references_emitOptional]
    rfl
  | .const _ init, b => by
    rw [Stmt.emit, Block.references_add, init.references_emit n]
    rfl
  | .function .., b => by
    rw [Stmt.emit, Block.references_add, Block.references_add, Block.references_add,
      List.append_assoc, List.append_assoc]
    rfl
  | .expr e, b => by
    rw [Stmt.emit, Block.references_add, e.references_emit n]
    rfl
  | .block body, b => Stmt.references_emitAll n loop body b
  | .ifThen test yes, b => by
    rw [Stmt.emit, Block.references_bind, yes.references_emit n, Block.references_fresh,
      Block.references_add, Block.references_reserve, test.references_emit n]
    simp [Stmt.outerFunctions, Instr.isFunctionRef]
  | .ifElse test yes no, b => by
    rw [Stmt.emit, Block.references_bind, no.references_emit, Block.references_bind,
      Block.references_add, Block.references_reserve, yes.references_emit n, Block.references_fresh,
      Block.references_add, Block.references_reserve, test.references_emit n]
    simp [Stmt.outerFunctions, Instr.isFunctionRef]
  | .while test body, b => by
    rw [Stmt.emit, Block.references_bind, Block.references_add, body.references_emit n,
      Block.references_fresh, Block.references_add, test.references_emit n, Block.references_fresh,
      Block.references_reserve]
    simp [Stmt.outerFunctions, Instr.isFunctionRef]
  | .return value _, b => by
    rw [Stmt.emit, Block.references_add, Expr.references_emitOptional]
    rfl
  | .break _, b => by
    cases loop with
    | none => exact (List.append_nil _).symm
    | some labels => exact b.references_add _
  | .continue _, b => by
    cases loop with
    | none => exact (List.append_nil _).symm
    | some labels => exact b.references_add _
  | .empty, b => (List.append_nil _).symm

theorem Stmt.references_emitAll (n : Names) (loop : Option (LabelId × LabelId)) :
    (ss : List Stmt) → (b : Block) →
    (Stmt.emitAll n loop ss b).references = b.references ++
      (Stmt.outerFunctionsAll n ss).map FunctionDef.reference
  | [], b => (List.append_nil _).symm
  | s :: ss, b => by
    rw [Stmt.emitAll, Stmt.references_emitAll, s.references_emit n,
      List.append_assoc, ← List.map_append]
    rfl

end

theorem FunctionDef.references_block (f : FunctionDef) :
    f.block.references = f.innerFunctions.map FunctionDef.reference := by
  have h := Stmt.references_emitAll f.inner none f.body .empty
  unfold FunctionDef.block
  by_cases hr : f.body.getLast?.any Lower.isReturn = true
  · simp only [if_pos hr]
    exact h
  · simp only [if_neg hr]
    rw [Block.references_add, Block.references_add, h, List.append_assoc]
    exact List.append_nil _

theorem Program.references_main (p : Program) :
    p.main.references = (Stmt.outerFunctionsAll .top p).map FunctionDef.reference := by
  rw [Program.main, Block.references_add, Block.references_fresh, Stmt.references_emitAll]
  exact List.append_nil _

/-! ## Code around declarations -/

theorem Names.idOf_declare (n : Names) (name : String) :
    (n.declare name).idOf name = n.nextVar := by
  rw [Names.idOf, Names.lookup?, Names.declare, List.lookup_cons_self]
  exact n.id_cell

theorem Names.owner_cell (n : Names) : n.cell.owner = n.function := by
  unfold Names.cell
  cases n.function <;> rfl

/-- **A block defines a function**: it refers to the function, makes its value and stores it in the
variable of its name, which is one of the function that the block belongs to. -/
structure FunctionDef.DefinedIn (vars : Array Variable) (function : Option Nat) (B : Block)
    (f : FunctionDef) : Prop where
  parent : f.names.function = function
  code : ∃ place, B.instr? place = some (.functionRef f.names.nextFunction) ∧
    B.instr? place.next = some .makeFunction ∧
    B.instr? place.next.next = some (.store (f.names.idOf f.name))
  stored : ∃ v, vars[f.names.idOf f.name]? = some v ∧ v.name = f.name ∧ v.owner = function

/-- Instructions that are emitted one after the other stand one behind the other. -/
theorem Block.PartOf.instr?_three {b B : Block} {i i' i'' : Instr}
    (h : (((b.add i).add i').add i'').PartOf B) :
    B.instr? b.tip = some i ∧ B.instr? b.tip.next = some i' ∧
      B.instr? b.tip.next.next = some i'' := by
  have h' := (Block.partOf_add _ _).trans h
  have hsecond := h'.instr?_tip
  have hthird := h.instr?_tip
  rw [(Block.add_spec _ _).2, (Block.add_spec _ _).2] at hthird
  rw [(Block.add_spec _ _).2] at hsecond
  exact ⟨((Block.partOf_add _ _).trans h').instr?_tip, hsecond, hthird⟩

mutual

/-- **The code of statements defines the functions that they declare.** -/
theorem Stmt.defines {vars : Array Variable} {B : Block} {inLoop : Bool} : (s : Stmt) → ∀ n loop b,
    s.Accepted vars n inLoop → (s.emit n loop b).PartOf B →
      ∀ f ∈ s.outerFunctions n, f.DefinedIn vars n.function B
  | .function name params body => by
    rintro n loop b ⟨v, hv, hname, howner, -⟩ hpart f hf
    obtain rfl := List.mem_singleton.1 hf
    rw [n.id_cell] at hv
    rw [n.owner_cell] at howner
    refine ⟨rfl, ⟨b.tip, ?_⟩, v, ?_, hname, howner⟩
    · rw [n.idOf_declare]
      exact hpart.instr?_three
    · rw [n.idOf_declare]
      exact hv
  | .block body => Stmt.definesAll body
  | .ifThen _ yes => by
    rintro n loop b ⟨-, hy⟩ hpart
    exact yes.defines n loop _ hy ((Block.partOf_bind _ _).trans hpart)
  | .ifElse _ yes no => by
    rintro n loop b ⟨-, hy, hn⟩ hpart f hf
    have hno := (Block.partOf_bind _ _).trans hpart
    have hyes := (Block.partOf_reserve _).trans <| (Block.partOf_add _ _).trans <|
      (Block.partOf_bind _ _).trans <| (no.partOf_emit (yes.after n) loop _).trans hno
    obtain hf | hf := List.mem_append.1 hf
    · exact yes.defines n loop _ hy hyes f hf
    · exact yes.function_after n ▸ no.defines _ loop _ hn hno f hf
  | .while _ body => by
    rintro n loop b ⟨-, hb⟩ hpart
    exact body.defines n _ _ hb ((Block.partOf_add _ _).trans ((Block.partOf_bind _ _).trans hpart))
  | .var .. | .const .. | .expr _ | .return .. | .break _ | .continue _ | .empty => by
    intro n loop b _ _ f hf
    cases hf

theorem Stmt.definesAll {vars : Array Variable} {B : Block} {inLoop : Bool} :
    (ss : List Stmt) → ∀ n loop b,
    Stmt.AcceptedAll vars n inLoop ss → (Stmt.emitAll n loop ss b).PartOf B →
    ∀ f ∈ Stmt.outerFunctionsAll n ss, f.DefinedIn vars n.function B
  | [] => by
    intro n loop b _ _ f hf
    cases hf
  | s :: ss => by
    rintro n loop b ⟨hs, hss⟩ hpart f hf
    obtain hf | hf := List.mem_append.1 hf
    · exact s.defines n loop _ hs ((Stmt.partOf_emitAll (s.after n) loop ss _).trans hpart) f hf
    · exact s.function_after n ▸ Stmt.definesAll ss _ loop _ hss hpart f hf

end

theorem Program.partOf_main (p : Program) : (Stmt.emitAll .top none p .empty).PartOf p.main :=
  (Block.partOf_fresh _).trans (Block.partOf_add _ _)

theorem FunctionDef.partOf_block (f : FunctionDef) :
    (Stmt.emitAll f.inner none f.body .empty).PartOf f.block := by
  unfold FunctionDef.block
  by_cases hr : f.body.getLast?.any Lower.isReturn = true
  · simp only [if_pos hr]
    exact .refl _
  · simp only [if_neg hr]
    exact (Block.partOf_add _ _).trans (Block.partOf_add _ _)

/-! ## Programs -/

namespace LabelCode

/-- The block of a function, or of the top level. -/
def blockOf? (code : LabelCode) : Option Nat → Option Block
  | none => some code.main
  | some k => code.functions[k]?.map (·.block)

variable {code : LabelCode} {p : Program}

theorem Lowers.definedIn_main (h : code.Lowers p) :
    ∀ f ∈ Stmt.outerFunctionsAll .top p, f.DefinedIn code.vars none code.main := by
  rw [h.main]
  exact Stmt.definesAll p _ _ _ h.top p.partOf_main

theorem Lowers.definedIn_block (h : code.Lowers p) {k : Nat} {g : FunctionDef}
    (hk : p.functions[k]? = some g) :
    ∀ f ∈ g.innerFunctions, f.DefinedIn code.vars (some k) g.block := by
  have hfunction : g.inner.function = some k := by
    rw [FunctionDef.inner, Names.function_enter, Program.nextFunction_of_getElem? hk]
  rw [← hfunction]
  exact Stmt.definesAll g.body _ _ _ (h.accepted g (List.mem_of_getElem? hk)).body g.partOf_block

/-- **Every function is defined in the code around its declaration.** -/
theorem Lowers.defined (h : code.Lowers p) {f : FunctionDef} (hf : f ∈ p.functions) :
    ∃ block, code.blockOf? f.names.function = some block ∧
      f.DefinedIn code.vars f.names.function block := by
  -- the declaration stands in the top level or in the body of another function, whose number is its
  -- parent
  have hmem : f ∈ Stmt.outerFunctionsAll .top p ++ p.functions.flatMap FunctionDef.innerFunctions :=
    (Stmt.functionsAll_perm .top p).mem_iff.1 hf
  obtain htop | hinner := List.mem_append.1 hmem
  · have hdefined := h.definedIn_main f htop
    exact ⟨code.main, hdefined.parent ▸ rfl, hdefined.parent ▸ hdefined⟩
  · obtain ⟨g, hg, hinner⟩ := List.mem_flatMap.1 hinner
    obtain ⟨k, hk⟩ := List.getElem?_of_mem hg
    have hdefined := h.definedIn_block hk f hinner
    refine ⟨g.block, ?_, hdefined.parent ▸ hdefined⟩
    rw [hdefined.parent, blockOf?, h.function?, hk]
    rfl

/-- **All references of a program to functions**: there is one for every function, in the code
around its declaration. -/
theorem Lowers.references (h : code.Lowers p) :
    (code.attributed.filter fun a => a.2.isFunctionRef).Perm
    (p.functions.map fun f => (f.names.function, f.reference)) := by
  -- the code has the references body by body, first those of the top level, then those of each
  -- function of the table
  have hmain : code.main.references.map (none, ·) =
      (Stmt.outerFunctionsAll .top p).map fun f => (f.names.function, f.reference) := by
    rw [h.main, p.references_main, List.map_map]
    refine List.map_congr_left fun f hf => ?_
    rw [(h.definedIn_main f hf).parent]
    rfl
  have hfunctions : (code.functions.toList.zipIdx.flatMap fun a =>
      a.1.block.references.map (some a.2, ·)) = p.functions.flatMap fun f =>
      f.innerFunctions.map fun g => (g.names.function, g.reference) := by
    conv_rhs => rw [← List.zipIdx_map_fst 0 p.functions, List.flatMap_map]
    rw [h.functions, List.zipIdx_map, List.flatMap_map]
    refine List.flatMap_congr fun a ha => ?_
    have hk := List.mem_zipIdx_iff_getElem?.1 ha
    show a.1.block.references.map (some a.2, ·) = _
    rw [FunctionDef.references_block, List.map_map]
    refine List.map_congr_left fun g hg => ?_
    rw [(h.definedIn_block hk g hg).parent]
    rfl
  rw [LabelCode.attributed, filter_attributed _ _ _ _ Instr.isFunctionRef]
  refine (List.Perm.of_eq ?_).trans ((Stmt.functionsAll_perm .top p).map _).symm
  rw [List.map_append, List.map_flatMap]
  exact congrArg₂ _ hmain hfunctions

/-- The reference to one function is the only one. -/
theorem Lowers.filter_functionRef (h : code.Lowers p) {i : Nat} {f : FunctionDef}
    (hi : p.functions[i]? = some f) :
    code.attributed.filter (·.2 = .functionRef i) = [(f.names.function, .functionRef i)] := by
  have hnumber := Program.nextFunction_of_getElem? hi
  -- functions have different numbers, so only one of all references is this one
  have hone : p.functions.filter (fun g => decide (g.reference = .functionRef i)) = [f] := by
    have hdistinct : (p.functions.map (·.names.nextFunction)).Nodup :=
      p.number_functions ▸ List.nodup_range
    simp only [FunctionDef.reference, Instr.functionRef.injEq, ← hnumber]
    exact filter_eq_singleton hdistinct (List.mem_of_getElem? hi)
  have hall : code.attributed.filter (·.2 = .functionRef i) =
      (code.attributed.filter fun a => a.2.isFunctionRef).filter fun a =>
      decide (a.2 = .functionRef i) := by
    rw [List.filter_filter]
    refine List.filter_congr fun a _ => ?_
    by_cases ha : a.2 = .functionRef i
    · simp [ha, Instr.isFunctionRef]
    · simp [ha]
  have hperm := h.references.filter fun a => decide (a.2 = .functionRef i)
  rw [← hall, List.filter_map] at hperm
  refine List.perm_singleton.1 (hperm.trans (List.Perm.of_eq ?_))
  refine (congrArg _ hone).trans ?_
  rw [List.map_singleton, FunctionDef.reference, hnumber]

/-- **A function has been entered in the table** under a number. -/
structure Enters (code : LabelCode) (i : Nat) (f : FunctionDef) : Prop where
  /-- The entry has the name of the function, its code and one variable for every parameter. -/
  entry : ∃ g, code.functions[i]? = some g ∧ g.name = f.name ∧ g.block = f.block ∧
    g.arity = f.params.length ∧ g.parameters.Nodup ∧
      List.Forall₂ (fun param id => ∃ v, code.vars[id]? = some v ∧ v.name = param.val ∧
      v.owner = some i) f.params g.parameters
  /-- In all code there is one reference to the function, in the code around the declaration. -/
  reference : code.attributed.filter (·.2 = .functionRef i) =
    [(f.declaration.parent, .functionRef i)]
  /-- There the value of the function is made and stored in the variable of its name. -/
  defined : ∃ block place v, code.blockOf? f.declaration.parent = some block ∧
    block.instr? place = some (.functionRef i) ∧ block.instr? place.next = some .makeFunction ∧
    block.instr? place.next.next = some (.store (f.names.idOf f.name)) ∧
    code.vars[f.names.idOf f.name]? = some v ∧ v.name = f.name ∧ v.owner = f.declaration.parent

/-- **The table of functions** of a program that is lowered without errors has one entry for every
declaration, in the order in which the declarations stand in the text. -/
theorem ofProgram_enters {p : Program} {code : LabelCode} (h : LabelCode.ofProgram p = .ok code) :
    code.functions.size = p.declarations.length ∧ p.functions.map FunctionDef.declaration =
      p.declarations ∧ ∀ i f, p.functions[i]? = some f → code.Enters i f := by
  have hl := ofProgram_spec h
  have hdeclarations : p.functions.map FunctionDef.declaration = p.declarations :=
    Stmt.map_functionsAll .top p
  refine ⟨?_, hdeclarations, fun i f hi => ?_⟩
  · rw [← hdeclarations, ← Array.length_toList, hl.functions, List.length_map, List.length_map]
  · have hf := List.mem_of_getElem? hi
    have haccepted := hl.accepted f hf
    have hnumber := Program.nextFunction_of_getElem? hi
    refine ⟨⟨f.lowered, ?_, rfl, rfl, ?_, ?_, ?_⟩, hl.filter_functionRef hi, ?_⟩
    · rw [hl.function?, hi]
      rfl
    · -- the number of parameters is checked, so the byte does not wrap
      rw [LabelFunction.arity, FunctionDef.lowered, FunctionDef.paramIds, List.length_range']
      exact Nat.mod_eq_of_lt (Nat.lt_succ_of_le haccepted.params)
    · exact List.nodup_range'
    · refine haccepted.declared.imp fun param id hdeclared => ?_
      obtain ⟨v, hv, hname, howner, -⟩ := hdeclared
      exact ⟨v, hv, hname, hnumber ▸ howner⟩
    · obtain ⟨block, hblock, -, ⟨place, hplace⟩, v, hv⟩ := hl.defined hf
      rw [hnumber] at hplace
      exact ⟨block, place, v, hblock, hplace.1, hplace.2.1, hplace.2.2, hv⟩

/-- Two functions, the first of which has two in its body. -/
def siblings : String :=
  "function a(x) \x7b
     function b() \x7b\x7d
     if (x) \x7b function c(y, z) \x7b return z; \x7d \x7d
   \x7d
   function d() \x7b\x7d"

theorem ofProgram_enters_siblings :
    ∃ p code f, Program.parse siblings = .ok p ∧ LabelCode.ofProgram p = .ok code ∧
      p.declarations.map (fun d => (d.name, d.params.length, d.parent)) =
        [("a", 1, none), ("b", 0, some 0), ("c", 2, some 0), ("d", 0, none)] ∧
      p.functions[2]? = some f ∧ f.name = "c" ∧ f.names.function = some 0 ∧ code.Enters 2 f := by
  have h : ((Program.parse siblings).toOption.bind fun p =>
      (LabelCode.ofProgram p).toOption.map fun _ =>
      p.declarations.map fun d => (d.name, d.params.length, d.parent)) =
        some [("a", 1, none), ("b", 0, some 0), ("c", 2, some 0), ("d", 0, none)] := by
        decide +kernel
  obtain ⟨p, hp, h⟩ := Option.bind_eq_some_iff.1 h
  obtain ⟨code, hcode, hdecls⟩ := Option.map_eq_some_iff.1 h
  have hcode := toOption_eq_some.1 hcode
  obtain ⟨-, hdeclarations, henters⟩ := ofProgram_enters hcode
  have hthird := congrArg (·[2]?) hdecls
  simp only [← hdeclarations, List.map_map, List.getElem?_map] at hthird
  obtain ⟨f, hf, hdecl⟩ := Option.map_eq_some_iff.1 hthird
  obtain ⟨hname, -, hparent⟩ : f.name = "c" ∧ f.params.length = 2 ∧ f.names.function = some 0 := by
    simpa [FunctionDef.declaration] using hdecl
  exact ⟨p, code, f, toOption_eq_some.1 hp, hcode, hdecls, hf, hname, hparent, henters 2 f hf⟩

end LabelCode

end Stackscript
