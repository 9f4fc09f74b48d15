import Stackscript.Proofs.Assemblable
import Stackscript.Proofs.LoweringVariables

/-!
# How the blocks of a program come about

A block is built by a few moves only: a label is reserved, or started, or an instruction goes to the
end. With the moves goes the number of operands that lie on the stack, in front of what lay there
when the block was entered; a label has one such number, whichever way it is reached. Facts on all
blocks that programs are lowered to are proved by induction over the moves.

* `Instr.takes`, `Instr.gives`, `Instr.Shifts`: what an instruction does to the number of operands;
* `Block.Built`, the blocks that arise by the moves, and `Block.Open`, with what is known of their
  labels;
* `Expr.leaves_emit`, `Stmt.leavesNone_emit`;
* `Block.Finished`, with **`FunctionDef.finished_block`**, **`Program.finished_main`**.
-/

namespace Stackscript

/-! ## Operands of instructions -/

namespace Instr

/-- The number of operands that an instruction takes off the stack. -/
def takes : Instr → Nat
  | .pop | .popJumpIfZero _ | .popJumpIfNonzero _ | .unary _ | .store _ | .makeFunction | .ret => 1
  | .binary _ | .getIndex => 2
  | .setIndex => 3
  | .makeArray count => count.toNat
  | .call count => count.toNat + 1
  | .pushTrue | .pushFalse | .pushNull | .exit | .goto _ | .number _ | .string _ | .functionRef _
  | .load _ => 0

/-- The number of operands that an instruction puts on the stack. -/
def gives : Instr → Nat
  | .pop | .popJumpIfZero _ | .popJumpIfNonzero _ | .store _ | .ret | .exit | .goto _ => 0
  | _ => 1

/-- The instruction goes on behind itself. -/
def isPlain : Instr → Bool
  | .ret | .exit | .goto _ | .popJumpIfZero _ | .popJumpIfNonzero _ => false
  | _ => true

theorem jumpTarget?_of_isPlain {i : Instr} (h : i.isPlain = true) : i.jumpTarget? = none := by
  cases i with
  | goto | popJumpIfZero | popJumpIfNonzero => cases h
  | _ => rfl

theorem isPlain_of_isConstant {i : Instr} (h : i.isConstant = true) : i.isPlain = true := by
  cases i with
  | ret | exit | goto | popJumpIfZero | popJumpIfNonzero => cases h
  | _ => rfl

/-- **What an instruction does to the number of operands.** `T l k` says that there are `k` of them
at the label `l`, and `inCall` that the instruction stands in a function. -/
inductive Shifts (inCall : Bool) (T : LabelId → Nat → Prop) : Instr → Nat → Nat → Prop where
  | plain {i : Instr} {k : Nat} : i.isPlain = true → Shifts inCall T i (k + i.takes) (k + i.gives)
  | jump {i : Instr} {l : LabelId} {k : Nat} : i.jumpTarget? = some l → T l k →
      Shifts inCall T i (k + i.takes) k
  | ret : inCall = true → Shifts inCall T .ret 1 0
  | exit : inCall = false → Shifts inCall T .exit 0 0

variable {inCall : Bool} {T T' : LabelId → Nat → Prop} {i : Instr} {k k' : Nat}

theorem Shifts.mono (h : i.Shifts inCall T k k') (hT : ∀ l d, T l d → T' l d) :
    i.Shifts inCall T' k k' := by
  cases h with
  | plain hi => exact .plain hi
  | jump hl ht => exact .jump hl (hT _ _ ht)
  | ret hc => exact .ret hc
  | exit hc => exact .exit hc

/-- What an instruction takes and gives is what the number of operands changes by. -/
theorem Shifts.balance (h : i.Shifts inCall T k k') : k + i.gives = k' + i.takes := by
  cases h with
  | plain => omega
  | @jump _ _ k hl =>
    have : i.gives = 0 := by
      cases i with
      | goto | popJumpIfZero | popJumpIfNonzero => rfl
      | _ => cases hl
    omega
  | ret | exit => rfl

/-- Of the target of a jump the number of operands is known. -/
theorem Shifts.target (h : i.Shifts inCall T k k') {l : LabelId} (hl : i.jumpTarget? = some l) :
    ∃ d, T l d := by
  cases h with
  | plain hi => rw [jumpTarget?_of_isPlain hi] at hl; cases hl
  | jump hl' ht => exact ⟨_, Option.some.inj (hl.symm.trans hl') ▸ ht⟩
  | ret | exit => cases hl

/-- An instruction that makes an array takes its items, if they can be counted. -/
theorem shifts_makeArray {count : Nat} (h : count < UInt32.size) :
    (Instr.makeArray (.ofNat count)).Shifts inCall T (k + count) (k + 1) := by
  have hn : (UInt32.ofNat count).toNat = count := UInt32.toNat_ofNat_of_lt' h
  have hshifts : (Instr.makeArray (.ofNat count)).Shifts inCall T
      (k + (Instr.makeArray (.ofNat count)).takes) (k + 1) := .plain rfl
  rwa [takes, hn] at hshifts

end Instr

/-! ## Moves -/

/-- **The blocks that arise by reserving labels, starting them and adding instructions.** Indices
are the labels that are reserved and not started yet, the numbers of operands at all labels, the
numbers of items of all array literals, and the number of operands at the end of the block.
Instructions name variables of the program; a label is started where the end has as many operands as
it, or is not reached. -/
inductive Block.Built (vars : Array Variable) (inCall : Bool) :
    Block → List LabelId → List Nat → List Nat → Nat → Prop where
  | empty : Built vars inCall .empty [] [] [] 0
  | add {b : Block} {reserved : List LabelId} {ds cs : List Nat} {i : Instr} {k k' : Nat} :
      Built vars inCall b reserved ds cs k → b.labels ≠ #[] →
      i.Shifts inCall (ds[·]? = some ·) k k' → i.KnowsVariable vars inCall →
      Built vars inCall (b.add i) reserved ds cs k'
  | array {b : Block} {reserved : List LabelId} {ds cs : List Nat} {k : Nat} (count : Nat) :
      Built vars inCall b reserved ds cs (k + count) → b.labels ≠ #[] →
      Built vars inCall (b.add (.makeArray (.ofNat count))) reserved ds (count :: cs) (k + 1)
  | reserve {b : Block} {reserved : List LabelId} {ds cs : List Nat} {k : Nat} (d : Nat) :
      Built vars inCall b reserved ds cs k →
      Built vars inCall b.reserve.2 (b.nextLabel :: reserved) (ds ++ [d]) cs k
  | bind {b : Block} {reserved : List LabelId} {ds cs : List Nat} {l : LabelId} {k d : Nat} :
      Built vars inCall b (l :: reserved) ds cs k → ds[l]? = some d → d ≤ k →
      (d = k ∨ ∃ b₀ l₀, b = Block.add b₀ (.goto l₀)) → Built vars inCall (b.bind l) reserved ds cs d
  | swap {b : Block} {reserved : List LabelId} {ds cs : List Nat} {l l' : LabelId} {k : Nat} :
      Built vars inCall b (l :: l' :: reserved) ds cs k →
      Built vars inCall b (l' :: l :: reserved) ds cs k

namespace Block

variable {vars : Array Variable} {inCall : Bool} {b : Block} {reserved : List LabelId}
  {ds cs : List Nat} {k : Nat}

theorem nextLabel_add {C : Type} [LabelCounter C] {b : Block C} (h : b.labels ≠ #[]) (i : Instr) :
    (b.add i).nextLabel = b.nextLabel := by
  rw [add, if_neg (by simpa using h)]

/-- The numbers of operands are those of the labels that have been reserved. -/
theorem Built.length_eq (h : b.Built vars inCall reserved ds cs k) : ds.length = b.nextLabel := by
  induction h with
  | empty => rfl
  | add _ hb _ _ ih => rw [ih, nextLabel_add hb]
  | array count _ hb ih => rw [ih, nextLabel_add hb]
  | reserve d _ ih => rw [List.length_append, ih]; rfl
  | bind _ _ _ _ ih => exact ih
  | swap _ ih => exact ih

theorem Built.fresh (h : b.Built vars inCall reserved ds cs k) :
    b.fresh.2.Built vars inCall reserved (ds ++ [k]) cs k := by
  refine .bind (h.reserve k) ?_ (Nat.le_refl k) (.inl rfl)
  show (ds ++ [k])[b.nextLabel]? = some k
  rw [← h.length_eq, List.getElem?_concat_length]

theorem labels_fresh_ne {C : Type} [LabelCounter C] (b : Block C) : b.fresh.2.labels ≠ #[] := by
  simp [Block.fresh, Block.bind]

theorem add_of_empty {C : Type} [LabelCounter C] {b : Block C} (h : b.labels = #[]) (i : Instr) :
    b.add i = b.fresh.2.add i := by
  have hne : b.fresh.2.labels.isEmpty = false := by simpa using b.labels_fresh_ne
  rw [add, add, h, hne]
  rfl

/-- A block arises by the moves; of some labels the number of operands is known, and `fits` holds if
the items of all array literals can be counted. -/
def Open (vars : Array Variable) (inCall : Bool) (known : List (LabelId × Nat))
    (reserved : List LabelId) (fits : Prop) (b : Block) (k : Nat) : Prop :=
  ∃ ds cs, (∀ x ∈ known, ds[x.1]? = some x.2) ∧ ((∀ c ∈ cs, c < UInt32.size) → fits) ∧
    b.Built vars inCall reserved ds cs k

namespace Open

variable {known : List (LabelId × Nat)} {fits fits' : Prop} {l l' : LabelId} {d k' : Nat}

theorem imp (h : b.Open vars inCall known reserved fits k) (hf : fits → fits') :
    b.Open vars inCall known reserved fits' k := by
  obtain ⟨ds, cs, hknown, hfits, h⟩ := h
  exact ⟨ds, cs, hknown, fun hcs => hf (hfits hcs), h⟩

theorem forget {x : LabelId × Nat} (h : b.Open vars inCall (x :: known) reserved fits k) :
    b.Open vars inCall known reserved fits k := by
  obtain ⟨ds, cs, hknown, hfits, h⟩ := h
  exact ⟨ds, cs, fun y hy => hknown y (List.mem_cons_of_mem _ hy), hfits, h⟩

theorem extend {more : List Nat} (hknown : ∀ x ∈ known, ds[x.1]? = some x.2) :
    ∀ x ∈ known, (ds ++ more)[x.1]? = some x.2 := by
  intro x hx
  have hx := hknown x hx
  rw [List.getElem?_append_left (List.getElem?_eq_some_iff.1 hx).1, hx]

theorem fresh (h : b.Open vars inCall known reserved fits k) :
    b.fresh.2.Open vars inCall known reserved fits k := by
  obtain ⟨ds, cs, hknown, hfits, h⟩ := h
  exact ⟨_, cs, extend hknown, hfits, h.fresh⟩

/-- A block to which an instruction is added may be assumed to have a label. -/
theorem of_started {i : Instr} (h : b.Open vars inCall known reserved fits k)
    (hadd : ∀ {b : Block}, b.labels ≠ #[] → b.Open vars inCall known reserved fits k →
      (b.add i).Open vars inCall known reserved fits' k') :
    (b.add i).Open vars inCall known reserved fits' k' := by
  by_cases hb : b.labels = #[]
  · rw [add_of_empty hb]
    exact hadd b.labels_fresh_ne h.fresh
  · exact hadd hb h

theorem add {i : Instr} (h : b.Open vars inCall known reserved fits k)
    (hi : i.Shifts inCall (fun l d => (l, d) ∈ known) k k') (hv : i.KnowsVariable vars inCall) :
    (b.add i).Open vars inCall known reserved fits k' := by
  refine h.of_started fun hb h => ?_
  obtain ⟨ds, cs, hknown, hfits, h⟩ := h
  exact ⟨ds, cs, hknown, hfits, h.add hb (hi.mono fun _ _ hx => hknown _ hx) hv⟩

theorem plain {i : Instr} (h : b.Open vars inCall known reserved fits (k + i.takes))
    (hi : i.isPlain = true)
    (hv : i.KnowsVariable vars inCall) :
    (b.add i).Open vars inCall known reserved fits (k + i.gives) :=
  h.add (.plain hi) hv

theorem jump {i : Instr} (h : b.Open vars inCall known reserved fits (k + i.takes))
    (hi : i.jumpTarget? = some l)
    (hl : (l, k) ∈ known) : (b.add i).Open vars inCall known reserved fits k := by
  refine h.add (.jump hi hl) ?_
  cases i with
  | load | store => cases hi
  | _ => trivial

theorem array {count : Nat} (h : b.Open vars inCall known reserved fits (k + count)) :
    (b.add (.makeArray (.ofNat count))).Open vars inCall known reserved (fits ∧
      count < UInt32.size) (k + 1) := by
  refine h.of_started fun hb h => ?_
  obtain ⟨ds, cs, hknown, hfits, h⟩ := h
  refine ⟨ds, count :: cs, hknown, fun hcs => ?_, h.array count hb⟩
  exact ⟨hfits fun c hc => hcs c (List.mem_cons_of_mem _ hc), hcs count (List.mem_cons_self ..)⟩

theorem reserve (h : b.Open vars inCall known reserved fits k) (d : Nat) :
    b.reserve.2.Open vars inCall ((b.nextLabel, d) :: known) (b.nextLabel :: reserved) fits k := by
  obtain ⟨ds, cs, hknown, hfits, h⟩ := h
  refine ⟨ds ++ [d], cs, List.forall_mem_cons.2 ⟨?_, extend hknown⟩, hfits, h.reserve d⟩
  rw [← h.length_eq, List.getElem?_concat_length]

theorem bind (h : b.Open vars inCall known (l :: reserved) fits k) (hl : (l, k) ∈ known) :
    (b.bind l).Open vars inCall known reserved fits k := by
  obtain ⟨ds, cs, hknown, hfits, h⟩ := h
  exact ⟨ds, cs, hknown, hfits, h.bind (hknown _ hl) (Nat.le_refl k) (.inl rfl)⟩

/-- Behind a jump a label can be started at which there are fewer operands. -/
theorem bind_goto (h : (b.add (.goto l')).Open vars inCall known (l :: reserved) fits k)
    (hl : (l, d) ∈ known)
    (hd : d ≤ k) : ((b.add (.goto l')).bind l).Open vars inCall known reserved fits d := by
  obtain ⟨ds, cs, hknown, hfits, h⟩ := h
  exact ⟨ds, cs, hknown, hfits, h.bind (hknown _ hl) hd (.inr ⟨b, l', rfl⟩)⟩

theorem swap (h : b.Open vars inCall known (l :: l' :: reserved) fits k) :
    b.Open vars inCall known (l' :: l :: reserved) fits k := by
  obtain ⟨ds, cs, hknown, hfits, h⟩ := h
  exact ⟨ds, cs, hknown, hfits, h.swap⟩

end Open

end Block

/-! ## Variables -/

section Variables

variable {vars : Array Variable} {n : Names} {name : String} {c : Cell} {inCall : Bool}

theorem Cell.Declared.knows_load (h : c.Declared vars name) (hown : c.owner.isSome = true →
      inCall = true) :
    (Instr.load c.id).KnowsVariable vars inCall := by
  obtain ⟨v, hv, rfl, -, hstored⟩ := h
  refine ⟨v, hv, ?_⟩
  cases c with
  | native slot => rw [if_pos hstored.1, hstored.2]; rfl
  | shared id =>
    have hglobal : v.storage.isGlobal = true := hstored
    have hnative : v.storage ≠ .native := fun h => by rw [h] at hglobal; cases hglobal
    rw [if_neg hnative, hglobal]
    rfl
  | own f id => rw [if_neg hstored.2, hown rfl, Bool.or_true]

theorem Cell.Declared.knows_store (h : c.Declared vars name) (hown : c.owner.isSome = true →
      inCall = true)
    (hnative : ∀ slot, c ≠ .native slot) : (Instr.store c.id).KnowsVariable vars inCall := by
  obtain ⟨v, hv, -, -, hstored⟩ := h
  refine ⟨v, hv, ?_⟩
  cases c with
  | native slot => exact absurd rfl (hnative slot)
  | shared id =>
    have hglobal : v.storage.isGlobal = true := hstored
    have hnative : v.storage ≠ .native := fun h => by rw [h] at hglobal; cases hglobal
    refine ⟨hnative, ?_⟩
    rw [hglobal]
    rfl
  | own f id =>
    refine ⟨hstored.2, ?_⟩
    rw [hown rfl, Bool.or_true]

/-- What is declared can be written. -/
theorem Names.knows_store (hn : n.function.isSome = inCall) (h : n.cell.Declared vars name) :
    (Instr.store n.nextVar).KnowsVariable vars inCall := by
  rw [← n.id_cell]
  exact h.knows_store (fun howner => hn ▸ n.isSome_function_of_cell howner) n.cell_ne_native

end Variables

/-! ## Trees -/

/-- What is emitted leaves so many operands more, and `fits` holds if the items of its array
literals can be counted. -/
def Leaves (vars : Array Variable) (inCall : Bool) (count : Nat) (fits : Prop)
    (emit : Block → Block) : Prop :=
  ∀ {known : List (LabelId × Nat)} {reserved : List LabelId} {before : Prop} {b : Block} {k : Nat},
    b.Open vars inCall known reserved before k →
    (emit b).Open vars inCall known reserved (before ∧ fits) (k + count)

theorem Block.Open.nothing {vars : Array Variable} {inCall : Bool} {known : List (LabelId × Nat)}
    {reserved : List LabelId} {fits : Prop} {b : Block} {k : Nat}
    (h : b.Open vars inCall known reserved fits k) :
    b.Open vars inCall known reserved (fits ∧ True) k :=
  h.imp fun hf => ⟨hf, trivial⟩

mutual

/-- **An expression leaves one operand.** -/
theorem Expr.leaves_emit {vars : Array Variable} {inCall : Bool} {n : Names}
    (hn : n.function.isSome = inCall) :
    (e : Expr) → e.Accepted vars n → Leaves vars inCall 1 e.ArraysFit (e.emit n)
  | .number .., _, _, _, _, _, _, h | .string .., _, _, _, _, _, _, h
  | .boolean _ true, _, _, _, _, _, _, h
  | .boolean _ false, _, _, _, _, _, _, h | .null _, _, _, _, _, _, _, h =>
    h.nothing.plain rfl trivial
  | .ident _ name, ⟨c, hc⟩, _, _, _, _, _, h => by
    refine h.nothing.plain rfl ?_
    rw [hc.idOf]
    exact hc.declared.knows_load fun howner => hn ▸ hc.isSome_function howner
  | .array _ items, ha, _, _, _, _, _, h =>
    (Expr.leaves_emitAll hn items ha h).array.imp fun ⟨⟨h, hitems⟩, hcount⟩ => ⟨h, hcount, hitems⟩
  | .binary _ _ left right, ha, _, _, _, _, _, h => by
    have h := right.leaves_emit hn ha.2 (left.leaves_emit hn ha.1 h)
    exact (h.imp and_assoc.1).plain rfl trivial
  | .unary _ _ arg, ha, _, _, _, _, _, h => by
    have h := arg.leaves_emit hn ha h
    exact h.plain rfl trivial
  | .cond _ test yes no, ⟨htest, hyes, hno⟩, known, _, _, b, k, h => by
    have hotherwise : ∀ x, ((test.emit n b).nextLabel, k) ∈ x ::
        ((test.emit n b).nextLabel, k) :: known :=
      fun x => List.mem_cons_of_mem x (List.mem_cons_self ..)
    have h := ((test.leaves_emit hn htest h).reserve k).reserve (k + 1)
    have h := (h.jump (i := .popJumpIfZero (test.emit n b).nextLabel) rfl (hotherwise _)).fresh
    have h := (yes.leaves_emit hn hyes h).jump (i := .goto ((test.emit n b).nextLabel + 1)) rfl
      (List.mem_cons_self ..)
    have h := h.swap.bind_goto (hotherwise _) (Nat.le_succ k)
    have h := ((no.leaves_emit hn hno h).bind (List.mem_cons_self ..)).forget.forget
    exact h.imp fun ⟨⟨⟨h, htest⟩, hyes⟩, hno⟩ => ⟨h, htest, hyes, hno⟩
  | .assign _ target value, ⟨⟨c, hc, hnative⟩, ha⟩, _, _, _, _, _, h => by
    have hown : c.owner.isSome = true → inCall = true :=
      fun howner => hn ▸ hc.isSome_function howner
    have hstore := hc.declared.knows_store hown hnative
    have hload := hc.declared.knows_load hown
    rw [← hc.idOf] at hstore hload
    have h := value.leaves_emit hn ha h
    exact (h.plain (i := .store (n.idOf target.val)) rfl hstore).plain rfl hload
  | .assignAt _ _ object position value, ⟨hobject, hposition, hvalue⟩, _, _, _, _, _, h => by
    have h := position.leaves_emit hn hposition (object.leaves_emit hn hobject h)
    have h := value.leaves_emit hn hvalue h
    exact (h.imp fun ⟨⟨⟨h, hobject⟩, hposition⟩, hvalue⟩ =>
      ⟨h, hobject, hposition, hvalue⟩).plain rfl trivial
  | .index _ object position, ha, _, _, _, _, _, h => by
    have h := position.leaves_emit hn ha.2 (object.leaves_emit hn ha.1 h)
    exact (h.imp and_assoc.1).plain rfl trivial
  | .call _ callee args, ⟨hcount, hargs, hcallee⟩, _, _, _, _, k, h => by
    have h := callee.leaves_emit hn hcallee (Expr.leaves_emitAll hn args hargs h)
    have hn : (UInt8.ofNat args.length).toNat = args.length := by
      rw [UInt8.toNat_ofNat']
      exact Nat.mod_eq_of_lt (Nat.lt_succ_of_le hcount)
    refine Block.Open.plain (i := .call _) (k := k) ?_ rfl trivial
    rw [Instr.takes, hn]
    exact h.imp and_assoc.1

/-- Expressions leave one operand each. -/
theorem Expr.leaves_emitAll {vars : Array Variable} {inCall : Bool} {n : Names}
    (hn : n.function.isSome = inCall) :
    (es : List Expr) → Expr.AcceptedAll vars n es →
    Leaves vars inCall es.length (Expr.AllArraysFit es) (Expr.emitAll n es)
  | [], _, _, _, _, _, _, h => h.nothing
  | e :: es, ha, _, _, _, _, k, h => by
    have h := Expr.leaves_emitAll hn es ha.2 (e.leaves_emit hn ha.1 h)
    rw [Nat.add_right_comm] at h
    exact h.imp and_assoc.1

end

theorem Expr.leaves_emitOptional {vars : Array Variable} {inCall : Bool} {n : Names}
    (hn : n.function.isSome = inCall) (e : Option Expr)
    (ha : Expr.AcceptedOptional vars n e) :
    Leaves vars inCall 1 (Expr.OptionalArraysFit e) (Expr.emitOptional n e) := by
  cases e with
  | some e => exact e.leaves_emit hn ha
  | none => exact fun h => h.nothing.plain rfl trivial

/-- At the labels of the nearest loop, if there is one, there are no operands. -/
def LoopKnown (loop : Option (LabelId × LabelId)) (known : List (LabelId × Nat)) : Prop :=
  ∀ condition stop, loop = some (condition, stop) → (condition, 0) ∈ known ∧ (stop, 0) ∈ known

theorem LoopKnown.cons {loop : Option (LabelId × LabelId)} {known : List (LabelId × Nat)}
    (h : LoopKnown loop known) (x : LabelId × Nat) : LoopKnown loop (x :: known) :=
  fun c s hl => ⟨List.mem_cons_of_mem x (h c s hl).1, List.mem_cons_of_mem x (h c s hl).2⟩

/-- What is emitted begins and ends without operands, and `fits` holds if the items of its array
literals can be counted. -/
def LeavesNone (vars : Array Variable) (inCall : Bool) (loop : Option (LabelId × LabelId))
    (fits : Prop) (emit : Block → Block) : Prop :=
  ∀ {known : List (LabelId × Nat)} {reserved : List LabelId} {before : Prop} {b : Block},
    LoopKnown loop known → b.Open vars inCall known reserved before 0 →
    (emit b).Open vars inCall known reserved (before ∧ fits) 0

mutual

/-- **A statement leaves no operands.** -/
theorem Stmt.leavesNone_emit {vars : Array Variable} {inCall inLoop : Bool}
    (loop : Option (LabelId × LabelId)) :
    (s : Stmt) → (n : Names) → s.Accepted vars n inLoop → n.function.isSome = inCall →
    LeavesNone vars inCall loop s.ArraysFit (s.emit n loop)
  | .var _ init, n, ha, hn, _, _, _, _, _, h => by
    have h := Expr.leaves_emitOptional hn init ha.1 h
    exact h.plain rfl (n.knows_store hn ha.2)
  | .const _ init, n, ha, hn, _, _, _, _, _, h => by
    have h := init.leaves_emit hn ha.1 h
    exact h.plain rfl (n.knows_store hn ha.2)
  | .function .., n, ha, hn, _, _, _, _, _, h => by
    have h := h.nothing.plain (i := .functionRef n.nextFunction) rfl trivial
    have h := h.plain (i := .makeFunction) (k := 0) rfl trivial
    exact h.plain rfl (n.knows_store hn ha)
  | .expr e, n, ha, hn, _, _, _, _, _, h => by
    have h := e.leaves_emit hn ha h
    exact h.plain rfl trivial
  | .block body, n, ha, hn, _, _, _, _, hloop, h =>
    Stmt.leavesNone_emitAll loop body n ha hn hloop h
  | .ifThen test yes, n, ha, hn, _, _, _, b, hloop, h => by
    have h := (test.leaves_emit hn ha.1 h).reserve 0
    have h := (h.jump (i := .popJumpIfZero (test.emit n b).nextLabel) rfl
      (List.mem_cons_self ..)).fresh
    have h := yes.leavesNone_emit loop n ha.2 hn (hloop.cons _) h
    exact (h.bind (List.mem_cons_self ..)).forget.imp and_assoc.1
  | .ifElse test yes no, n, ⟨htest, hyes, hno⟩, hn, _, _, _, b, hloop, h => by
    have h := (test.leaves_emit hn htest h).reserve 0
    have h := (h.jump (i := .popJumpIfZero (test.emit n b).nextLabel) rfl
      (List.mem_cons_self ..)).fresh
    have h := (yes.leavesNone_emit loop n hyes hn (hloop.cons _) h).reserve 0
    have h := h.jump (i := .goto (yes.emit n loop _).nextLabel) rfl (List.mem_cons_self ..)
    have h := h.swap.bind (List.mem_cons_of_mem _ (List.mem_cons_self ..))
    have h := no.leavesNone_emit loop (yes.after n) hno (by rw [Stmt.function_after, hn])
      ((hloop.cons _).cons _) h
    have h := (h.bind (List.mem_cons_self ..)).forget.forget
    exact h.imp fun ⟨⟨⟨h, htest⟩, hyes⟩, hno⟩ => ⟨h, htest, hyes, hno⟩
  | .while test body, n, ha, hn, _, _, _, b, hloop, h => by
    -- the labels of the end and of the condition, in the order in which they are reserved
    have h := ((h.reserve 0).reserve 0).bind (List.mem_cons_self ..)
    have hstop : ∀ x known, (b.nextLabel, 0) ∈ x :: (b.nextLabel, 0) :: known :=
      fun x _ => List.mem_cons_of_mem x (List.mem_cons_self ..)
    have h := ((test.leaves_emit hn ha.1 h).jump
      (i := .popJumpIfZero b.nextLabel) rfl (hstop _ _)).fresh
    have h := body.leavesNone_emit (some (b.nextLabel + 1, b.nextLabel)) n ha.2 hn
      (by rintro _ _ ⟨⟩; exact ⟨List.mem_cons_self .., hstop _ _⟩) h
    have h := h.jump (i := .goto (b.nextLabel + 1)) rfl (List.mem_cons_self ..)
    exact (h.bind (hstop _ _)).forget.forget.imp and_assoc.1
  | .return value _, n, ha, hn, _, _, _, _, _, h => by
    have h := Expr.leaves_emitOptional hn value ha.2 h
    exact h.add (.ret (hn ▸ ha.1)) trivial
  | .break _, n, _, _, _, _, _, _, hloop, h => by
    cases loop with
    | none => exact h.nothing
    | some labels => exact h.nothing.jump (i := .goto _) rfl (hloop _ _ rfl).2
  | .continue _, n, _, _, _, _, _, _, hloop, h => by
    cases loop with
    | none => exact h.nothing
    | some labels => exact h.nothing.jump (i := .goto _) rfl (hloop _ _ rfl).1
  | .empty, n, _, _, _, _, _, _, _, h => h.nothing

/-- Statements leave no operands. -/
theorem Stmt.leavesNone_emitAll {vars : Array Variable} {inCall inLoop : Bool}
    (loop : Option (LabelId × LabelId)) :
    (ss : List Stmt) → (n : Names) → Stmt.AcceptedAll vars n inLoop ss →
    n.function.isSome = inCall →
    LeavesNone vars inCall loop (Stmt.AllArraysFit ss) (Stmt.emitAll n loop ss)
  | [], _, _, _, _, _, _, _, _, h => h.nothing
  | s :: ss, n, ha, hn, _, _, _, _, hloop, h => by
    have h := Stmt.leavesNone_emitAll loop ss (s.after n) ha.2 (by rw [Stmt.function_after, hn])
      hloop (s.leavesNone_emit loop n ha.1 hn hloop h)
    exact h.imp and_assoc.1

end

/-! ## The blocks of a program -/

/-- The last instruction of the last label. -/
def Block.final? (b : Block) : Option Instr := b.labels.back?.bind (·.code.back?)

theorem Block.final?_add (b : Block) (i : Instr) : (b.add i).final? = some i := by
  have hlast : ∀ (ls : List Label) {l : Label}, (b.add i).labels.toList = ls ++ [l.push i] →
      (b.add i).final? = some i := by
    intro ls l h
    rw [final?, ← Array.getLast?_toList, h, List.getLast?_concat]
    simp [Label.push]
  rcases b.eq_empty_or_last with h | ⟨ls, l, h, hsize⟩
  · exact hlast [] (labels_add_empty h i)
  · exact hlast ls (labels_add h hsize i)

/-- A body that ends in a return has a block that does. -/
theorem Stmt.final?_emitAll {ss : List Stmt} (hr : ss.getLast?.any Lower.isReturn = true)
    (n : Names)
    (loop : Option (LabelId × LabelId)) (b : Block) :
    (Stmt.emitAll n loop ss b).final? = some .ret := by
  induction ss generalizing n b with
  | nil => cases hr
  | cons s ss ih =>
    cases ss with
    | nil =>
      cases s with
      | «return» value span => exact Block.final?_add _ _
      | _ => cases hr
    | cons s' ss => exact ih hr (s.after n) (s.emit n loop b)

theorem Block.open_empty (vars : Array Variable) (inCall : Bool) :
    Block.empty.Open vars inCall [] [] True 0 :=
  ⟨[], [], nofun, fun _ => trivial, .empty⟩

/-- A finished block: it arises by the moves and ends in a given instruction, and `fits` holds if
the items of all array literals can be counted. -/
structure Block.Finished (vars : Array Variable) (b : Block) (inCall : Bool) (final : Instr)
    (fits : Prop) : Prop where
  built : ∃ ds cs, b.Built vars inCall [] ds cs 0 ∧ ((∀ c ∈ cs, c < UInt32.size) → fits)
  final : b.final? = some final

theorem Block.Open.finished {vars : Array Variable} {b : Block} {inCall : Bool} {final : Instr}
    {fits : Prop} (h : b.Open vars inCall [] [] (True ∧ fits) 0) (hfinal : b.final? = some final) :
    b.Finished vars inCall final fits := by
  obtain ⟨ds, cs, -, hfits, hbuilt⟩ := h
  exact ⟨⟨ds, cs, hbuilt, fun hcs => (hfits hcs).2⟩, hfinal⟩

/-- **The block of a function arises by the moves** and ends in a return. -/
theorem FunctionDef.finished_block {vars : Array Variable} (f : FunctionDef) (h : f.Accepted vars) :
    f.block.Finished vars true .ret (Stmt.AllArraysFit f.body) := by
  have hc : f.inner.function.isSome = true := by
    rw [FunctionDef.inner, Names.enter, Names.function_declareAll]
    rfl
  have hbody :=
    Stmt.leavesNone_emitAll none f.body f.inner h.body hc nofun (Block.open_empty vars true)
  unfold FunctionDef.block
  by_cases hr : f.body.getLast?.any Lower.isReturn = true
  · simp only [if_pos hr]
    exact hbody.finished (Stmt.final?_emitAll hr f.inner none .empty)
  · simp only [if_neg hr]
    exact ((hbody.plain (i := .pushNull) rfl trivial).add (.ret rfl) trivial).finished
      (Block.final?_add _ _)

/-- **The block of the top level arises by the moves** and ends in an exit. -/
theorem Program.finished_main {vars : Array Variable} (p : Program)
    (h : Stmt.AcceptedAll vars .top false p) :
    p.main.Finished vars false .exit (Stmt.AllArraysFit p) := by
  have hbody := Stmt.leavesNone_emitAll none p .top h rfl nofun (Block.open_empty vars false)
  exact (hbody.fresh.add (.exit rfl) trivial).finished (Block.final?_add _ _)

end Stackscript
