import Stackscript.Proofs.Sites

/-!
# Lowered code does what the tree does

The label machine on the code of a tree follows the evaluation of the tree.

* `Site.Runs`, a site at which calls are followed;
* `Site.Pushes`, with a lemma for each form of an expression, and **`Expr.follows`**;
* **`Eval.loop_follows`**: iterations are followed one by one;
* `Site.Does`, with a lemma for each form of a statement, and **`Stmt.follows`**.
-/

namespace Stackscript

/-! ## Sites that are run -/

theorem splitTop_append (vs stack above : List Value) :
    splitTop vs.length (vs ++ stack) above = some (vs.reverse ++ above, stack) := by
  induction vs generalizing above with
  | nil => rfl
  | cons v vs ih =>
    rw [List.length_cons, List.cons_append, splitTop, ih, List.reverse_cons, List.append_assoc]
    rfl

/-- Values that were pushed in order are taken off in order. -/
theorem splitTop_pushed (args stack : List Value) :
    splitTop args.length (args.reverse ++ stack) [] = some (args, stack) := by
  rw [← List.length_reverse, splitTop_append, List.reverse_reverse, List.append_nil]

theorem Memory.read_write (s : Memory) (v : Value) {cell : Cell} (h : ∀ slot, cell ≠ .native slot) :
    (s.write v cell).read cell = v := by
  cases cell with
  | native slot => exact absurd rfl (h slot)
  | shared id => exact if_pos rfl
  | own f id => exact if_pos rfl

/-- A value has been pushed by the code of a block. -/
def Site.Pushed (c : Site) (b : Block) (stack : List Value) (v : Value) (s : Memory)
    (m : LabelMachine) : Prop :=
  m = c.machine b.tip (v :: stack) s

/-- Values have been pushed in order by the code of a block. -/
def Site.PushedAll (c : Site) (b : Block) (stack : List Value) (vs : List Value)
    (s : Memory) (m : LabelMachine) :
    Prop :=
  m = c.machine b.tip (vs.reverse ++ stack) s

/-- **A block is run at a site**, and its calls are followed. -/
structure Site.Runs (code : LabelCode) (host : Host) (fuel : Nat) (call : Value → List Value →
      Eval Value)
    (c : Site) (B : Block) : Prop where
  block : c.block? code = some B
  distinct : B.labelIds.Nodup
  calls : ∀ {b : Block} {count : UInt8} {args : List Value}, (b.add (.call count)).PartOf B →
    count.toNat = args.length → ∀ (callee : Value) (stack : List Value) (s : Memory),
      Follows code host fuel (c.active code) (c.machine b.tip (callee :: (args.reverse ++ stack)) s)
        (c.Pushed (b.add (.call count)) stack) (call callee args s)

namespace Site.Runs

variable {code : LabelCode} {host : Host} {fuel : Nat} {call : Value → List Value → Eval Value}
  {c : Site} {B b : Block} {i : Instr} {stack stack' : List Value} {s : Memory}

/-- A constant is pushed. -/
theorem push (h : c.Runs code host fuel call B) (hpart : (b.add i).PartOf B) {v : Value}
    (hx : ∀ m : LabelMachine, m.execute code host B i = m.push v) :
    Follows code host fuel (c.active code) (c.machine b.tip stack s)
      (c.Pushed (b.add i) stack) (.ok v s) := by
  refine Follows.step (Site.step_push h.block hpart.instr?_tip hx) (Follows.ok ?_)
  rw [Site.Pushed, (b.add_spec i).2]

/-- Operands are replaced by one value. -/
theorem onCore (h : c.Runs code host fuel call B) (hpart : (b.add i).PartOf B) {effect : Core →
      Effect}
    (hx : ∀ m : LabelMachine, m.execute code host B i = m.onCore effect) {v : Value} {world : World}
    (he : effect ⟨stack', s.world⟩ = .done ⟨v :: stack, world⟩) :
    Follows code host fuel (c.active code) (c.machine b.tip stack' s) (c.Pushed (b.add i) stack)
      (.ok v { s with world }) := by
  refine Follows.step ((Site.step_onCore h.block hpart.instr?_tip hx).trans (Site.onCore_done he))
    (Follows.ok ?_)
  rw [Site.Pushed, (b.add_spec i).2]

/-- An operation is carried out on the operands. -/
theorem operation (h : c.Runs code host fuel call B) (hpart : (b.add i).PartOf B) {effect : Core →
      Effect}
    (hx : ∀ m : LabelMachine, m.execute code host B i = m.onCore effect) {r : Heap →
    Except OperationError Value}
    (hok : ∀ v, r s.world.heap = .ok v → effect ⟨stack', s.world⟩ = .done ⟨v :: stack, s.world⟩)
    (herror : ∀ e, r s.world.heap = .error e →
    effect ⟨stack', s.world⟩ = .failed (.operation e) ⟨stack, s.world⟩) :
    Follows code host fuel (c.active code) (c.machine b.tip stack' s) (c.Pushed (b.add i) stack)
      (Eval.operation r s) := by
  unfold Eval.operation
  cases hr : r s.world.heap with
  | ok v => exact h.onCore hpart hx (hok v hr)
  | error e =>
    exact Follows.ended ((Site.step_onCore h.block hpart.instr?_tip hx).trans
      (Site.onCore_failed (herror e hr)))

/-- A new array is made of the operands. -/
theorem newArray (h : c.Runs code host fuel call B) {count : UInt32}
    (hpart : (b.add (.makeArray count)).PartOf B)
    {items : List Value} (hcount : count.toNat = items.length) :
    Follows code host fuel (c.active code) (c.machine b.tip (items.reverse ++ stack) s)
      (c.Pushed (b.add (.makeArray count)) stack) (Eval.newArray items s) := by
  have heffect : Core.makeArray count.toNat ⟨items.reverse ++ stack, s.world⟩ =
      .done ⟨.array (s.world.heap.alloc items.toArray).1 :: stack,
        { s.world with heap := (s.world.heap.alloc items.toArray).2 }⟩ := by
    rw [Core.makeArray, hcount, splitTop_pushed]
  exact h.onCore hpart (fun _ => rfl) heffect

/-- An element is written. -/
theorem writeElement (h : c.Runs code host fuel call B) (hpart : (b.add .setIndex).PartOf B)
    (target index value : Value) :
    Follows code host fuel (c.active code) (c.machine b.tip (value :: index :: target :: stack) s)
      (c.Pushed (b.add .setIndex) stack) (Eval.writeElement target index value s) := by
  unfold Eval.writeElement
  cases hset : s.world.heap.setIndex target index value with
  | done heap =>
    have heffect : Core.setIndex ⟨value :: index :: target :: stack, s.world⟩ =
        .done ⟨value :: stack, { s.world with heap }⟩ := by
      simp only [Core.setIndex, hset]
    exact h.onCore hpart (fun _ => rfl) heffect
  | failed e =>
    have heffect : Core.setIndex ⟨value :: index :: target :: stack, s.world⟩ =
        .failed (.operation e) ⟨stack, s.world⟩ := by
      simp only [Core.setIndex, hset]
    exact Follows.ended ((Site.step_onCore h.block hpart.instr?_tip (fun _ => rfl)).trans
      (Site.onCore_failed heffect))
  | overlap =>
    have heffect : Core.setIndex ⟨value :: index :: target :: stack, s.world⟩ =
        .fault .overlap ⟨stack, s.world⟩ := by
      simp only [Core.setIndex, hset]
    exact Follows.ended ((Site.step_onCore h.block hpart.instr?_tip (fun _ => rfl)).trans
      (Site.onCore_fault heffect))

/-- A cell is written and read again. -/
theorem assign (h : c.Runs code host fuel call B) {name : String} {cell : Cell}
    (hd : cell.Declared code.vars name)
    (hown : cell.owner.isSome = true → c.inCall = true) (hnative : ∀ slot, cell ≠ .native slot)
    (hpart : ((b.add (.store cell.id)).add (.load cell.id)).PartOf B) (v : Value) :
    Follows code host fuel (c.active code) (c.machine b.tip (v :: stack) s)
      (c.Pushed ((b.add (.store cell.id)).add (.load cell.id)) stack) (.ok v (s.write v cell)) := by
  have hstore := ((Block.partOf_add _ _).trans hpart).instr?_tip
  have hload := hpart.instr?_tip
  rw [(b.add_spec _).2] at hload
  refine .step (Site.step_store h.block hd hown hnative hstore v) ?_
  refine .step (Site.step_load h.block hd hown hload) (.ok ?_)
  rw [Site.Pushed, (Block.add_spec _ _).2, (b.add_spec _).2, s.read_write v hnative]

/-- A value is tested: if it is true the run goes on, otherwise at the label of the jump. This takes
a step. -/
theorem branch {α : Type} (h : c.Runs code host fuel call B) {l : LabelId} {b' : Block}
    {fuel' : Nat}
    {target : α → Memory → LabelMachine → Prop} {f : Bool → Eval α}
    (hpart : (b.add (.popJumpIfZero l)).PartOf B) (hbind : (b'.bind l).PartOf B) (v : Value)
    (hyes : Follows code host fuel' (c.active code)
      (c.machine (b.add (.popJumpIfZero l)).tip stack s) target (f true s))
    (hno : Follows code host fuel' (c.active code)
    (c.machine (b'.bind l).tip stack s) target (f false s)) :
    Follows code host (1 + fuel') (c.active code) (c.machine b.tip (v :: stack) s) target
      ((Eval.truth v >>= f) s) := by
  refine Follows.of_steps
    (.one (Site.step_popJumpIfZero h.block hpart.instr?_tip (hbind.startsAt h.distinct) v)) ?_
  show Follows _ _ _ _ _ _ (f (s.world.heap.truthy v) s)
  rw [(b.add_spec _).2] at hyes
  cases s.world.heap.truthy v with
  | true => exact hyes
  | false => exact hno

/-- The code behind a label that ends is reached. -/
theorem bind (h : c.Runs code host fuel call B) {α : Type} {l : LabelId}
    {r : EStateM.Result Interrupt Memory α}
    {target : α → Memory → LabelMachine → Prop} (hbind : (b.bind l).PartOf B)
    (hr : Follows code host fuel (c.active code) (c.machine (b.bind l).tip stack s) target r) :
    Follows code host fuel (c.active code) (c.machine b.tip stack s) target r := by
  obtain ⟨k, hk⟩ : ∃ k, Steps (LabelMachine.step code host) k (c.machine b.tip stack s)
      (c.machine (b.bind l).tip stack s) := Site.steps_bind h.block h.distinct hbind
  exact hr.steps hk

end Site.Runs

/-! ## Expressions -/

section Expressions

variable {code : LabelCode} {host : Host} {fuel : Nat} {call : Value → List Value → Eval Value}
  {c : Site} {B : Block} {n : Names}

theorem Names.Finds.resolve {vars : Array Variable} {name : String} {cell : Cell}
    (h : n.Finds vars name cell) : Eval.resolve n name = pure cell := by
  rw [Eval.resolve, h.lookup]

theorem Names.Finds.owner (hn : n.function.isSome = c.inCall) {vars : Array Variable}
    {name : String} {cell : Cell}
    (h : n.Finds vars name cell) (howner : cell.owner.isSome = true) : c.inCall = true :=
  hn ▸ h.isSome_function howner

/-- The code of an expression, wherever it stands in the block, pushes the value. -/
def Site.Pushes (code : LabelCode) (host : Host) (fuel : Nat)
    (call : Value → List Value → Eval Value) (c : Site) (B : Block) (n : Names) (e : Expr) : Prop :=
  e.Accepted code.vars n → e.ArraysFit → ∀ {b : Block}, (e.emit n b).PartOf B →
    ∀ (stack : List Value) (s : Memory), Follows code host fuel (c.active code)
      (c.machine b.tip stack s) (c.Pushed (e.emit n b) stack) (Eval.expr call n e s)

/-- The code of expressions pushes their values in order. -/
def Site.PushesAll (code : LabelCode) (host : Host) (fuel : Nat)
    (call : Value → List Value → Eval Value) (c : Site) (B : Block) (n : Names) (es : List Expr) :
    Prop :=
  Expr.AcceptedAll code.vars n es → Expr.AllArraysFit es →
    ∀ {b : Block}, (Expr.emitAll n es b).PartOf B → ∀ (stack : List Value) (s : Memory),
      Follows code host fuel (c.active code) (c.machine b.tip stack s)
        (fun vs s' m => c.PushedAll (Expr.emitAll n es b) stack vs s' m ∧ vs.length = es.length)
        (Eval.exprs call n es s)

namespace Site.Runs

variable {span target : Span} {e left right test yes no object position value callee : Expr}
  {es : List Expr}

/-! ### One lemma for each form -/

theorem pushes_array (h : c.Runs code host fuel call B)
    (hitems : c.PushesAll code host fuel call B n es) :
    c.Pushes code host fuel call B n (.array span es) := by
  rintro ha ⟨hlt, hfit⟩ b hpart stack s
  refine (hitems ha hfit ((Block.partOf_add _ _).trans hpart) stack s).bind fun vs s' m hm => ?_
  obtain ⟨rfl, hlen⟩ := hm
  exact h.newArray hpart (by rw [UInt32.toNat_ofNat_of_lt' hlt, hlen])

theorem pushes_ident (h : c.Runs code host fuel call B) (hn : n.function.isSome = c.inCall)
    (name : String) : c.Pushes code host fuel call B n (.ident span name) := by
  rintro ⟨cell, hcell⟩ _ b hpart stack s
  have hi := hpart.instr?_tip
  rw [hcell.idOf] at hi
  rw [Eval.expr, hcell.resolve]
  refine .step (Site.step_load h.block hcell.declared (hcell.owner hn) hi) (.ok ?_)
  rw [Site.Pushed, Expr.emit, (b.add_spec _).2]

theorem pushes_binary (h : c.Runs code host fuel call B) (op : BinaryOperator)
    (hleft : c.Pushes code host fuel call B n left)
    (hright : c.Pushes code host fuel call B n right) :
    c.Pushes code host fuel call B n (.binary span op left right) := by
  rintro ⟨hl, hr⟩ ⟨fl, fr⟩ b hpart stack s
  have hsecond := (Block.partOf_add _ _).trans hpart
  have hfirst := (right.partOf_emit n _).trans hsecond
  refine (hleft hl fl hfirst stack s).bind fun x s₁ m₁ hm₁ => ?_
  cases hm₁
  refine (hright hr fr hsecond _ s₁).bind fun y s₂ m₂ hm₂ => ?_
  cases hm₂
  refine h.operation hpart (fun _ => rfl) (fun v hv => ?_) (fun e he => ?_)
  · simp only [Core.binary, hv]
  · simp only [Core.binary, he]

theorem pushes_unary (h : c.Runs code host fuel call B) (op : UnaryOperator)
    (harg : c.Pushes code host fuel call B n e) :
    c.Pushes code host fuel call B n (.unary span op e) := by
  rintro ha fa b hpart stack s
  refine (harg ha fa ((Block.partOf_add _ _).trans hpart) stack s).bind fun x s₁ m₁ hm₁ => ?_
  cases hm₁
  refine h.operation hpart (fun _ => rfl) (fun v hv => ?_) (fun e he => ?_)
  · simp only [Core.unary, hv]
  · simp only [Core.unary, he]

/-- Both branches end at the label behind the expression: the first by a jump, the second by going
on. -/
theorem pushes_cond (h : c.Runs code host fuel call B)
    (htest : c.Pushes code host fuel call B n test)
    (hyes : c.Pushes code host fuel call B n yes) (hno : c.Pushes code host fuel call B n no) :
    c.Pushes code host fuel call B n (.cond span test yes no) := by
  rintro ⟨ht, hy, hn⟩ ⟨ft, fy, fn⟩ b hpart stack s
  have hother := (Block.partOf_bind _ _).trans hpart
  have htaken := (no.partOf_emit n _).trans hother
  have hgoto := (Block.partOf_bind _ _).trans htaken
  have hthen := (Block.partOf_add _ _).trans hgoto
  have hfresh := (yes.partOf_emit n _).trans hthen
  have hjump := (Block.partOf_fresh _).trans hfresh
  have hfirst := ((Block.partOf_reserve _).trans
    ((Block.partOf_reserve _).trans (Block.partOf_add _ _))).trans hjump
  refine (htest ht ft hfirst stack s).bind fun x s₁ m₁ hm₁ => ?_
  cases hm₁
  refine (h.branch hjump htaken x ?_ ?_).less_fuel (Nat.le_add_left fuel 1)
  · refine h.bind hfresh ?_
    refine (hyes hy fy hthen stack s₁).weaken fun v s₂ m₂ hm₂ => ?_
    cases hm₂
    exact .step (Site.step_goto h.block hgoto.instr?_tip (hpart.startsAt h.distinct)) (.ok rfl)
  · refine (hno hn fn hother stack s₁).weaken fun v s₂ m₂ hm₂ => ?_
    cases hm₂
    exact h.bind hpart (.ok rfl)

theorem pushes_assign (h : c.Runs code host fuel call B) (hn : n.function.isSome = c.inCall)
    {target : Located String} (hvalue : c.Pushes code host fuel call B n value) :
    c.Pushes code host fuel call B n (.assign span target value) := by
  rintro ⟨⟨cell, hcell, hnative⟩, hv⟩ fv b hpart stack s
  have hfirst := ((Block.partOf_add _ _).trans (Block.partOf_add _ _)).trans hpart
  rw [Eval.expr, hcell.resolve]
  refine (hvalue hv fv hfirst stack s).bind fun v s₁ m₁ hm₁ => ?_
  cases hm₁
  rw [Expr.emit, hcell.idOf] at hpart ⊢
  exact h.assign hcell.declared (hcell.owner hn) hnative hpart v

theorem pushes_assignAt (h : c.Runs code host fuel call B)
    (hobject : c.Pushes code host fuel call B n object)
    (hposition : c.Pushes code host fuel call B n position)
    (hvalue : c.Pushes code host fuel call B n value) :
    c.Pushes code host fuel call B n (.assignAt span target object position value) := by
  rintro ⟨ho, hp, hv⟩ ⟨fo, fp, fv⟩ b hpart stack s
  have hthird := (Block.partOf_add _ _).trans hpart
  have hsecond := (value.partOf_emit n _).trans hthird
  have hfirst := (position.partOf_emit n _).trans hsecond
  refine (hobject ho fo hfirst stack s).bind fun x s₁ m₁ hm₁ => ?_
  cases hm₁
  refine (hposition hp fp hsecond _ s₁).bind fun y s₂ m₂ hm₂ => ?_
  cases hm₂
  refine (hvalue hv fv hthird _ s₂).bind fun z s₃ m₃ hm₃ => ?_
  cases hm₃
  exact h.writeElement hpart x y z

theorem pushes_index (h : c.Runs code host fuel call B)
    (hobject : c.Pushes code host fuel call B n object)
    (hposition : c.Pushes code host fuel call B n position) :
    c.Pushes code host fuel call B n (.index span object position) := by
  rintro ⟨ho, hp⟩ ⟨fo, fp⟩ b hpart stack s
  have hsecond := (Block.partOf_add _ _).trans hpart
  have hfirst := (position.partOf_emit n _).trans hsecond
  refine (hobject ho fo hfirst stack s).bind fun x s₁ m₁ hm₁ => ?_
  cases hm₁
  refine (hposition hp fp hsecond _ s₁).bind fun y s₂ m₂ hm₂ => ?_
  cases hm₂
  refine h.operation hpart (fun _ => rfl) (fun v hv => ?_) (fun e he => ?_)
  · simp only [Core.getIndex, hv]
  · simp only [Core.getIndex, he]

theorem pushes_call (h : c.Runs code host fuel call B)
    (hargs : c.PushesAll code host fuel call B n es)
    (hcallee : c.Pushes code host fuel call B n callee) :
    c.Pushes code host fuel call B n (.call span callee es) := by
  rintro ⟨hle, ha, hc⟩ ⟨fa, fc⟩ b hpart stack s
  have hsecond := (Block.partOf_add _ _).trans hpart
  have hfirst := (callee.partOf_emit n _).trans hsecond
  refine (hargs ha fa hfirst stack s).bind fun vs s₁ m₁ hm₁ => ?_
  obtain ⟨rfl, hlen⟩ := hm₁
  refine (hcallee hc fc hsecond _ s₁).bind fun v s₂ m₂ hm₂ => ?_
  cases hm₂
  have hcount := UInt8.toNat_ofNat_of_lt' (Nat.lt_succ_of_le hle)
  exact h.calls hpart (by rw [hcount, hlen]) v stack s₂

end Site.Runs

theorem Site.Pushes.cons {e : Expr} {es : List Expr}
    (hfirst : c.Pushes code host fuel call B n e)
    (hrest : c.PushesAll code host fuel call B n es) :
    c.PushesAll code host fuel call B n (e :: es) := by
  rintro ⟨he, hes⟩ ⟨fe, fes⟩ b hpart stack s
  have hpart' := (Expr.partOf_emitAll n es _).trans hpart
  refine (hfirst he fe hpart' stack s).bind fun v s₁ m₁ hm₁ => ?_
  cases hm₁
  refine (hrest hes fes hpart _ s₁).bind fun vs s₂ m₂ hm₂ => ?_
  obtain ⟨rfl, hlen⟩ := hm₂
  refine .ok ⟨?_, by rw [List.length_cons, List.length_cons, hlen]⟩
  rw [Site.PushedAll, List.reverse_cons, List.append_assoc]
  rfl

mutual

/-- **The code of an expression pushes its value.** -/
theorem Expr.follows (h : c.Runs code host fuel call B) (hn : n.function.isSome = c.inCall) :
    (e : Expr) → c.Pushes code host fuel call B n e
  | .number _ x => fun _ _ _ hpart _ _ => h.push (v := .number x) hpart fun _ => rfl
  | .string _ x => fun _ _ _ hpart _ _ => h.push (v := .string x) hpart fun _ => rfl
  | .boolean _ true => fun _ _ _ hpart _ _ => h.push (v := .boolean true) hpart fun _ => rfl
  | .boolean _ false => fun _ _ _ hpart _ _ => h.push (v := .boolean false) hpart fun _ => rfl
  | .null _ => fun _ _ _ hpart _ _ => h.push (v := .null) hpart fun _ => rfl
  | .array _ items => h.pushes_array (Expr.followsAll h hn items)
  | .ident _ name => h.pushes_ident hn name
  | .binary _ op left right => h.pushes_binary op (left.follows h hn) (right.follows h hn)
  | .unary _ op arg => h.pushes_unary op (arg.follows h hn)
  | .cond _ test yes no => h.pushes_cond (test.follows h hn) (yes.follows h hn) (no.follows h hn)
  | .assign _ _ value => h.pushes_assign hn (value.follows h hn)
  | .assignAt _ _ object position value =>
    h.pushes_assignAt (object.follows h hn) (position.follows h hn) (value.follows h hn)
  | .index _ object position => h.pushes_index (object.follows h hn) (position.follows h hn)
  | .call _ callee args => h.pushes_call (Expr.followsAll h hn args) (callee.follows h hn)

/-- The code of expressions pushes their values in order. -/
theorem Expr.followsAll (h : c.Runs code host fuel call B) (hn : n.function.isSome = c.inCall) :
    (es : List Expr) → c.PushesAll code host fuel call B n es
  | [] => fun _ _ _ _ _ _ => .ok ⟨rfl, rfl⟩
  | e :: es => (e.follows h hn).cons (Expr.followsAll h hn es)

end

end Expressions

/-! ## Statements -/

section Statements

variable {code : LabelCode} {host : Host} {fuel : Nat} {call : Value → List Value → Eval Value}
  {c : Site} {B b : Block} {n : Names} {stack : List Value} {s : Memory}

/-- The innermost call has been left with a result. -/
def Site.Returned (code : LabelCode) (c : Site) (stack : List Value) (v : Value) (s : Memory)
    (m : LabelMachine) : Prop :=
  ∃ f outer frames charged fn, c = .call f outer frames charged ∧ code.functions[f]? = some fn ∧
    m = ⟨⟨v :: stack, s.world⟩, s.globals, outer, frames,
    charged - Frame.cost (fn.frameVars code.vars).length⟩

/-- A statement has been left by a signal: behind its code, at a label of the loop around it or out
of the call. -/
def Site.Left (code : LabelCode) (B : Block) (c : Site) (loop : Option (LabelId × LabelId))
    (b : Block) (stack : List Value) : Signal → Memory → LabelMachine → Prop
  | .normal, s, m => m = c.machine b.tip stack s
  | .broken, s, m =>
    ∃ labels p, loop = some labels ∧ B.StartsAt labels.2 p ∧ m = c.machine p stack s
  | .continued, s, m =>
    ∃ labels p, loop = some labels ∧ B.StartsAt labels.1 p ∧ m = c.machine p stack s
  | .returned v, s, m => c.Returned code stack v s m

/-- The labels of the loop around a statement stand in the block, if there has to be one. -/
def Block.HasLoop (B : Block) (inLoop : Bool) (loop : Option (LabelId × LabelId)) : Prop :=
  inLoop = true → ∃ labels p q, loop = some labels ∧ B.StartsAt labels.1 p ∧ B.StartsAt labels.2 q

variable {loop : Option (LabelId × LabelId)}

/-- What is left in another way than normally does not depend on the code behind it. -/
theorem Site.Left.weaken {b' : Block}
    (hnormal : ∀ s, Follows code host fuel (c.active code) (c.machine b.tip stack s)
      (c.Left code B loop b' stack)
      (.ok .normal s)) (signal : Signal) (s : Memory) (m : LabelMachine)
    (h : c.Left code B loop b stack signal s m) :
    Follows code host fuel (c.active code) m (c.Left code B loop b' stack) (.ok signal s) := by
  cases signal with
  | normal => cases h; exact hnormal s
  | broken | continued | returned v => exact .ok h

namespace Site.Runs

/-- A declared cell gets its value. -/
theorem define (h : c.Runs code host fuel call B) (hn : n.function.isSome = c.inCall)
    {name : String}
    (hd : n.cell.Declared code.vars name) (hpart : (b.add (.store n.nextVar)).PartOf B)
    (v : Value) :
    Follows code host fuel (c.active code) (c.machine b.tip (v :: stack) s)
      (c.Left code B loop (b.add (.store n.nextVar)) stack) (.ok .normal (s.write v n.cell)) := by
  have hi := hpart.instr?_tip
  rw [← n.id_cell] at hi
  have hown : n.cell.owner.isSome = true → c.inCall = true :=
    fun howner => hn ▸ n.isSome_function_of_cell howner
  refine .step (Site.step_store h.block hd hown n.cell_ne_native hi v) (.ok ?_)
  rw [Site.Left, (b.add_spec _).2]

/-- A function of the program becomes a value. -/
theorem makeFunction (h : c.Runs code host fuel call B) {i : Nat} (hi : i < code.functions.size)
    (hpart : ((b.add (.functionRef i)).add .makeFunction).PartOf B) :
    Follows code host fuel (c.active code) (c.machine b.tip stack s)
      (c.Pushed ((b.add (.functionRef i)).add .makeFunction) stack) (.ok (.function i) s) := by
  have href := ((Block.partOf_add _ _).trans hpart).instr?_tip
  have hmake := hpart.instr?_tip
  rw [(b.add_spec _).2] at hmake
  have heffect : Core.makeFunction code.functions.size ⟨.function i :: stack, s.world⟩ =
      .done ⟨.function i :: stack, s.world⟩ := if_pos hi
  refine .step (Site.step_push h.block href (v := .function i) fun _ => rfl) ?_
  refine .step ((Site.step_onCore h.block hmake (fun _ => rfl)).trans (Site.onCore_done heffect))
    (.ok ?_)
  rw [Site.Pushed, (Block.add_spec _ _).2, (b.add_spec _).2]

/-- A call is left. -/
theorem ret (h : c.Runs code host fuel call B) (hc : c.inCall = true)
    (hpart : (b.add .ret).PartOf B)
    (v : Value) : Follows code host fuel (c.active code) (c.machine b.tip (v :: stack) s)
      (c.Returned code stack) (.ok v s) := by
  cases c with
  | top => cases hc
  | call f outer frames charged =>
    obtain ⟨fn, hfn, -⟩ := Option.map_eq_some_iff.1 h.block
    refine .step ?_ (.ok ⟨f, outer, frames, charged, fn, rfl, hfn, rfl⟩)
    rw [Site.step_instr h.block hpart.instr?_tip]
    simp only [LabelMachine.execute, Site.machine, LabelMachine.leave, hfn]

end Site.Runs

theorem Expr.followsOptional (h : c.Runs code host fuel call B) (hn : n.function.isSome = c.inCall)
    (e : Option Expr) (ha : Expr.AcceptedOptional code.vars n e) (hf : Expr.OptionalArraysFit e)
    (hpart : (Expr.emitOptional n e b).PartOf B) :
    Follows code host fuel (c.active code) (c.machine b.tip stack s)
      (c.Pushed (Expr.emitOptional n e b) stack) (Eval.optional call n e s) := by
  cases e with
  | some e => exact e.follows h hn ha hf hpart stack s
  | none => exact h.push (v := .null) hpart fun _ => rfl

/-- An iteration of a loop has been left: for the next one, for the end of the loop or out of the
call. -/
def Site.Iterated (code : LabelCode) (c : Site) (started stopped : Place) (stack : List Value) :
    Signal → Memory → LabelMachine → Prop
  | .normal, s, m | .continued, s, m => m = c.machine started stack s
  | .broken, s, m => m = c.machine stopped stack s
  | .returned v, s, m => c.Returned code stack v s m

/-- **Iterations are followed one by one**, each of which takes a step. -/
theorem Eval.loop_follows (h : c.Runs code host fuel call B) {test : Eval Value}
    {body : Eval Signal}
    {stop : LabelId} {started tested stopped : Block}
    (hjump : (tested.add (.popJumpIfZero stop)).PartOf B) (hstop : (stopped.bind stop).PartOf B)
    (htest : ∀ s, Follows code host fuel (c.active code) (c.machine started.tip stack s)
      (c.Pushed tested stack) (test s))
    (hbody : ∀ s, Follows code host fuel (c.active code)
      (c.machine (tested.add (.popJumpIfZero stop)).tip stack s)
      (c.Iterated code started.tip (stopped.bind stop).tip stack) (body s))
    {fuel' : Nat} (hle : fuel' ≤ fuel) (s : Memory) :
    Follows code host fuel' (c.active code) (c.machine started.tip stack s)
      (c.Left code B loop (stopped.bind stop) stack)
        (Eval.loop (do Eval.truth (← test)) body fuel' s) := by
  induction fuel' generalizing s with
  | zero => exact ⟨0, _, .zero _, Nat.le_refl 0⟩
  | succ fuel' ih =>
    rw [Eval.loop, bind_assoc]
    refine ((htest s).less_fuel hle).bind fun v s₁ m₁ hm₁ => ?_
    cases hm₁
    rw [Nat.add_comm]
    refine h.branch hjump hstop v ?_ (.ok rfl)
    refine ((hbody s₁).less_fuel (Nat.le_of_succ_le hle)).bind fun signal s₂ m₂ hm₂ => ?_
    cases signal with
    | normal | continued => cases hm₂; exact ih (Nat.le_of_succ_le hle) s₂
    | broken => cases hm₂; exact .ok rfl
    | returned v => exact .ok hm₂

/-- The code of a statement, wherever it stands in the block, does what the statement does. -/
def Site.Does (code : LabelCode) (host : Host) (fuel : Nat)
    (call : Value → List Value → Eval Value) (c : Site) (B : Block) (st : Stmt) : Prop :=
  ∀ (n : Names), n.function.isSome = c.inCall → (st.after n).nextFunction ≤ code.functions.size →
    ∀ {inLoop : Bool}, st.Accepted code.vars n inLoop → st.ArraysFit →
    ∀ {loop : Option (LabelId × LabelId)}, B.HasLoop inLoop loop →
    ∀ {b : Block}, (st.emit n loop b).PartOf B → ∀ (stack : List Value) (s : Memory),
      Follows code host fuel (c.active code) (c.machine b.tip stack s)
        (c.Left code B loop (st.emit n loop b) stack) (Eval.stmt call fuel n st s)

/-- The code of statements does what the statements do. -/
def Site.DoesAll (code : LabelCode) (host : Host) (fuel : Nat)
    (call : Value → List Value → Eval Value) (c : Site) (B : Block) (ss : List Stmt) : Prop :=
  ∀ (n : Names), n.function.isSome = c.inCall →
    (Stmt.afterAll n ss).nextFunction ≤ code.functions.size →
    ∀ {inLoop : Bool}, Stmt.AcceptedAll code.vars n inLoop ss → Stmt.AllArraysFit ss →
    ∀ {loop : Option (LabelId × LabelId)}, B.HasLoop inLoop loop →
    ∀ {b : Block}, (Stmt.emitAll n loop ss b).PartOf B → ∀ (stack : List Value) (s : Memory),
      Follows code host fuel (c.active code) (c.machine b.tip stack s)
        (c.Left code B loop (Stmt.emitAll n loop ss b) stack) (Eval.stmts call fuel n ss s)

namespace Site.Runs

/-! ### One lemma for each form -/

theorem does_var (h : c.Runs code host fuel call B) (name : Located String) (init : Option Expr) :
    c.Does code host fuel call B (.var name init) := by
  rintro n hn _ inLoop ⟨hi, hd⟩ hf loop _ b hpart stack s
  have hinit := (Block.partOf_add _ _).trans hpart
  refine (Expr.followsOptional h hn init hi hf hinit).bind fun v s₁ m₁ hm₁ => ?_
  cases hm₁
  exact h.define hn hd hpart v

theorem does_const (h : c.Runs code host fuel call B) (name : Located String) (init : Expr) :
    c.Does code host fuel call B (.const name init) := by
  rintro n hn _ inLoop ⟨hi, hd⟩ hf loop _ b hpart stack s
  have hinit := (Block.partOf_add _ _).trans hpart
  refine (init.follows h hn hi hf hinit stack s).bind fun v s₁ m₁ hm₁ => ?_
  cases hm₁
  exact h.define hn hd hpart v

theorem does_function (h : c.Runs code host fuel call B) (name : Located String)
    (params : List (Located String)) (body : List Stmt) :
    c.Does code host fuel call B (.function name params body) := by
  rintro n hn hsize inLoop hd _ loop _ b hpart stack s
  have hlt : n.nextFunction < code.functions.size := by
    rw [Stmt.nextFunction_after, Stmt.functions, List.length_cons] at hsize
    omega
  obtain ⟨k, m₁, hk, hm₁⟩ : Follows code host fuel (c.active code) (c.machine b.tip stack s) _ _ :=
    h.makeFunction hlt ((Block.partOf_add _ _).trans hpart)
  cases hm₁
  exact (h.define hn hd hpart (.function n.nextFunction)).steps hk

theorem does_expr (h : c.Runs code host fuel call B) (e : Expr) :
    c.Does code host fuel call B (.expr e) := by
  rintro n hn _ inLoop he hf loop _ b hpart stack s
  have hvalue := (Block.partOf_add _ _).trans hpart
  refine (e.follows h hn he hf hvalue stack s).bind fun v s₁ m₁ hm₁ => ?_
  cases hm₁
  refine .step ((Site.step_onCore h.block hpart.instr?_tip fun _ => rfl).trans
    (Site.onCore_done rfl)) (.ok ?_)
  rw [Site.Left, Stmt.emit, (Block.add_spec _ _).2]

theorem does_ifThen (h : c.Runs code host fuel call B) (test : Expr) {yes : Stmt}
    (hyes : c.Does code host fuel call B yes) :
    c.Does code host fuel call B (.ifThen test yes) := by
  rintro n hn hsize inLoop ⟨ht, hy⟩ ⟨ft, fy⟩ loop hloop b hpart stack s
  have hthen := (Block.partOf_bind _ _).trans hpart
  have hfresh := (yes.partOf_emit n loop _).trans hthen
  have hjump := (Block.partOf_fresh _).trans hfresh
  have htest := ((Block.partOf_reserve _).trans (Block.partOf_add _ _)).trans hjump
  refine (test.follows h hn ht ft htest stack s).bind fun x s₁ m₁ hm₁ => ?_
  cases hm₁
  refine (h.branch hjump hpart x ?_ ?_).less_fuel (Nat.le_add_left fuel 1)
  · refine h.bind hfresh ?_
    have hdone := hyes n hn hsize hy fy hloop hthen stack s₁
    exact hdone.weaken (Site.Left.weaken fun s₂ => h.bind hpart (.ok rfl))
  · exact .ok rfl

/-- Both branches end at the label behind the statement: the first by a jump, the second by going
on. -/
theorem does_ifElse (h : c.Runs code host fuel call B) (test : Expr) {yes no : Stmt}
    (hyes : c.Does code host fuel call B yes) (hno : c.Does code host fuel call B no) :
    c.Does code host fuel call B (.ifElse test yes no) := by
  rintro n hn hsize inLoop ⟨ht, hy, ho⟩ ⟨ft, fy, fo⟩ loop hloop b hpart stack s
  have hother := (Block.partOf_bind _ _).trans hpart
  have htaken := (no.partOf_emit _ loop _).trans hother
  have hgoto := (Block.partOf_bind _ _).trans htaken
  have hthen := ((Block.partOf_reserve _).trans (Block.partOf_add _ _)).trans hgoto
  have hfresh := (yes.partOf_emit n loop _).trans hthen
  have hjump := (Block.partOf_fresh _).trans hfresh
  have htest := ((Block.partOf_reserve _).trans (Block.partOf_add _ _)).trans hjump
  have hsize' : (yes.after n).nextFunction ≤ code.functions.size := by
    rw [Stmt.after, Stmt.nextFunction_after (yes.after n)] at hsize
    omega
  refine (test.follows h hn ht ft htest stack s).bind fun x s₁ m₁ hm₁ => ?_
  cases hm₁
  refine (h.branch hjump htaken x ?_ ?_).less_fuel (Nat.le_add_left fuel 1)
  · refine h.bind hfresh ?_
    have hdone := hyes n hn hsize' hy fy hloop hthen stack s₁
    refine hdone.weaken (Site.Left.weaken fun s₂ => ?_)
    exact .step (Site.step_goto h.block hgoto.instr?_tip (hpart.startsAt h.distinct)) (.ok rfl)
  · have hn' : (yes.after n).function.isSome = c.inCall := by rw [yes.function_after n, hn]
    have hdone := hno _ hn' hsize ho fo hloop hother stack s₁
    exact hdone.weaken (Site.Left.weaken fun s₂ => h.bind hpart (.ok rfl))

/-- The body of a loop is left for the next iteration, for the end of the loop or out of the
call. -/
theorem iterated_of_left {start stop : LabelId} {p q : Place} {b : Block}
    (h : c.Runs code host fuel call B) (hp : B.StartsAt start p) (hq : B.StartsAt stop q)
    (hgoto : (b.add (.goto start)).PartOf B) {signal : Signal} {s : Memory} {m : LabelMachine}
    (hm : c.Left code B (some (start, stop)) b stack signal s m) :
    Follows code host fuel (c.active code) m (c.Iterated code p q stack) (.ok signal s) := by
  cases signal with
  | normal =>
    cases hm
    exact .step (Site.step_goto h.block hgoto.instr?_tip hp) (.ok rfl)
  | broken =>
    obtain ⟨labels, q', hl, hq', rfl⟩ := hm
    cases hl
    rw [hq'.unique hq]
    exact .ok rfl
  | continued =>
    obtain ⟨labels, p', hl, hp', rfl⟩ := hm
    cases hl
    rw [hp'.unique hp]
    exact .ok rfl
  | returned v => exact .ok hm

theorem does_while (h : c.Runs code host fuel call B) (test : Expr) {body : Stmt}
    (hbody : c.Does code host fuel call B body) :
    c.Does code host fuel call B (.while test body) := by
  rintro n hn hsize inLoop ⟨ht, hb⟩ ⟨ft, fb⟩ loop _ b hpart stack s
  have hgoto := (Block.partOf_bind _ _).trans hpart
  have hinner := (Block.partOf_add _ _).trans hgoto
  have hfresh := (body.partOf_emit n _ _).trans hinner
  have hjump := (Block.partOf_fresh _).trans hfresh
  have htest := (Block.partOf_add _ _).trans hjump
  have hstarted := (test.partOf_emit n _).trans htest
  have hcondition := Block.PartOf.startsAt hstarted h.distinct
  have hstop := hpart.startsAt h.distinct
  have hlabels : B.HasLoop true (some (b.nextLabel + 1, b.nextLabel)) :=
    fun _ => ⟨_, _, _, rfl, hcondition, hstop⟩
  refine h.bind hstarted ?_
  refine Eval.loop_follows h hjump hpart (fun s₁ => test.follows h hn ht ft htest stack s₁)
    (fun s₁ => h.bind hfresh ?_) (Nat.le_refl fuel) s
  have hdone := hbody n hn hsize hb fb hlabels hinner stack s₁
  exact hdone.weaken fun signal s₂ m₂ hm₂ => h.iterated_of_left hcondition hstop hgoto hm₂

theorem does_return (h : c.Runs code host fuel call B) (value : Option Expr) (span : Span) :
    c.Does code host fuel call B (.return value span) := by
  rintro n hn _ inLoop ⟨hc, hv⟩ hf loop _ b hpart stack s
  have hvalue := (Block.partOf_add _ _).trans hpart
  refine (Expr.followsOptional h hn value hv hf hvalue).bind fun v s₁ m₁ hm₁ => ?_
  cases hm₁
  exact h.ret (hn ▸ hc) hpart v

theorem does_break (h : c.Runs code host fuel call B) (span : Span) :
    c.Does code host fuel call B (.break span) := by
  rintro n hn _ inLoop ha _ loop hloop b hpart stack s
  obtain ⟨labels, p, q, rfl, hp, hq⟩ := hloop ha
  exact .step (Site.step_goto h.block hpart.instr?_tip hq) (.ok ⟨labels, q, rfl, hq, rfl⟩)

theorem does_continue (h : c.Runs code host fuel call B) (span : Span) :
    c.Does code host fuel call B (.continue span) := by
  rintro n hn _ inLoop ha _ loop hloop b hpart stack s
  obtain ⟨labels, p, q, rfl, hp, hq⟩ := hloop ha
  exact .step (Site.step_goto h.block hpart.instr?_tip hp) (.ok ⟨labels, p, rfl, hp, rfl⟩)

end Site.Runs

/-- Statements after one that is left in another way than normally are not reached. -/
theorem Site.Does.cons {st : Stmt} {ss : List Stmt} (hfirst : c.Does code host fuel call B st)
    (hrest : c.DoesAll code host fuel call B ss) : c.DoesAll code host fuel call B (st :: ss) := by
  rintro n hn hsize inLoop ⟨ha, has⟩ ⟨hf, hfs⟩ loop hloop b hpart stack s
  have hpart' := (Stmt.partOf_emitAll _ loop ss _).trans hpart
  have hsize' : (st.after n).nextFunction ≤ code.functions.size := by
    rw [Stmt.afterAll, Stmt.nextFunction_afterAll] at hsize
    omega
  refine (hfirst n hn hsize' ha hf hloop hpart' stack s).bind fun signal s₁ m₁ hm₁ => ?_
  cases signal with
  | normal =>
    cases hm₁
    have hn' : (st.after n).function.isSome = c.inCall := by rw [st.function_after n, hn]
    exact hrest _ hn' hsize has hfs hloop hpart stack s₁
  | broken | continued | returned v => exact .ok hm₁

mutual

/-- **The code of a statement does what the statement does.** -/
theorem Stmt.follows (h : c.Runs code host fuel call B) :
    (st : Stmt) → c.Does code host fuel call B st
  | .var name init => h.does_var name init
  | .const name init => h.does_const name init
  | .function name params body => h.does_function name params body
  | .expr e => h.does_expr e
  | .block body => fun n hn hsize _ ha hf _ hloop _ hpart =>
    Stmt.followsAll h body n hn hsize ha hf hloop hpart
  | .ifThen test yes => h.does_ifThen test (yes.follows h)
  | .ifElse test yes no => h.does_ifElse test (yes.follows h) (no.follows h)
  | .while test body => h.does_while test (body.follows h)
  | .return value span => h.does_return value span
  | .break span => h.does_break span
  | .continue span => h.does_continue span
  | .empty => fun _ _ _ _ _ _ _ _ _ _ _ _ => .ok rfl

/-- The code of statements does what the statements do. -/
theorem Stmt.followsAll (h : c.Runs code host fuel call B) :
    (ss : List Stmt) → c.DoesAll code host fuel call B ss
  | [] => fun _ _ _ _ _ _ _ _ _ _ _ _ => .ok rfl
  | st :: ss => (st.follows h).cons (Stmt.followsAll h ss)

end

end Statements

end Stackscript
