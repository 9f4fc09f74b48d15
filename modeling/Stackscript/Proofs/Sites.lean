import Stackscript.Proofs.LoweringVariables

/-!
# The machine along emitted code

Emitted code is run at a site: at the top level or in a call, with a place, operands and a memory.
While a tree is evaluated, the machine goes from the place before its code to the place behind it.

* `Block.StartsAt`, the place of a label;
* `Site`, `Site.machine`: the machine at a place of the code of a site;
* `Site.step_instr`, `Site.steps_bind`, `Site.step_goto`: from one place to the next;
* `Site.step_load`, `Site.step_store`: cells and variables;
* `Follows`: the machine does what an evaluation does; **`Follows.bind`**.
-/

namespace Stackscript

/-- A label of a block starts at a place. -/
def Block.StartsAt (B : Block) (l : LabelId) (p : Place) : Prop :=
  ∃ i, B.labelIds.idxOf? l = some i ∧ p = ⟨i, 0⟩

theorem Block.PartOf.startsAt {b B : Block} {l : LabelId} (h : (b.bind l).PartOf B)
    (hd : B.labelIds.Nodup) : B.StartsAt l (b.bind l).tip :=
  ⟨_, h.idxOf?_bind hd, b.tip_bind l⟩

theorem Block.StartsAt.unique {B : Block} {l : LabelId} {p q : Place} (hp : B.StartsAt l p)
    (hq : B.StartsAt l q) : p = q := by
  obtain ⟨i, hi, rfl⟩ := hp
  obtain ⟨j, hj, rfl⟩ := hq
  cases hi.symm.trans hj
  rfl

/-! ## Sites -/

/-- Where code is run. -/
inductive Site where
  | top
  /-- The call of a function, with the place in the top level, the calls around it and the bytes
  charged for all of them. -/
  | call (function : Nat) (outer : Place) (frames : List Activation) (charged : Nat)

namespace Site

/-- The code of a function is run. -/
def inCall : Site → Bool
  | .top => false
  | .call .. => true

/-- The bytes charged for the active calls. -/
def charged : Site → Nat
  | .top => 0
  | .call _ _ _ charged => charged

/-- The machine at a place of the code of a site. -/
def machine (c : Site) (p : Place) (stack : List Value) (s : Memory) : LabelMachine :=
  match c with
  | .top => ⟨⟨stack, s.world⟩, s.globals, p, [], 0⟩
  | .call f outer frames charged =>
    ⟨⟨stack, s.world⟩, s.globals, outer, ⟨f, p, s.own⟩ :: frames, charged⟩

/-- The block that is run at a site. -/
def block? (code : LabelCode) : Site → Option Block
  | .top => some code.main
  | .call f .. => code.functions[f]?.map (·.block)

/-- The names of the active functions, innermost first. -/
def active (code : LabelCode) (c : Site) : List String :=
  (c.machine .start [] .fresh).activeNames code

variable {code : LabelCode} {host : Host} {c : Site} {B b : Block} {p q : Place}
  {stack : List Value} {s : Memory}

theorem block?_machine (c : Site) (p : Place) (stack : List Value) (s : Memory) :
    (c.machine p stack s).block? code = c.block? code := by
  cases c <;> rfl

theorem here_machine (c : Site) (p : Place) (stack : List Value) (s : Memory) :
    (c.machine p stack s).here = p := by
  cases c <;> rfl

theorem moveTo_machine (c : Site) (p q : Place) (stack : List Value) (s : Memory) :
    (c.machine p stack s).moveTo q = c.machine q stack s := by
  cases c <;> rfl

theorem core_machine (c : Site) (p : Place) (stack : List Value) (s : Memory) :
    (c.machine p stack s).core = ⟨stack, s.world⟩ := by
  cases c <;> rfl

theorem globals_machine (c : Site) (p : Place) (stack : List Value) (s : Memory) :
    (c.machine p stack s).globals = s.globals := by
  cases c <;> rfl

theorem charged_machine (c : Site) (p : Place) (stack : List Value) (s : Memory) :
    (c.machine p stack s).charged = c.charged := by
  cases c <;> rfl

theorem activeNames_machine (c : Site) (p : Place) (stack : List Value) (s : Memory) :
    (c.machine p stack s).activeNames code = c.active code := by
  cases c <;> rfl

theorem withCore_machine (c : Site) (p : Place) (stack stack' : List Value) (s : Memory)
    (world : World) :
    (c.machine p stack s).withCore ⟨stack', world⟩ = c.machine p stack' { s with world } := by
  cases c <;> rfl

/-! ## Steps -/

theorem step_instr (hB : c.block? code = some B) {i : Instr} (hi : B.instr? p = some i) :
    (c.machine p stack s).step code host = (c.machine p.next stack s).execute code host B i := by
  obtain ⟨l, hl, hi⟩ := Option.bind_eq_some_iff.1 hi
  rw [LabelMachine.step_of_instr ((c.block?_machine p stack s).trans hB)
    (by rw [here_machine]; exact hl) (by rw [here_machine]; exact hi), here_machine, moveTo_machine]

/-- A jump leads to the start of the label that it names. -/
theorem jump_machine {l : LabelId} (hl : B.StartsAt l q) :
    (c.machine p stack s).jump B l = .next (c.machine q stack s) := by
  obtain ⟨i, hi, rfl⟩ := hl
  rw [LabelMachine.jump, hi]
  exact congrArg Progress.next (moveTo_machine ..)

theorem step_goto (hB : c.block? code = some B) {l : LabelId} (hi : B.instr? p = some (.goto l))
    (hl : B.StartsAt l q) : (c.machine p stack s).step code host = .next (c.machine q stack s) := by
  rw [step_instr hB hi]
  exact jump_machine hl

/-- The end of a label leads on to the label that was started behind it. -/
theorem steps_bind (hB : c.block? code = some B) (hd : B.labelIds.Nodup) {l : LabelId}
    (hbind : (b.bind l).PartOf B) :
    ∃ k, Steps (LabelMachine.step code host) k (c.machine b.tip stack s)
      (c.machine (b.bind l).tip stack s) := by
  rcases hbind.tip_cases with hsame | hgoto | ⟨l', hl', hend, hnext⟩
  · rw [hsame]
    exact ⟨0, .zero _⟩
  · exact ⟨1, .one (step_goto hB hgoto (hbind.startsAt hd))⟩
  · refine ⟨1, .one ?_⟩
    rw [LabelMachine.step_of_end ((c.block?_machine b.tip stack s).trans hB)
      (by rw [here_machine]; exact hl') (by rw [here_machine]; exact hend),
      here_machine, moveTo_machine, hnext]

theorem step_push (hB : c.block? code = some B) {i : Instr} (hi : B.instr? p = some i) {v : Value}
    (hx : ∀ m : LabelMachine, m.execute code host B i = m.push v) :
    (c.machine p stack s).step code host = .next (c.machine p.next (v :: stack) s) := by
  rw [step_instr hB hi, hx, LabelMachine.push, core_machine]
  exact congrArg Progress.next (withCore_machine c p.next stack (v :: stack) s s.world)

section Effects

variable {i : Instr} {effect : Core → Effect} {stack' : List Value} {world : World}

theorem onCore_done (he : effect ⟨stack, s.world⟩ = .done ⟨stack', world⟩) :
    (c.machine p stack s).onCore effect = .next (c.machine p stack' { s with world }) := by
  rw [LabelMachine.onCore, core_machine, he]
  exact congrArg Progress.next (withCore_machine ..)

theorem onCore_failed {e : Failure} (he : effect ⟨stack, s.world⟩ = .failed e ⟨stack', world⟩) :
    (c.machine p stack s).onCore effect =
      .done (.failed e, c.machine p stack' { s with world }) := by
  rw [LabelMachine.onCore, core_machine, he]
  exact congrArg (fun m => Progress.done (Halt.failed e, m)) (withCore_machine ..)

theorem onCore_fault {f : Fault} (he : effect ⟨stack, s.world⟩ = .fault f ⟨stack', world⟩) :
    (c.machine p stack s).onCore effect =
      .done (.fault f, c.machine p stack' { s with world }) := by
  rw [LabelMachine.onCore, core_machine, he]
  exact congrArg (fun m => Progress.done (Halt.fault f, m)) (withCore_machine ..)

/-- An instruction that works on the operands alone. -/
theorem step_onCore (hB : c.block? code = some B) (hi : B.instr? p = some i)
    (hx : ∀ m : LabelMachine, m.execute code host B i = m.onCore effect) :
    (c.machine p stack s).step code host = (c.machine p.next stack s).onCore effect := by
  rw [step_instr hB hi, hx]

end Effects

/-- The variable of a cell is loaded. -/
theorem step_load (hB : c.block? code = some B) {name : String} {cell : Cell}
    (hd : cell.Declared code.vars name)
    (hown : cell.owner.isSome = true → c.inCall = true) (hi : B.instr? p = some (.load cell.id)) :
    (c.machine p stack s).step code host = .next (c.machine p.next (s.read cell :: stack) s) := by
  obtain ⟨v, hv, -, -, hstored⟩ := hd
  rw [step_instr hB hi]
  show LabelMachine.loadVar code.vars cell.id _ = _
  unfold LabelMachine.loadVar
  cases cell with
  | native slot =>
    obtain ⟨entry, hentry, -⟩ := NativeEntry.slot?_spec hstored.2
    simp only [hv, hstored.1, hstored.2, Option.bind_some, hentry, if_true, LabelMachine.push,
      core_machine, Core.push, withCore_machine, Memory.read, Option.map_some, Option.getD_some]
  | shared id =>
    have hglobal : v.storage.isGlobal = true := hstored
    have hnative : v.storage ≠ .native := by
      intro h
      rw [h] at hglobal
      cases hglobal
    simp only [hv, if_neg hnative, if_pos hglobal, LabelMachine.push, core_machine, Core.push,
      withCore_machine, globals_machine]
    rfl
  | own f id =>
    have hglobal : ¬v.storage.isGlobal = true := by
      rw [hstored.1]
      exact Bool.false_ne_true
    cases c with
    | top => cases hown rfl
    | call g outer frames charged => simp only [hv, if_neg hstored.2, if_neg hglobal]; rfl

/-- The variable of a cell is stored. -/
theorem step_store (hB : c.block? code = some B) {name : String} {cell : Cell}
    (hd : cell.Declared code.vars name)
    (hown : cell.owner.isSome = true → c.inCall = true) (hnative : ∀ slot, cell ≠ .native slot)
    (hi : B.instr? p = some (.store cell.id)) (v : Value) :
    (c.machine p (v :: stack) s).step code host =
      .next (c.machine p.next stack (s.write v cell)) := by
  obtain ⟨x, hx, -, -, hstored⟩ := hd
  rw [step_instr hB hi]
  show LabelMachine.storeVar code.vars cell.id _ = _
  cases cell with
  | native slot => exact absurd rfl (hnative slot)
  | shared id =>
    have hglobal : x.storage.isGlobal = true := hstored
    have hne : x.storage ≠ .native := by
      intro h
      rw [h] at hglobal
      cases hglobal
    cases c <;> simp only [machine, LabelMachine.storeVar, hx, if_neg hne, if_pos hglobal] <;> rfl
  | own f id =>
    have hglobal : ¬x.storage.isGlobal = true := by
      rw [hstored.1]
      exact Bool.false_ne_true
    cases c with
    | top => cases hown rfl
    | call g outer frames charged =>
      simp only [machine, LabelMachine.storeVar, hx, if_neg hstored.2, if_neg hglobal]
      rfl

/-- A value that is not true leads to the label of the jump. -/
theorem step_popJumpIfZero (hB : c.block? code = some B) {l : LabelId}
    (hi : B.instr? p = some (.popJumpIfZero l)) (hl : B.StartsAt l q) (v : Value) :
    (c.machine p (v :: stack) s).step code host =
      .next (c.machine (if s.world.heap.truthy v then p.next else q) stack s) := by
  have htest : (c.machine p.next (v :: stack) s).execute code host B (.popJumpIfZero l) =
      if s.world.heap.truthy v = false then (c.machine p.next stack s).jump B l
      else .next (c.machine p.next stack s) := by
    cases c <;> rfl
  rw [step_instr hB hi, htest, jump_machine hl]
  cases s.world.heap.truthy v <;> rfl

end Site

/-! ## Evaluations and runs -/

section Follows

variable (code : LabelCode) (host : Host)

/-- **From a machine on, the run does what an evaluation does.** It comes to the target of the
result; or it ends as the evaluation does, with the calls from there on and those of the site; or,
if the evaluation runs out of fuel, it makes at least so many steps. -/
def Follows {α : Type} (fuel : Nat) (active : List String) (m : LabelMachine)
    (target : α → Memory → LabelMachine → Prop) : EStateM.Result Interrupt Memory α → Prop
  | .ok a s => ∃ k m', Steps (LabelMachine.step code host) k m m' ∧ target a s m'
  | .error (.halted halt calls) s =>
    ∃ m', Ends (LabelMachine.step code host) m (halt, m') ∧ m'.core.world = s.world ∧
      m'.globals = s.globals ∧ m'.activeNames code = calls ++ active
  | .error .outOfFuel _ => ∃ k m', Steps (LabelMachine.step code host) k m m' ∧ fuel ≤ k

end Follows

namespace Follows

variable {code : LabelCode} {host : Host} {α β : Type} {fuel : Nat} {active : List String}
  {m m' : LabelMachine} {target : α → Memory → LabelMachine → Prop}

theorem ok {a : α} {s : Memory} (h : target a s m) :
    Follows code host fuel active m target (.ok a s) :=
  ⟨0, m, .zero m, h⟩

/-- What is followed after some steps is followed with them. -/
theorem of_steps {r : EStateM.Result Interrupt Memory α} {k : Nat}
    (hs : Steps (LabelMachine.step code host) k m m')
    (h : Follows code host fuel active m' target r) :
    Follows code host (k + fuel) active m target r := by
  match r, h with
  | .ok a s, ⟨j, m₁, hj, ht⟩ => exact ⟨k + j, m₁, hs.append hj, ht⟩
  | .error (.halted halt calls) s, ⟨m₁, he, hrest⟩ => exact ⟨m₁, he.of_steps hs, hrest⟩
  | .error .outOfFuel s, ⟨j, m₁, hj, hle⟩ =>
    exact ⟨k + j, m₁, hs.append hj, Nat.add_le_add_left hle k⟩

theorem less_fuel {r : EStateM.Result Interrupt Memory α} {fuel' : Nat} (hle : fuel' ≤ fuel)
    (h : Follows code host fuel active m target r) : Follows code host fuel' active m target r := by
  match r, h with
  | .ok _ _, h => exact h
  | .error (.halted _ _) _, h => exact h
  | .error .outOfFuel s, ⟨j, m₁, hj, hj'⟩ => exact ⟨j, m₁, hj, Nat.le_trans hle hj'⟩

theorem steps {r : EStateM.Result Interrupt Memory α} {k : Nat}
    (hs : Steps (LabelMachine.step code host) k m m')
    (h : Follows code host fuel active m' target r) : Follows code host fuel active m target r :=
  (h.of_steps hs).less_fuel (Nat.le_add_left fuel k)

theorem step {r : EStateM.Result Interrupt Memory α} (hs : m.step code host = .next m')
    (h : Follows code host fuel active m' target r) : Follows code host fuel active m target r :=
  h.steps (.one hs)

theorem weaken {r : EStateM.Result Interrupt Memory α} {target' : α → Memory → LabelMachine → Prop}
    (h : Follows code host fuel active m target r)
    (ht : ∀ a s m', target a s m' → Follows code host fuel active m' target' (.ok a s)) :
    Follows code host fuel active m target' r := by
  match r, h with
  | .ok a s, ⟨k, m₁, hk, h⟩ => exact (ht a s m₁ h).steps hk
  | .error (.halted _ _) _, h => exact h
  | .error .outOfFuel _, h => exact h

/-- The target may depend on the result that has been found. -/
theorem with_result {r : EStateM.Result Interrupt Memory α}
    (h : Follows code host fuel active m target r) :
    Follows code host fuel active m (fun a s m' => target a s m' ∧ r = .ok a s) r := by
  match r, h with
  | .ok a s, ⟨k, m₁, hk, h⟩ => exact ⟨k, m₁, hk, h, rfl⟩
  | .error (.halted _ _) _, h => exact h
  | .error .outOfFuel _, h => exact h

/-- **Evaluations one after the other are followed one after the other.** -/
theorem bind {target' : β → Memory → LabelMachine → Prop} {x : Eval α} {f : α → Eval β} {s : Memory}
    (hx : Follows code host fuel active m target (x s))
    (hf : ∀ a s' m', target a s' m' → Follows code host fuel active m' target' (f a s')) :
    Follows code host fuel active m target' ((x >>= f) s) := by
  show Follows code host fuel active m target' (EStateM.bind x f s)
  unfold EStateM.bind
  match x s, hx with
  | .ok a s', ⟨k, m₁, hk, h⟩ => exact (hf a s' m₁ h).steps hk
  | .error (.halted _ _) _, h => exact h
  | .error .outOfFuel _, h => exact h

/-- The run ends at once. -/
theorem ended {c : Site} {p : Place} {stack : List Value} {s : Memory} {halt : Halt}
    (hs : m.step code host = .done (halt, c.machine p stack s)) :
    Follows code host fuel (c.active code) m target (.error (.halted halt []) s) :=
  ⟨_, .of_done hs, by rw [c.core_machine], c.globals_machine .., c.activeNames_machine ..⟩

end Follows

end Stackscript
