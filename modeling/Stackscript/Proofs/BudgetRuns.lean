import Stackscript.Proofs.MachineSteps

/-!
# The budget only decides which call is refused

Two machines that differ in their budgets alone run in lockstep until the smaller budget refuses a
call: no step but the call of a routine reads the budget, and such a call reads it only to be
refused or made.

* `Host.withBudget`, `Step.refuses`, `Machine.Refuses`;
* **`Machine.step_withBudget`**: a step under a larger budget, unless it is refused;
* `Machine.run_withBudget`, `Machine.refuses_of_run`: what follows for runs;
* **`Executable.budget_decides_refusal`**.
-/

namespace Stackscript

/-- The host with another budget for calls. -/
def Host.withBudget (host : Host) (budget : Nat) : Host := { host with budget }

/-! ## Which steps refuse a call -/

/-- The failure is the refusal of a call for want of budget. -/
def Failure.isRefusal : Failure → Bool
  | .callStack .. => true
  | _ => false

/-- The instruction was refused. -/
def Effect.refuses : Effect → Bool
  | .failed e _ => e.isRefusal
  | _ => false

/-- The step was refused. -/
def Step.refuses : Step → Bool
  | .failed e _ => e.isRefusal
  | _ => false

namespace Core

variable {c : Core}

theorem pop_refuses : c.pop.refuses = false := by
  unfold pop
  split <;> rfl

theorem binary_refuses (op : BinaryOperator) : (c.binary op).refuses = false := by
  unfold Core.binary
  split
  · split <;> rfl
  · rfl

theorem unary_refuses (op : UnaryOperator) : (c.unary op).refuses = false := by
  unfold Core.unary
  split
  · split <;> rfl
  · rfl

theorem makeArray_refuses (n : Nat) : (c.makeArray n).refuses = false := by
  obtain ⟨stack, world⟩ := c
  simp only [makeArray]
  split <;> rfl

theorem getIndex_refuses : c.getIndex.refuses = false := by
  unfold getIndex
  split
  · split <;> rfl
  · rfl

theorem setIndex_refuses : c.setIndex.refuses = false := by
  unfold setIndex
  split
  · split <;> rfl
  · rfl

theorem callNative_refuses (host : Host) (f : Native) (count : Nat) :
    (c.callNative host f count).refuses = false := by
  obtain ⟨stack, world⟩ := c
  simp only [callNative]
  split
  · rfl
  · split
    · rfl
    · split <;> rfl

theorem makeFunction_refuses (count : Nat) : (c.makeFunction count).refuses = false := by
  unfold makeFunction
  split
  · split <;> rfl
  · rfl
  · rfl

end Core

/-- What a native does depends on the clock and the sink of the host alone. -/
theorem Native.call_withBudget (host : Host) (budget : Nat) (f : Native) (args : List Value)
    (w : World) : f.call (host.withBudget budget) args w = f.call host args w := by
  cases f <;> rfl

theorem Core.callNative_withBudget (host : Host) (budget : Nat) (f : Native) (count : Nat)
    (c : Core) : c.callNative (host.withBudget budget) f count = c.callNative host f count := by
  simp only [callNative, Native.call_withBudget]

namespace Machine

variable {exe : Executable} {host : Host} {budget : Nat} {v w m : Machine} {op : Op}

/-- **The next instruction is a call that is refused**: it needs so many bytes, which are over the
budget. -/
structure Refuses (exe : Executable) (host : Host) (v : Machine) (required : Nat) (m : Machine) :
    Prop where
  instr : ∃ chunk count, v.chunk? exe = some chunk ∧ chunk.decode v.currentIp = .ok (.call count)
  exceeds : host.budget < required
  step : v.step exe host = .failed (.callStack required host.budget) m

theorem onCore_refuses {effect : Core → Effect} (h : ∀ c, (effect c).refuses = false) :
    (v.onCore effect).refuses = false := by
  obtain ⟨core, globals, ip, frames, charged⟩ := v
  have hcore := h core
  rw [onCore]
  cases he : effect core with
  | done | fault => rfl
  | failed e core' => rwa [he] at hcore

theorem pushOrFault_refuses (x : Option Value) : (v.pushOrFault x).refuses = false := by
  cases x <;> rfl

theorem jumpIf_refuses (wanted : Bool) (target : UInt32) :
    (v.jumpIf wanted target).refuses = false := by
  obtain ⟨⟨_ | ⟨x, rest⟩, world⟩, globals, ip, frames, charged⟩ := v <;> rfl

/-- Entering a routine is refused for its bytes, or does not depend on a budget that is larger. -/
theorem enter_withBudget (exe : Executable) (hle : host.budget ≤ budget) (index count : Nat)
    (v : Machine) :
    (v.enter exe (host.withBudget budget) index count = v.enter exe host index count ∧
        (v.enter exe host index count).refuses = false) ∨
      ∃ required m, host.budget < required ∧
        v.enter exe host index count = .failed (.callStack required host.budget) m := by
  obtain ⟨⟨stack, world⟩, globals, ip, frames, charged⟩ := v
  simp only [enter]
  cases exe.routines[index]? with
  | none => exact .inl ⟨rfl, rfl⟩
  | some r =>
    by_cases harity : r.arity ≠ count
    · simp only [if_pos harity]
      exact .inl ⟨trivial, rfl⟩
    · by_cases hlimit : byteLimit ≤ charged + Frame.cost r.locals
      · simp only [if_neg harity, if_pos hlimit]
        exact .inl ⟨trivial, rfl⟩
      · by_cases hover : host.budget < charged + Frame.cost r.locals
        · simp only [if_neg harity, if_neg hlimit, if_pos hover]
          exact .inr ⟨_, _, hover, rfl⟩
        · have hover' : ¬ (host.withBudget budget).budget < charged + Frame.cost r.locals :=
            Nat.not_lt_of_le (Nat.le_trans (Nat.le_of_not_lt hover) hle)
          simp only [if_neg harity, if_neg hlimit, if_neg hover, if_neg hover']
          refine .inl ⟨trivial, ?_⟩
          split
          · rfl
          · split <;> rfl

theorem call_withBudget (exe : Executable) (hle : host.budget ≤ budget) (count : Nat)
    (v : Machine) :
    (v.call exe (host.withBudget budget) count = v.call exe host count ∧
      (v.call exe host count).refuses = false) ∨
      ∃ required m, host.budget < required ∧
        v.call exe host count = .failed (.callStack required host.budget) m := by
  obtain ⟨⟨_ | ⟨callee, rest⟩, world⟩, globals, ip, frames, charged⟩ := v
  · exact .inl ⟨rfl, rfl⟩
  · cases callee with
    | native f =>
      refine .inl ⟨by simp only [call, Core.callNative_withBudget], ?_⟩
      exact onCore_refuses (v := ⟨⟨rest, world⟩, globals, ip, frames, charged⟩) fun c =>
        c.callNative_refuses host f count
    | function index =>
      exact enter_withBudget exe hle index count ⟨⟨rest, world⟩, globals, ip, frames, charged⟩
    | _ => exact .inl ⟨rfl, rfl⟩

/-- Only calls are refused. -/
theorem execute_refuses (hop : ∀ count, op ≠ .call count) (v : Machine) :
    (execute exe host op v).refuses = false := by
  cases op with
  | call count => exact absurd rfl (hop count)
  | pop => exact onCore_refuses fun _ => Core.pop_refuses
  | binary op => exact onCore_refuses fun _ => Core.binary_refuses op
  | unary op => exact onCore_refuses fun _ => Core.unary_refuses op
  | makeArray count => exact onCore_refuses fun _ => Core.makeArray_refuses count.toNat
  | getIndex => exact onCore_refuses fun _ => Core.getIndex_refuses
  | setIndex => exact onCore_refuses fun _ => Core.setIndex_refuses
  | makeFunction => exact onCore_refuses fun _ => Core.makeFunction_refuses _
  | popJumpIfZero target | popJumpIfNonzero target => exact jumpIf_refuses _ target
  | goto | exit | pushTrue | pushFalse | pushNull | number => rfl
  | loadConst | loadGlobal | loadNative => exact pushOrFault_refuses _
  | loadFrameVar slot =>
    simp only [execute, loadFrameVar]
    split
    · rfl
    · exact pushOrFault_refuses _
  | storeGlobal slot =>
    obtain ⟨⟨_ | ⟨x, rest⟩, world⟩, globals, ip, frames, charged⟩ := v
    · rfl
    · simp only [execute, storeGlobal]
      split <;> rfl
  | storeFrameVar slot =>
    obtain ⟨⟨_ | ⟨x, rest⟩, world⟩, globals, ip, _ | ⟨f, frames⟩, charged⟩ := v
    · rfl
    · rfl
    · rfl
    · simp only [execute, storeFrameVar]
      split <;> rfl
  | ret =>
    obtain ⟨core, globals, ip, _ | ⟨f, frames⟩, charged⟩ := v
    · rfl
    · simp only [execute, leave]
      split <;> rfl

/-- Only calls read the budget. -/
theorem execute_withBudget (hop : ∀ count, op ≠ .call count) (v : Machine) :
    execute exe (host.withBudget budget) op v = execute exe host op v := by
  cases op with
  | call count => exact absurd rfl (hop count)
  | _ => rfl

/-- **A step is refused for the bytes of a call, or does not depend on a budget that is larger.** -/
theorem step_withBudget (exe : Executable) (hle : host.budget ≤ budget) (v : Machine) :
    (v.step exe (host.withBudget budget) = v.step exe host ∧ (v.step exe host).refuses = false) ∨
      ∃ required m, v.Refuses exe host required m := by
  cases hchunk : v.chunk? exe with
  | none => exact .inl (by simp only [step, hchunk]; exact ⟨trivial, rfl⟩)
  | some chunk =>
    by_cases hend : chunk.size ≤ v.currentIp
    · refine .inl ?_
      simp only [step, hchunk, if_pos hend]
      exact ⟨trivial, by split <;> rfl⟩
    · cases hop : chunk.decode v.currentIp with
      | error f => exact .inl (by simp only [step, hchunk, if_neg hend, hop]; exact ⟨trivial, rfl⟩)
      | ok op =>
        have hstep : ∀ host, v.step exe host =
            execute exe host op (v.jump (v.currentIp + op.size)) :=
          fun host => by simp only [step, hchunk, if_neg hend, hop]
        by_cases hcall : ∃ count, op = .call count
        · obtain ⟨count, rfl⟩ := hcall
          obtain ⟨heq, hfree⟩ | ⟨required, m, hover, hrefused⟩ :=
            call_withBudget exe hle count.toNat (v.jump (v.currentIp + (Op.call count).size))
          · rw [hstep, hstep]
            exact .inl ⟨heq, hfree⟩
          · exact .inr ⟨required, m, ⟨chunk, count, hchunk, hop⟩, hover,
              (hstep host).trans hrefused⟩
        · have hcall : ∀ count, op ≠ .call count := fun count heq => hcall ⟨count, heq⟩
          rw [hstep, hstep]
          exact .inl ⟨execute_withBudget hcall _, execute_refuses hcall _⟩

/-! ## Runs -/

/-- **A run that is not refused does not depend on a budget that is larger.** -/
theorem run_withBudget (hle : host.budget ≤ budget) {fuel : Nat} {o : Outcome}
    (h : v.run exe host fuel = o)
    (ho : ∀ required limit m, o ≠ .failed (.callStack required limit) m) :
    v.run exe (host.withBudget budget) fuel = o := by
  induction fuel generalizing v with
  | zero => exact h
  | succ fuel ih =>
    rw [run] at h ⊢
    obtain ⟨heq, -⟩ | ⟨required, m, hrefuses⟩ := step_withBudget exe hle v
    · rw [heq]
      cases hstep : v.step exe host with
      | next m =>
        rw [hstep] at h
        exact ih h
      | exit m | failed e m | fault f m =>
        rw [hstep] at h
        exact h
    · rw [hrefuses.step] at h
      exact absurd h.symm (ho _ _ _)

/-- A run that ends refused comes to a call that is refused. -/
theorem refuses_of_run {fuel required limit : Nat}
    (h : v.run exe host fuel = .failed (.callStack required limit) m) :
    limit = host.budget ∧ ∃ n w, n < fuel ∧ v.run exe host n = .outOfFuel w ∧
      w.Refuses exe host required m := by
  induction fuel generalizing v with
  | zero => cases h
  | succ fuel ih =>
    obtain ⟨-, hfree⟩ | ⟨required', m', hrefuses⟩ := step_withBudget exe (Nat.le_refl host.budget) v
    · rw [run] at h
      cases hstep : v.step exe host with
      | next m₁ =>
        rw [hstep] at h
        obtain ⟨rfl, n, w, hn, hrun, hrefuses⟩ := ih h
        exact ⟨rfl, n + 1, w, Nat.succ_lt_succ hn, by rw [run, hstep]; exact hrun, hrefuses⟩
      | exit m₁ =>
        rw [hstep] at h
        change m₁.finish host = _ at h
        rw [finish] at h
        split at h <;> cases h
      | failed e m₁ =>
        rw [hstep] at h hfree
        cases h
        cases hfree
      | fault f m₁ =>
        rw [hstep] at h
        cases h
    · rw [run, hrefuses.step] at h
      cases h
      exact ⟨rfl, 0, v, Nat.succ_pos fuel, rfl, hrefuses⟩

/-- A run that can make so many steps can make fewer. -/
theorem run_of_le {n k : Nat} (h : v.run exe host n = .outOfFuel w) (hk : k ≤ n) :
    ∃ u, v.run exe host k = .outOfFuel u := by
  induction n generalizing v k with
  | zero =>
    cases Nat.le_zero.1 hk
    exact ⟨w, h⟩
  | succ n ih =>
    cases k with
    | zero => exact ⟨v, rfl⟩
    | succ k =>
      rw [run] at h ⊢
      cases hstep : v.step exe host with
      | next m =>
        rw [hstep] at h
        exact ih h (Nat.le_of_succ_le_succ hk)
      | exit m =>
        rw [hstep] at h
        exact absurd ((finish_eq host m).symm.trans h) (outcome_ne_outOfFuel _ _ _)
      | failed e m | fault f m =>
        rw [hstep] at h
        cases h

end Machine

/-- **The budget only decides which call is refused.** Of two runs of an executable that differ in
their budgets alone, if the one with the smaller budget ends and is not refused a call, then the
other ends after as many steps, in the same way and in the same machine. If it is refused a call,
then the other goes through the same machines up to this call. -/
theorem Executable.budget_decides_refusal (exe : Executable) (host : Host) (heap : Heap)
    (budget : Nat) (hle : host.budget ≤ budget) (fuel : Nat) :
    (∀ (halt : Halt) (m : Machine), (∀ required limit, halt ≠ .failed (.callStack required limit)) →
      (Machine.load exe heap).run exe host fuel = halt.outcome m →
      (Machine.load exe heap).run exe (host.withBudget budget) fuel = halt.outcome m) ∧
    ∀ required limit m, (Machine.load exe heap).run exe host fuel =
      .failed (.callStack required limit) m →
      limit = host.budget ∧ ∃ n w, n < fuel ∧ w.Refuses exe host required m ∧
        (Machine.load exe heap).run exe host n = .outOfFuel w ∧
        ∀ k ≤ n, ∃ u, (Machine.load exe heap).run exe host k = .outOfFuel u ∧
          (Machine.load exe heap).run exe (host.withBudget budget) k = .outOfFuel u := by
  refine ⟨fun halt m hhalt h => Machine.run_withBudget hle h fun required limit m' heq => ?_,
    fun required limit m h => ?_⟩
  · cases halt with
    | finished | fault => cases heq
    | failed e =>
      cases heq
      exact hhalt required limit rfl
  · obtain ⟨hlimit, n, w, hn, hrun, hrefuses⟩ := Machine.refuses_of_run h
    refine ⟨hlimit, n, w, hn, hrefuses, hrun, fun k hk => ?_⟩
    obtain ⟨u, hu⟩ := Machine.run_of_le hrun hk
    exact ⟨u, hu, Machine.run_withBudget hle hu fun _ _ _ => nofun⟩

/-- The top level calls a routine, which calls another one. -/
def twoDeep : Executable where
  main := .ofOps .little [.loadConst 0, .call 0]
  routines := #[⟨"f", .ofOps .little [.loadConst 1, .call 0, .ret], 0, 0⟩,
    ⟨"g", .ofOps .little [.pushNull, .ret], 0, 1⟩]
  constants := #[.function 0, .function 1]
  globals := #[]

/-- The run with 100 bytes is refused the second call, up to which the run with 120 bytes is the
same; and the run with 120 bytes ends, as does one with 4096. -/
theorem budget_decides_refusal_twoDeep :
    (∃ m n w, (Machine.load twoDeep .empty).run twoDeep ⟨fun _ => .zero, .accepting, 100⟩ 20 =
        .failed (.callStack 120 100) m ∧
      w.Refuses twoDeep ⟨fun _ => .zero, .accepting, 100⟩ 120 m ∧
      (Machine.load twoDeep .empty).run twoDeep ⟨fun _ => .zero, .accepting,
        120⟩ n = .outOfFuel w) ∧
    ∃ m, m.core.stack = [.null] ∧
      (Machine.load twoDeep .empty).run twoDeep ⟨fun _ => .zero, .accepting, 120⟩ 20 = .finished m ∧
      (Machine.load twoDeep .empty).run twoDeep ⟨fun _ => .zero, .accepting,
        4096⟩ 20 = .finished m := by
  have hrefused : (Machine.load twoDeep .empty).run twoDeep ⟨fun _ => .zero, .accepting, 100⟩ 20 =
      .failed (.callStack 120 100) ⟨⟨[], .fresh⟩, #[], 7, [⟨0, 7, #[]⟩], 40⟩ := by decide +kernel
  have hends : (Machine.load twoDeep .empty).run twoDeep ⟨fun _ => .zero, .accepting, 120⟩ 20 =
      .finished ⟨⟨[.null], .fresh⟩, #[], 7, [], 0⟩ := by decide +kernel
  constructor
  · obtain ⟨-, n, w, -, hrefuses, hrun, hsame⟩ := (Executable.budget_decides_refusal twoDeep
      ⟨fun _ => .zero, .accepting, 100⟩ .empty 120 (by decide) 20).2 _ _ _ hrefused
    obtain ⟨u, hu, hu'⟩ := hsame n (Nat.le_refl n)
    cases hrun.symm.trans hu
    exact ⟨_, n, w, hrefused, hrefuses, hu'⟩
  · exact ⟨_, rfl, hends,
      (Executable.budget_decides_refusal twoDeep ⟨fun _ => .zero, .accepting, 120⟩ .empty 4096
      (by decide) 20).1 .finished _ (fun _ _ => nofun) hends⟩

end Stackscript
