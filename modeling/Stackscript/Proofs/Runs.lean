import Stackscript.Machine.Run

/-!
# Runs of deterministic systems

A system is a type of states with a step function, which leads to another state or ends the run.
Two systems are compared by a simulation: a relation on their states that every step of the first
keeps, while the second makes some steps or, as long as a measure falls, none.

* `Progress`, `Steps`, `EndsAfter`, `Ends`, and `runFor`, which makes a bounded number of steps;
* `Simulates`, with **`Simulates.ends`** and **`Simulates.reflects`**: each of two systems ends
  exactly when the other does, and then in related ends;
* `Halt`, `Machine.advance`, `Executable.Ends`: the stack machine as such a system.
-/

namespace Stackscript

/-- What a step of a system leads to. -/
inductive Progress (σ ω : Type) where
  | next (s : σ)
  | done (o : ω)

section Runs

variable {σ ω : Type} (step : σ → Progress σ ω)

/-- `n` steps lead from one state to another. -/
inductive Steps : Nat → σ → σ → Prop where
  | zero (s : σ) : Steps 0 s s
  | succ {n : Nat} {s t u : σ} : step s = .next t → Steps n t u → Steps (n + 1) s u

/-- After `n` steps the run from a state ends. -/
def EndsAfter (n : Nat) (s : σ) (o : ω) : Prop := ∃ t, Steps step n s t ∧ step t = .done o

/-- The run from a state ends. -/
def Ends (s : σ) (o : ω) : Prop := ∃ n, EndsAfter step n s o

/-- The end of the run from a state, if it is reached within so many steps. -/
def runFor : (fuel : Nat) → σ → Option ω
  | 0, _ => none
  | fuel + 1, s =>
    match step s with
    | .next t => runFor fuel t
    | .done o => some o

variable {step}

theorem Steps.one {s t : σ} (h : step s = .next t) : Steps step 1 s t := .succ h (.zero t)

theorem Steps.append {m n : Nat} {s t u : σ} (h₁ : Steps step m s t) (h₂ : Steps step n t u) :
    Steps step (m + n) s u := by
  induction h₁ with
  | zero => rwa [Nat.zero_add]
  | succ h _ ih =>
    rw [Nat.add_right_comm]
    exact .succ h (ih h₂)

theorem Steps.snoc {n : Nat} {s t u : σ} (h₁ : Steps step n s t) (h₂ : step t = .next u) :
    Steps step (n + 1) s u := h₁.append (.one h₂)

theorem EndsAfter.of_steps {m n : Nat} {s t : σ} {o : ω} (h₁ : Steps step m s t)
    (h₂ : EndsAfter step n t o) : EndsAfter step (m + n) s o := by
  obtain ⟨u, hu, ho⟩ := h₂
  exact ⟨u, h₁.append hu, ho⟩

theorem Ends.of_steps {n : Nat} {s t : σ} {o : ω} (h₁ : Steps step n s t) (h₂ : Ends step t o) :
    Ends step s o := by
  obtain ⟨m, hm⟩ := h₂
  exact ⟨n + m, hm.of_steps h₁⟩

theorem Ends.of_done {s : σ} {o : ω} (h : step s = .done o) : Ends step s o := ⟨0, s, .zero s, h⟩

/-- The steps on the way to the end of a run are a part of it. -/
theorem EndsAfter.after_steps {m n : Nat} {s t : σ} {o : ω} (h₁ : Steps step m s t)
    (h₂ : EndsAfter step n s o) : ∃ k, n = m + k ∧ EndsAfter step k t o := by
  induction h₁ generalizing n with
  | zero => exact ⟨n, by omega, h₂⟩
  | succ h _ ih =>
    obtain ⟨u, hu, ho⟩ := h₂
    cases hu with
    | zero => rw [h] at ho; cases ho
    | succ h' hu =>
      cases h.symm.trans h'
      obtain ⟨k, rfl, hk⟩ := ih ⟨u, hu, ho⟩
      exact ⟨k, by omega, hk⟩

/-- A run has at most one end. -/
theorem Ends.unique {s : σ} {o o' : ω} (h : Ends step s o) (h' : Ends step s o') : o = o' := by
  obtain ⟨n, t, ht, ho⟩ := h
  obtain ⟨n', h'⟩ := h'
  obtain ⟨k, -, u, hu, ho'⟩ := h'.after_steps ht
  cases hu with
  | zero => rw [ho] at ho'; cases ho'; rfl
  | succ h _ => rw [ho] at h; cases h

theorem runFor_eq_some_iff {s : σ} {o : ω} :
    (∃ fuel, runFor step fuel s = some o) ↔ Ends step s o := by
  constructor
  · rintro ⟨fuel, h⟩
    induction fuel generalizing s with
    | zero => cases h
    | succ fuel ih =>
      rw [runFor] at h
      cases hs : step s with
      | next t =>
        rw [hs] at h
        exact (ih h).of_steps (.one hs)
      | done o' =>
        rw [hs] at h
        cases h
        exact .of_done hs
  · rintro ⟨n, t, ht, ho⟩
    refine ⟨n + 1, ?_⟩
    induction ht with
    | zero => rw [runFor, ho]
    | succ h _ ih => rw [runFor, h]; exact ih ho

end Runs

/-! ## Simulations -/

section Simulation

variable {σ₁ σ₂ ω₁ ω₂ : Type}

/-- Two steps both go on, or both end, in a related way. -/
inductive Progress.Related (related : σ₁ → σ₂ → Prop) (ended : ω₁ → ω₂ → Prop) :
    Progress σ₁ ω₁ → Progress σ₂ ω₂ → Prop where
  | next {s : σ₁} {t : σ₂} : related s t → Related related ended (.next s) (.next t)
  | done {o : ω₁} {o' : ω₂} : ended o o' → Related related ended (.done o) (.done o')

theorem Progress.Related.of_next {related : σ₁ → σ₂ → Prop} {ended : ω₁ → ω₂ → Prop} {s : σ₁}
    {p : Progress σ₂ ω₂} (h : Related related ended (.next s) p) :
    ∃ t, p = .next t ∧ related s t := by
  cases h with
  | next h => exact ⟨_, rfl, h⟩

theorem Progress.Related.of_done {related : σ₁ → σ₂ → Prop} {ended : ω₁ → ω₂ → Prop} {o : ω₁}
    {p : Progress σ₂ ω₂} (h : Related related ended (.done o) p) :
    ∃ o', p = .done o' ∧ ended o o' := by
  cases h with
  | done h => exact ⟨_, rfl, h⟩

/-- **A simulation.** Every step from the first of two related states is matched by at least one
step from the second, or by none if `rank` falls; and if the first run ends, so does the second. -/
structure Simulates (step₁ : σ₁ → Progress σ₁ ω₁) (step₂ : σ₂ → Progress σ₂ ω₂)
    (related : σ₁ → σ₂ → Prop) (ended : ω₁ → ω₂ → Prop) (rank : σ₁ → Nat) : Prop where
  next : ∀ {s s' t}, related s t → step₁ s = .next s' →
    (∃ n t', Steps step₂ (n + 1) t t' ∧ related s' t') ∨ (related s' t ∧ rank s' < rank s)
  done : ∀ {s t o}, related s t → step₁ s = .done o → ∃ o', Ends step₂ t o' ∧ ended o o'

variable {step₁ : σ₁ → Progress σ₁ ω₁} {step₂ : σ₂ → Progress σ₂ ω₂} {related : σ₁ → σ₂ → Prop}
  {ended : ω₁ → ω₂ → Prop} {rank : σ₁ → Nat}

/-- **If the first of two related runs ends, so does the second.** -/
theorem Simulates.ends (sim : Simulates step₁ step₂ related ended rank) {s : σ₁} {t : σ₂} {o : ω₁}
    (h : related s t) (ho : Ends step₁ s o) : ∃ o', Ends step₂ t o' ∧ ended o o' := by
  obtain ⟨n, u, hu, ho⟩ := ho
  induction hu generalizing t with
  | zero => exact sim.done h ho
  | succ hs _ ih =>
    rcases sim.next h hs with ⟨n, t', ht, h'⟩ | ⟨h', -⟩
    · obtain ⟨o', ho', he⟩ := ih h' ho
      exact ⟨o', ho'.of_steps ht, he⟩
    · exact ih h' ho

/-- **If the second of two related runs ends, so does the first.** -/
theorem Simulates.reflects (sim : Simulates step₁ step₂ related ended rank) {s : σ₁} {t : σ₂}
    {o' : ω₂} (h : related s t) (ho : Ends step₂ t o') : ∃ o, Ends step₁ s o ∧ ended o o' := by
  obtain ⟨n, ho⟩ := ho
  -- on the length of the second run, and on the rank for the steps that it does not match
  induction n using Nat.strongRecOn generalizing s t with
  | ind n ihn =>
    induction hr : rank s using Nat.strongRecOn generalizing s with
    | ind r ihr =>
      cases hs : step₁ s with
      | done o =>
        obtain ⟨o'', ho'', he⟩ := sim.done h hs
        cases ho''.unique ⟨n, ho⟩
        exact ⟨o, .of_done hs, he⟩
      | next s' =>
        rcases sim.next h hs with ⟨m, t', ht, h'⟩ | ⟨h', hlt⟩
        · obtain ⟨k, hk, ho⟩ := ho.after_steps ht
          obtain ⟨o, ho, he⟩ := ihn k (by omega) h' ho
          exact ⟨o, ho.of_steps (.one hs), he⟩
        · obtain ⟨o, ho, he⟩ := ihr (rank s') (by omega) h' rfl
          exact ⟨o, ho.of_steps (.one hs), he⟩

end Simulation

/-! ## The stack machine as a system -/

/-- The ways in which a run can end. -/
inductive Halt where
  | finished
  | failed (e : Failure)
  | fault (f : Fault)
deriving DecidableEq

/-- The end of a program that has come to its end: the output is flushed. -/
def Halt.atEnd (host : Host) (world : World) : Halt :=
  match host.sink.refuseFlush world.output with
  | some reason => .failed (.flush reason)
  | none => .finished

theorem Halt.atEnd_ne_fault (host : Host) (world : World) (f : Fault) :
    atEnd host world ≠ .fault f := by
  unfold atEnd
  split <;> nofun

/-- The outcome of a run that ends in a machine. -/
def Halt.outcome : Halt → Machine → Outcome
  | .finished, m => .finished m
  | .failed e, m => .failed e m
  | .fault f, m => .fault f m

/-- What a step of the stack machine leads to as a step of a system. -/
def Step.progress (host : Host) : Step → Progress Machine (Halt × Machine)
  | .next m => .next m
  | .exit m => .done (.atEnd host m.core.world, m)
  | .failed e m => .done (.failed e, m)
  | .fault f m => .done (.fault f, m)

namespace Machine

/-- One step of the stack machine as a step of a system. -/
def advance (exe : Executable) (host : Host) (m : Machine) : Progress Machine (Halt × Machine) :=
  (m.step exe host).progress host

theorem finish_eq (host : Host) (m : Machine) :
    m.finish host = (Halt.atEnd host m.core.world).outcome m := by
  unfold finish Halt.atEnd
  cases host.sink.refuseFlush m.core.world.output <;> rfl

theorem outcome_ne_outOfFuel (halt : Halt) (m m' : Machine) : halt.outcome m ≠ .outOfFuel m' := by
  cases halt <;> simp [Halt.outcome]

theorem outcome_inj {halt halt' : Halt} {m m' : Machine} (h : halt.outcome m = halt'.outcome m') :
    halt = halt' ∧ m = m' := by
  cases halt <;> cases halt' <;> simp_all [Halt.outcome]

/-- Running for some steps ends as the system does. -/
theorem run_eq_outcome_iff {exe : Executable} {host : Host} {fuel : Nat} {m m' : Machine}
    {halt : Halt} :
    m.run exe host fuel = halt.outcome m' ↔ runFor (advance exe host) fuel m = some (halt, m') := by
  induction fuel generalizing m with
  | zero =>
    simp only [run, runFor, reduceCtorEq, iff_false]
    exact (outcome_ne_outOfFuel halt m' m).symm
  | succ fuel ih =>
    have hinj : ∀ (halt₀ : Halt) (m₀ : Machine),
        halt₀.outcome m₀ = halt.outcome m' ↔ some (halt₀, m₀) = some (halt, m') :=
      fun _ _ => ⟨fun h => by obtain ⟨rfl, rfl⟩ := outcome_inj h; rfl, fun h => by cases h; rfl⟩
    rw [run, runFor, advance]
    cases m.step exe host with
    | next m₁ => exact ih
    | exit m₁ =>
      show m₁.finish host = halt.outcome m' ↔ _
      rw [finish_eq]
      exact hinj _ _
    | failed e m₁ => exact hinj (.failed e) m₁
    | fault f m₁ => exact hinj (.fault f) m₁

/-- A run that is out of fuel has made all its steps. -/
theorem steps_of_run {exe : Executable} {host : Host} {fuel : Nat} {m m' : Machine}
    (h : m.run exe host fuel = .outOfFuel m') : Steps (advance exe host) fuel m m' := by
  induction fuel generalizing m with
  | zero => cases h; exact .zero _
  | succ fuel ih =>
    rw [run] at h
    cases hs : m.step exe host with
    | next m₁ =>
      rw [hs] at h
      exact .succ (by rw [advance, hs]; rfl) (ih h)
    | exit m₁ =>
      rw [hs] at h
      exact absurd ((finish_eq host m₁).symm.trans h) (outcome_ne_outOfFuel _ _ _)
    | failed e m₁ => rw [hs] at h; cases h
    | fault f m₁ => rw [hs] at h; cases h

end Machine

/-- The run of an executable ends in a machine. -/
def Executable.Ends (exe : Executable) (host : Host) (halt : Halt) (m : Machine) : Prop :=
  ∃ fuel, (Machine.load exe .empty).run exe host fuel = halt.outcome m

theorem Executable.ends_iff {exe : Executable} {host : Host} {halt : Halt} {m : Machine} :
    exe.Ends host halt m ↔
      Stackscript.Ends (Machine.advance exe host) (Machine.load exe .empty) (halt, m) := by
  simp only [Executable.Ends, Machine.run_eq_outcome_iff, runFor_eq_some_iff]

end Stackscript
