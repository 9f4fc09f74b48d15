import Mathlib.Data.List.Forall2

/-!
# Lists of related elements

Facts on two lists whose elements are related one by one, and on functions that may fail applied to
every element of a list.

* `map_eq_map_of_forall₂`, `any_eq_any_of_forall₂`, `getElem?_of_forall₂`,
  `forall_mem_iff_of_forall₂`, `exists_mem_of_forall₂`, `forall₂_flatMap`, `forall₂_comp`,
  `filterMap_eq_of_forall₂`, `eq_of_forall₂`;
* `except_bind_eq_ok`, `except_bind_eq_error`, `bind_eq_ok`, `toOption_eq_some`, `mapM_eq_ok`,
  `mapM_ok_iff`, `mapM_eq_error`;
* `idxOf?_of_getElem?`, `filter_eq_singleton`, `modify_length_append`.
-/

namespace Stackscript

/-! ## Two lists -/

theorem map_eq_map_of_forall₂ {α β γ : Type} {f : α → γ} {g : β → γ} {as : List α} {bs : List β}
    (h : List.Forall₂ (fun a b => f a = g b) as bs) : as.map f = bs.map g := by
  induction h with
  | nil => rfl
  | cons h _ ih => rw [List.map_cons, List.map_cons, h, ih]

theorem any_eq_any_of_forall₂ {α β : Type} {f : α → Bool} {g : β → Bool} {as : List α} {bs : List β}
    (h : List.Forall₂ (fun a b => f a = g b) as bs) : as.any f = bs.any g := by
  induction h with
  | nil => rfl
  | cons h _ ih => rw [List.any_cons, List.any_cons, h, ih]

theorem getElem?_of_forall₂ {α β : Type} {R : α → β → Prop} {as : List α} {bs : List β}
    (h : List.Forall₂ R as bs) (i : Nat) :
    (as[i]? = none ∧ bs[i]? = none) ∨ ∃ a b, as[i]? = some a ∧ bs[i]? = some b ∧ R a b := by
  induction h generalizing i with
  | nil => exact .inl ⟨rfl, rfl⟩
  | cons h _ ih =>
    cases i with
    | zero => exact .inr ⟨_, _, rfl, rfl, h⟩
    | succ i => exact ih i

theorem forall_mem_iff_of_forall₂ {α β : Type} {P : α → Prop} {Q : β → Prop} {as : List α}
    {bs : List β}
    (h : List.Forall₂ (fun a b => P a ↔ Q b) as bs) : (∀ b ∈ bs, Q b) ↔ ∀ a ∈ as, P a := by
  induction h with
  | nil => simp
  | cons h _ ih => rw [List.forall_mem_cons, List.forall_mem_cons, h, ih]

theorem exists_mem_of_forall₂ {α β : Type} {R : α → β → Prop} {as : List α} {bs : List β}
    (h : List.Forall₂ R as bs) {a : α} (ha : a ∈ as) : ∃ b ∈ bs, R a b := by
  obtain ⟨i, hi⟩ := List.getElem?_of_mem ha
  obtain ⟨hnone, -⟩ | ⟨a', b, ha', hb, hab⟩ := getElem?_of_forall₂ h i
  · rw [hi] at hnone
    cases hnone
  · rw [hi] at ha'
    cases ha'
    exact ⟨b, List.mem_of_getElem? hb, hab⟩

theorem forall₂_flatMap {α β γ : Type} {R : α → β → Prop} {ls : List (γ × List α)}
    {ds : List (γ × List β)}
    (h : List.Forall₂ (fun l d => l.1 = d.1 ∧ List.Forall₂ R l.2 d.2) ls ds) :
    List.Forall₂ R (ls.flatMap (·.2)) (ds.flatMap (·.2)) := by
  induction h with
  | nil => exact .nil
  | cons h _ ih => exact List.rel_append h.2 ih

theorem forall₂_comp {α β γ : Type} {R : α → β → Prop} {S : β → γ → Prop} {as : List α}
    {bs : List β} {cs : List γ}
    (h : List.Forall₂ R as bs) (h' : List.Forall₂ S bs cs) :
    List.Forall₂ (fun a c => ∃ b, R a b ∧ S b c) as cs := by
  induction h generalizing cs with
  | nil =>
    cases h'
    exact .nil
  | cons h _ ih =>
    cases h' with
    | cons hs h' => exact .cons ⟨_, h, hs⟩ (ih h')

theorem filterMap_eq_of_forall₂ {α β γ : Type} {f : α → Option γ} {g : β → Option γ} {as : List α}
    {bs : List β}
    (h : List.Forall₂ (fun a b => f a = g b) as bs) : as.filterMap f = bs.filterMap g := by
  induction h with
  | nil => rfl
  | cons h _ ih => rw [List.filterMap_cons, List.filterMap_cons, h, ih]

/-- Lists that are related one by one to the same list are the same, if the relation has one value
for each element. -/
theorem eq_of_forall₂ {α β : Type} {R : α → β → Prop} (hR : ∀ {a b b'}, R a b → R a b' → b = b')
    {as : List α}
    {bs bs' : List β} (h : List.Forall₂ R as bs) (h' : List.Forall₂ R as bs') : bs = bs' := by
  induction h generalizing bs' with
  | nil =>
    cases h'
    rfl
  | cons h _ ih =>
    cases h' with
    | cons hs h' => rw [hR h hs, ih h']

/-! ## Functions that may fail -/

/-- Sequencing of results that may be errors. -/
theorem except_bind_eq_ok {ε α β : Type} {x : Except ε α} {f : α → Except ε β} {b : β} :
    (x >>= f) = .ok b ↔ ∃ a, x = .ok a ∧ f a = .ok b := by
  cases x with
  | error e => simp [bind, Except.bind]
  | ok a => simp [bind, Except.bind]

theorem except_bind_eq_error {ε α β : Type} {x : Except ε α} {f : α → Except ε β} {e : ε} :
    (x >>= f) = .error e ↔ x = .error e ∨ ∃ a, x = .ok a ∧ f a = .error e := by
  cases x with
  | error e' => simp [bind, Except.bind]
  | ok a => simp [bind, Except.bind]

/-- Actions one after the other have a result if both have. -/
theorem bind_eq_ok {ε σ α β : Type} {x : EStateM ε σ α} {f : α → EStateM ε σ β} {s s'' : σ}
    {r : β} : (x >>= f) s = .ok r s'' ↔ ∃ a s', x s = .ok a s' ∧ f a s' = .ok r s'' := by
  show EStateM.bind x f s = _ ↔ _
  unfold EStateM.bind
  cases x s with
  | ok a s' => exact ⟨fun h => ⟨a, s', rfl, h⟩, fun ⟨a, s', hx, h⟩ => by cases hx; exact h⟩
  | error e s' => exact ⟨nofun, fun ⟨_, _, hx, _⟩ => nomatch hx⟩

theorem toOption_eq_some {ε α : Type} {x : Except ε α} {a : α} :
    x.toOption = some a ↔ x = .ok a := by
  cases x <;> simp [Except.toOption]

theorem mapM_eq_ok {ε α β : Type} {f : α → Except ε β} {as : List α} {bs : List β}
    (h : as.mapM f = .ok bs) : List.Forall₂ (fun a b => f a = .ok b) as bs := by
  induction as generalizing bs with
  | nil => cases h; exact .nil
  | cons a as ih =>
    simp only [List.mapM_cons, except_bind_eq_ok] at h
    obtain ⟨b, hb, bs', hbs, h⟩ := h
    cases h
    exact .cons hb (ih hbs)

theorem mapM_ok_iff {ε α β : Type} {f : α → Except ε β} {as : List α} :
    (∃ bs, as.mapM f = .ok bs) ↔ ∀ a ∈ as, ∃ b, f a = .ok b := by
  induction as with
  | nil => simp [pure, Except.pure]
  | cons a as ih =>
    simp only [List.mapM_cons, except_bind_eq_ok, List.forall_mem_cons, ← ih]
    constructor
    · rintro ⟨_, b, hb, bs, hbs, -⟩
      exact ⟨⟨b, hb⟩, bs, hbs⟩
    · rintro ⟨⟨b, hb⟩, bs, hbs⟩
      exact ⟨_, b, hb, bs, hbs, rfl⟩

theorem mapM_eq_error {ε α β : Type} {f : α → Except ε β} {as : List α} {e : ε}
    (h : as.mapM f = .error e) : ∃ a ∈ as, f a = .error e := by
  induction as with
  | nil => cases h
  | cons a as ih =>
    simp only [List.mapM_cons, except_bind_eq_error] at h
    obtain h | ⟨b, -, h | ⟨bs, -, h⟩⟩ := h
    · exact ⟨a, List.mem_cons_self, h⟩
    · obtain ⟨a', ha', h⟩ := ih h
      exact ⟨a', List.mem_cons_of_mem _ ha', h⟩
    · cases h

theorem idxOf?_of_getElem? {α : Type} [DecidableEq α] {l : List α} {k : Nat} {a : α} (hd : l.Nodup)
    (h : l[k]? = some a) : l.idxOf? a = some k := by
  obtain ⟨hlt, rfl⟩ := List.getElem?_eq_some_iff.1 h
  rw [List.idxOf?_eq_some_iff]
  refine ⟨hlt, rfl, fun j hj e => ?_⟩
  have := (List.getElem?_inj (by omega) hd).1
    ((List.getElem?_eq_getElem (by omega)).trans (e ▸ h.symm))
  omega

theorem filter_eq_singleton {α : Type} {num : α → Nat} {l : List α} (hl : (l.map num).Nodup) {a : α}
    (ha : a ∈ l) : l.filter (fun b => decide (num b = num a)) = [a] := by
  obtain ⟨l₁, l₂, rfl⟩ := List.append_of_mem ha
  rw [List.map_append, List.map_cons, List.nodup_append, List.nodup_cons] at hl
  obtain ⟨-, ⟨hafter, -⟩, hbefore⟩ := hl
  rw [List.filter_eq_cons_iff]
  refine ⟨l₁, l₂, rfl, fun b hb => ?_, by simp, ?_⟩
  · simpa using hbefore _ (List.mem_map_of_mem hb) _ List.mem_cons_self
  · rw [List.filter_eq_nil_iff]
    intro b hb heq
    exact hafter (of_decide_eq_true heq ▸ List.mem_map_of_mem hb)

theorem getElem?_append_of_some {α : Type} {xs ys : Array α} {k : Nat} {a : α}
    (h : xs[k]? = some a) : (xs ++ ys)[k]? = some a := by
  rw [Array.getElem?_append_left (Array.getElem?_eq_some_iff.1 h).1, h]

theorem modify_length_append {α : Type} (l₁ l₂ : List α) (a : α) (f : α → α) :
    (l₁ ++ a :: l₂).modify l₁.length f = l₁ ++ f a :: l₂ := by
  induction l₁ with
  | nil => rfl
  | cons x l₁ ih => exact congrArg (x :: ·) ih

end Stackscript
