import Mathlib.Data.List.Induction
import Stackscript.Proofs.LabelMachine
import Stackscript.Proofs.Unwinding

/-!
# Scopes open and close like brackets

A table of scopes is changed by opening and closing scopes, by declarations and by closing
variables. What a name stands for can be read off the history: a declaration counts as long as its
scope has not been closed, and among those that count the one in the innermost scope. Variables are
numbered as they are declared and outlive their scopes.

* `ScopeTable.Action`, `ScopeTable.act`, `ScopeTable.run`; `openAfter`, the number of open scopes;
* `Declared`, **`Binds`**: what a history declares, and in which open scope;
* `boundIn`, the bindings of the open scopes by their number, with `boundIn_act` and
  **`binds_iff`**;
* `scopes_bracket`: a scope that is opened and closed again leaves no traces in the scopes;
* `varsKept_run`, **`scopes_nest`**.
-/

namespace Stackscript

namespace ScopeTable

/-! ## Histories -/

/-- What can be done with a table. -/
inductive Action where
  | enter (kind : ScopeKind)
  | leave
  | declare (name : String) (storage : Storage) (owner : Option Nat)
  | markClosed (id : VarId)
deriving DecidableEq

/-- The table after an action; a declaration that fails changes nothing. -/
def act (t : ScopeTable) : Action → ScopeTable
  | .enter kind => t.enter kind
  | .leave => t.leave
  | .declare name storage owner =>
    match t.declare name storage owner with
    | .ok (_, t') => t'
    | .error _ => t
  | .markClosed id => t.markClosed id

/-- The table after a history. -/
def run (t : ScopeTable) (as : List Action) : ScopeTable := as.foldl act t

/-- The number of open scopes after an action; the scope that is closed has to be one of them. -/
def Action.open? : Action → Nat → Option Nat
  | .enter _, n => some (n + 1)
  | .leave, 0 => none
  | .leave, n + 1 => some n
  | .declare .., n | .markClosed _, n => some n

/-- **The number of open scopes after a history**, of which `n` were open before. There is none if
the history closes a scope that is not open; scopes that are not among the `n` do not count. -/
def openAfter (n : Nat) (as : List Action) : Option Nat := as.foldlM (fun n a => a.open? n) n

/-- The action declares a name and gets a variable for it. -/
def Gives (t : ScopeTable) (a : Action) (name : String) (id : VarId) : Prop :=
  ∃ storage owner t', a = .declare name storage owner ∧ t.declare name storage owner = .ok (id, t')

/-- A history has declared a name at some point and has got a variable for it. -/
def Declared (as before : List Action) (name : String) (id : VarId) (after : List Action) : Prop :=
  ∃ a, as = before ++ a :: after ∧ (initial.run before).Gives a name id

/-- **A name is bound in an open scope**, counted from the outermost: it has been declared when this
scope was the innermost one, and what came after has not closed the scope. -/
def Binds (as : List Action) (d : Nat) (name : String) (id : VarId) : Prop :=
  ∃ before after m, Declared as before name id after ∧ openAfter 0 before = some (d + 1) ∧
    openAfter 0 after = some m

variable {t t' : ScopeTable} {a : Action} {as bs : List Action} {n m k d : Nat}
  {name : String} {id : VarId}

theorem run_append (t : ScopeTable) (as bs : List Action) : t.run (as ++ bs) = (t.run as).run bs :=
  List.foldl_append

theorem openAfter_cons : openAfter n (a :: as) = (a.open? n).bind fun m => openAfter m as := rfl

theorem openAfter_append : openAfter n (as ++ bs) = (openAfter n as).bind fun m => openAfter m bs :=
  List.foldlM_append

theorem openAfter_singleton : openAfter n [a] = a.open? n := by
  rw [openAfter_cons]
  cases a.open? n <;> rfl

/-- Scopes further out do not matter to a history. -/
theorem Action.open?_add (h : a.open? n = some m) (k : Nat) : a.open? (k + n) = some (k + m) := by
  cases a with
  | leave =>
    cases n with
    | zero => cases h
    | succ n =>
      cases h
      rfl
  | _ =>
    cases h
    rfl

theorem openAfter_add (h : openAfter n as = some m) (k : Nat) :
    openAfter (k + n) as = some (k + m) := by
  induction as generalizing n with
  | nil =>
    cases h
    rfl
  | cons a as ih =>
    rw [openAfter_cons, Option.bind_eq_some_iff] at h ⊢
    obtain ⟨p, hp, h⟩ := h
    exact ⟨k + p, Action.open?_add hp k, ih h⟩

/-- A history can only go on wrong by closing a scope. -/
theorem exists_open?_iff : (∃ m, a.open? n = some m) ↔ (a = .leave → 0 < n) := by
  cases a <;> cases n <;> simp [Action.open?]

/-! ## What a history declares -/

theorem gives_declare {name' : String} {storage : Storage} {owner : Option Nat} :
    t.Gives (.declare name' storage owner) name id ↔
      name' = name ∧ ∃ t', t.declare name' storage owner = .ok (id, t') := by
  constructor
  · rintro ⟨_, _, t', ⟨⟩, hok⟩
    exact ⟨rfl, t', hok⟩
  · rintro ⟨rfl, t', hok⟩
    exact ⟨storage, owner, t', rfl, hok⟩

theorem declared_concat {before after : List Action} : Declared (as ++ [a]) before name id after ↔
    (∃ after', after = after' ++ [a] ∧ Declared as before name id after') ∨
    (before = as ∧ after = [] ∧ (initial.run as).Gives a name id) := by
  constructor
  · rintro ⟨b, has, hgives⟩
    obtain rfl | ⟨after', a', rfl⟩ := after.eq_nil_or_concat
    · obtain ⟨rfl, ha⟩ := List.append_inj' has rfl
      cases ha
      exact .inr ⟨rfl, rfl, hgives⟩
    · rw [List.concat_eq_append] at has ⊢
      rw [← List.cons_append, ← List.append_assoc] at has
      obtain ⟨rfl, ha⟩ := List.append_inj' has rfl
      cases ha
      exact .inl ⟨after', rfl, b, rfl, hgives⟩
  · rintro (⟨after', rfl, b, rfl, hgives⟩ | ⟨rfl, rfl, hgives⟩)
    · exact ⟨b, by simp, hgives⟩
    · exact ⟨a, rfl, hgives⟩

/-- The scopes that are open after a declaration lie inside its own. -/
theorem Declared.openAfter {before after : List Action} (h : Declared as before name id after)
    (hbefore : openAfter 0 before = some (d + 1)) (hafter : openAfter 0 after = some m) :
    openAfter 0 as = some (d + 1 + m) := by
  obtain ⟨_, rfl, storage, owner, _, rfl, -⟩ := h
  rw [openAfter_append, hbefore, Option.bind_some, openAfter_cons]
  exact openAfter_add hafter (d + 1)

/-- **What one more action does to what is bound**: closing a scope ends its bindings, a declaration
that succeeds adds one to the innermost scope. -/
theorem binds_concat (hn : openAfter 0 as = some n) : Binds (as ++ [a]) d name id ↔
    (Binds as d name id ∧ (a = .leave → d + 1 < n)) ∨
    (n = d + 1 ∧ (initial.run as).Gives a name id) := by
  -- an action can follow on the declaration's scope if it can follow on all that are open now
  have hfollows : ∀ {before after m}, Declared as before name id after →
      openAfter 0 before = some (d + 1) → openAfter 0 after = some m →
      ((∃ p, a.open? m = some p) ↔ (a = .leave → d + 1 < n)) := by
    intro before after m hdeclared hbefore hafter
    have hopen := hdeclared.openAfter hbefore hafter
    rw [hn, Option.some.injEq] at hopen
    rw [exists_open?_iff, hopen]
    exact forall_congr' fun _ => by omega
  constructor
  · rintro ⟨before, after, m, hdeclared, hbefore, hafter⟩
    obtain ⟨after', rfl, hearlier⟩ | ⟨rfl, rfl, hnew⟩ := declared_concat.1 hdeclared
    · rw [openAfter_append, Option.bind_eq_some_iff] at hafter
      obtain ⟨p, hp, ha⟩ := hafter
      rw [openAfter_singleton] at ha
      exact .inl ⟨⟨before, after', p, hearlier, hbefore, hp⟩,
        (hfollows hearlier hbefore hp).1 ⟨m, ha⟩⟩
    · rw [hn] at hbefore
      cases hbefore
      exact .inr ⟨rfl, hnew⟩
  · rintro (⟨⟨before, after, m, hdeclared, hbefore, hafter⟩, hleave⟩ | ⟨rfl, hnew⟩)
    · obtain ⟨p, hp⟩ := (hfollows hdeclared hbefore hafter).2 hleave
      refine ⟨before, after ++ [a], p, declared_concat.2 (.inl ⟨after, rfl, hdeclared⟩), hbefore,
        ?_⟩
      rw [openAfter_append, hafter, Option.bind_some, openAfter_singleton, hp]
    · exact ⟨as, [], 0, declared_concat.2 (.inr ⟨rfl, rfl, hnew⟩), hn, rfl⟩

/-! ## What the table holds -/

/-- The variable to which a name is bound in a scope, counted from the outermost. -/
def boundIn : List Scope → Nat → String → Option VarId
  | [], _, _ => none
  | s :: outer, d, name => if d = outer.length then s.bindings.lookup name else boundIn outer d name

theorem lt_of_boundIn {scopes : List Scope} (h : boundIn scopes d name = some id) :
    d < scopes.length := by
  induction scopes with
  | nil => cases h
  | cons s outer ih =>
    rw [boundIn] at h
    split at h
    case isTrue hd => exact Nat.lt_succ_of_le (Nat.le_of_eq hd)
    case isFalse => exact Nat.lt_succ_of_lt (ih h)

theorem boundIn_length (scopes : List Scope) (name : String) :
    boundIn scopes scopes.length name = none :=
  Option.eq_none_iff_forall_ne_some.2 fun _ h => Nat.lt_irrefl _ (lt_of_boundIn h)

theorem boundIn_innermost (s : Scope) (outer : List Scope) (name : String) :
    boundIn (s :: outer) outer.length name = s.bindings.lookup name := by
  rw [boundIn, if_pos rfl]

theorem boundIn_of_lookup_none {s : Scope} (hs : s.bindings.lookup name = none) (outer : List Scope)
    (d : Nat) : boundIn (s :: outer) d name = boundIn outer d name := by
  rw [boundIn]
  split
  case isTrue hd => rw [hd, hs, boundIn_length]
  case isFalse => rfl

/-- The first scope in which a name is found is the innermost that binds it. -/
theorem findSome?_eq_some_iff {scopes : List Scope} :
    scopes.findSome? (·.bindings.lookup name) = some id ↔
    ∃ d, boundIn scopes d name = some id ∧ ∀ d' id', boundIn scopes d' name = some id' →
      d' ≤ d := by
  induction scopes with
  | nil => simp [boundIn]
  | cons s outer ih =>
    rw [List.findSome?_cons]
    cases hs : s.bindings.lookup name with
    | some id' =>
      -- the first scope binds the name, and none has a greater number
      have hin := (boundIn_innermost s outer name).trans hs
      have hmost : ∀ d id, boundIn (s :: outer) d name = some id → d ≤ outer.length :=
        fun _ _ hd => Nat.le_of_lt_succ (lt_of_boundIn hd)
      constructor
      · rintro ⟨⟩
        exact ⟨outer.length, hin, hmost⟩
      · rintro ⟨d, hd, hmax⟩
        rw [Nat.le_antisymm (hmost d id hd) (hmax _ _ hin), hin] at hd
        exact hd
    | none =>
      simp only [boundIn_of_lookup_none hs]
      exact ih

theorem findSome?_eq_none_iff {scopes : List Scope} :
    scopes.findSome? (·.bindings.lookup name) = none ↔ ∀ d id, boundIn scopes d name ≠ some id := by
  induction scopes with
  | nil => simp [boundIn]
  | cons s outer ih =>
    rw [List.findSome?_cons]
    cases hs : s.bindings.lookup name with
    | some id =>
      constructor
      · rintro ⟨⟩
      · exact fun hnone => absurd ((boundIn_innermost s outer name).trans hs) (hnone _ _)
    | none =>
      simp only [boundIn_of_lookup_none hs]
      exact ih

theorem declare_nil (hs : t.scopes = []) (storage : Storage) (owner : Option Nat) :
    t.declare name storage owner = .error (.noScope name) := by
  rw [declare, hs]

theorem declare_cons {s : Scope} {outer : List Scope} (hs : t.scopes = s :: outer)
    (storage : Storage) (owner : Option Nat) : t.declare name storage owner =
      if (s.bindings.lookup name).isSome then .error (.duplicate name)
      else .ok (t.vars.size, ⟨t.vars.push ⟨name, storage, t.depth, owner⟩,
        { s with bindings := (name, t.vars.size) :: s.bindings } :: outer⟩) := by
  rw [declare, hs]

theorem length_act (h : a.open? t.scopes.length = some m) : (t.act a).scopes.length = m := by
  cases a with
  | enter kind =>
    cases h
    rfl
  | leave =>
    cases hs : t.scopes with
    | nil =>
      rw [hs] at h
      cases h
    | cons s outer =>
      rw [hs] at h
      cases h
      rw [act, leave, hs, List.tail_cons]
  | declare name storage owner =>
    cases h
    rw [act]
    cases hs : t.scopes with
    | nil => rw [declare_nil hs, hs]
    | cons s outer =>
      rw [declare_cons hs]
      split
      case h_1 hok => grind
      case h_2 => rw [hs]
  | markClosed id =>
    cases h
    rfl

/-- **What one more action does to the bindings of the table.** -/
theorem boundIn_act (h : a.open? t.scopes.length = some m) :
    boundIn (t.act a).scopes d name = some id ↔
    (boundIn t.scopes d name = some id ∧ (a = .leave → d + 1 < t.scopes.length)) ∨
    (t.scopes.length = d + 1 ∧ t.Gives a name id) := by
  cases a with
  | enter kind =>
    have hlt := @lt_of_boundIn d name id t.scopes
    simp only [act, enter, boundIn, List.lookup_nil, Gives]
    grind
  | leave =>
    simp only [act, leave, Gives]
    cases hs : t.scopes with
    | nil =>
      rw [hs] at h
      cases h
    | cons s outer =>
      have hlt := @lt_of_boundIn d name id outer
      simp only [List.tail_cons, boundIn, List.length_cons]
      grind
  | declare name' storage owner =>
    rw [gives_declare, act]
    cases hs : t.scopes with
    | nil => simp [declare_nil hs, hs, boundIn]
    | cons s outer =>
      rw [declare_cons hs]
      by_cases hdup : (s.bindings.lookup name').isSome
      · simp [if_pos hdup, hs]
      · simp only [if_neg hdup, boundIn, List.lookup_cons, List.length_cons, Except.ok.injEq,
          Prod.mk.injEq, exists_and_left, exists_eq']
        grind
  | markClosed id' => simp [act, markClosed, Gives]

theorem run_concat (t : ScopeTable) (as : List Action) (a : Action) :
    t.run (as ++ [a]) = (t.run as).act a :=
  run_append t as [a]

/-- **The table binds what the history binds.** -/
theorem binds_iff (hn : openAfter 0 as = some n) : (initial.run as).scopes.length = n ∧
    ∀ d name id, Binds as d name id ↔ boundIn (initial.run as).scopes d name = some id := by
  induction as using List.reverseRecOn generalizing n with
  | nil =>
    cases hn
    refine ⟨rfl, fun d name id => ⟨?_, ?_⟩⟩
    · rintro ⟨before, after, m, ⟨a, has, -⟩, -⟩
      cases before <;> cases has
    · rintro ⟨⟩
  | append_singleton as a ih =>
    rw [openAfter_append, Option.bind_eq_some_iff] at hn
    obtain ⟨p, hp, ha⟩ := hn
    obtain ⟨rfl, hbinds⟩ := ih hp
    rw [openAfter_singleton] at ha
    rw [run_concat]
    refine ⟨length_act ha, fun d name id => ?_⟩
    rw [binds_concat hp, boundIn_act ha, hbinds]

/-! ## Scopes that are opened and closed again -/

/-- Names and constructs are found alike in two tables. -/
structure Alike (t t' : ScopeTable) : Prop where
  lookup? : ∀ name, t'.lookup? name = t.lookup? name
  depth : t'.depth = t.depth
  inFunction : t'.inFunction = t.inFunction
  enclosingLoop? : t'.enclosingLoop? = t.enclosingLoop?

theorem Alike.of_scopes (h : t'.scopes = t.scopes) : t.Alike t' :=
  ⟨fun name => by rw [ScopeTable.lookup?, h, ScopeTable.lookup?],
    by rw [ScopeTable.depth, h, ScopeTable.depth], by
    rw [ScopeTable.inFunction, h, ScopeTable.inFunction], by
    rw [ScopeTable.enclosingLoop?, h, ScopeTable.enclosingLoop?]⟩

/-- An action that closes no scope of the outer ones leaves them as they are. -/
theorem act_above {above base : List Scope} (hs : t.scopes = above ++ base)
    (hlength : above.length = n + 1)
    (h : a.open? n = some m) : ∃ above', (t.act a).scopes = above' ++ base ∧
      above'.length = m + 1 := by
  obtain ⟨s, inner, rfl⟩ := List.exists_cons_of_length_eq_add_one hlength
  cases a with
  | enter kind =>
    cases h
    exact ⟨⟨kind, []⟩ :: s :: inner, by rw [act, enter, hs]; rfl, congrArg Nat.succ hlength⟩
  | leave =>
    cases n with
    | zero => cases h
    | succ n =>
      cases h
      exact ⟨inner, by rw [act, leave, hs]; rfl, Nat.succ.inj hlength⟩
  | declare name storage owner =>
    cases h
    rw [act, declare_cons hs]
    by_cases hdup : (s.bindings.lookup name).isSome
    · rw [if_pos hdup]
      exact ⟨_, hs, hlength⟩
    · rw [if_neg hdup]
      exact ⟨_ :: inner, rfl, hlength⟩
  | markClosed id =>
    cases h
    exact ⟨_, hs, hlength⟩

theorem run_above {above base : List Scope} (hs : t.scopes = above ++ base)
    (hlength : above.length = n + 1)
    (h : openAfter n as = some m) : ∃ above', (t.run as).scopes = above' ++ base ∧
      above'.length = m + 1 := by
  induction as generalizing t n above with
  | nil =>
    cases h
    exact ⟨above, hs, hlength⟩
  | cons a as ih =>
    rw [openAfter_cons, Option.bind_eq_some_iff] at h
    obtain ⟨p, ha, h⟩ := h
    obtain ⟨above', hs', hlength'⟩ := act_above hs hlength ha
    exact ih hs' hlength' h

/-- **A scope that is opened and closed again leaves no traces in the scopes**, if what is opened in
it is closed in it. -/
theorem scopes_bracket (h : openAfter 0 as = some 0) (t : ScopeTable) (kind : ScopeKind) :
    (t.run (.enter kind :: as ++ [.leave])).scopes = t.scopes := by
  have hopened : (t.enter kind).scopes = [⟨kind, []⟩] ++ t.scopes := rfl
  obtain ⟨above, hs, hlength⟩ := run_above hopened rfl h
  obtain ⟨s, rfl⟩ := List.length_eq_one_iff.1 hlength
  rw [run_concat]
  exact congrArg List.tail hs

/-! ## Variables -/

theorem varsKept_act (t : ScopeTable) (a : Action) : VarsKept t.vars (t.act a).vars := by
  cases a with
  | enter kind => exact .refl _
  | leave => exact .refl _
  | declare name storage owner =>
    rw [act]
    split
    case h_1 hok => exact (kept_declare hok).vars
    case h_2 => exact .refl _
  | markClosed id => exact (kept_markClosed t id).vars

/-- **Variables stay**: a history can add some and close some, and does nothing else to them. -/
theorem varsKept_run (t : ScopeTable) (as : List Action) : VarsKept t.vars (t.run as).vars := by
  induction as generalizing t with
  | nil => exact .refl _
  | cons a as ih => exact (t.varsKept_act a).trans (ih (t.act a))

theorem declare_eq_ok {storage : Storage} {owner : Option Nat}
    (h : t.declare name storage owner = .ok (id, t')) :
    id = t.vars.size ∧ t'.vars = t.vars.push ⟨name, storage, t.depth, owner⟩ := by
  cases hs : t.scopes with
  | nil =>
    rw [declare_nil hs] at h
    cases h
  | cons s outer =>
    rw [declare_cons hs] at h
    split at h
    · cases h
    · cases h
      exact ⟨rfl, rfl⟩

/-- The variables that a history has got are not natives, and are there. -/
theorem Declared.lt_size {before after : List Action} (h : Declared as before name id after) :
    natives.size ≤ id ∧ id < (initial.run as).vars.size := by
  obtain ⟨_, rfl, storage, owner, t', rfl, hok⟩ := h
  obtain ⟨rfl, hvars⟩ := declare_eq_ok hok
  refine ⟨(varsKept_run initial before).size_le, ?_⟩
  have hrun : initial.run (before ++ .declare name storage owner :: after) = t'.run after := by
    rw [run_append, run, List.foldl_cons, act, hok]
    rfl
  have hlater := (varsKept_run t' after).size_le
  rw [hvars, Array.size_push] at hlater
  rw [hrun]
  exact hlater

end ScopeTable

/-- No two natives have the same name. -/
theorem NativeEntry.slot?_eq_some_iff {name : String} {slot : Nat} :
    slot? name = some slot ↔ ∃ entry, table[slot]? = some entry ∧ entry.name = name := by
  have hall : ∀ i : Fin table.size, slot? table[i].name = some i.val := by decide +kernel
  refine ⟨slot?_spec, ?_⟩
  rintro ⟨entry, hentry, rfl⟩
  obtain ⟨hlt, rfl⟩ := Array.getElem?_eq_some_iff.1 hentry
  exact hall ⟨slot, hlt⟩

namespace ScopeTable

variable {as : List Action} {n k : Nat} {name : String} {id : VarId}

/-- **A name stands for its variable in the innermost open scope that binds it**, or for a
native. -/
theorem lookup?_eq_some_iff (hn : openAfter 0 as = some n) :
    (initial.run as).lookup? name = some id ↔
    (∃ d, Binds as d name id ∧ ∀ d' id', Binds as d' name id' → d' ≤ d) ∨
    (∀ d id', ¬Binds as d name id') ∧ ∃ entry, NativeEntry.table[id]? =
      some entry ∧ entry.name = name := by
  obtain ⟨-, hbinds⟩ := binds_iff hn
  simp only [hbinds]
  rw [lookup?, Option.or_eq_some_iff, findSome?_eq_some_iff, findSome?_eq_none_iff,
    NativeEntry.slot?_eq_some_iff]

/-- **A declaration fails exactly if the innermost scope binds the name.** -/
theorem declare_of_open (hn : openAfter 0 as = some (k + 1)) (name : String) (storage : Storage)
    (owner : Option Nat) :
    ((∃ id, Binds as k name id) ∧ (initial.run as).declare name storage owner =
    .error (.duplicate name)) ∨
    ((∀ id, ¬Binds as k name id) ∧ ∃ t', (initial.run as).declare name storage owner =
      .ok ((initial.run as).vars.size, t')) := by
  obtain ⟨hlength, hbinds⟩ := binds_iff hn
  obtain ⟨s, outer, hs⟩ := List.exists_cons_of_length_eq_add_one hlength
  have hinner : boundIn (initial.run as).scopes k name = s.bindings.lookup name := by
    rw [hs] at hlength ⊢
    exact Nat.succ.inj hlength ▸ boundIn_innermost s outer name
  simp only [hbinds, hinner]
  rw [declare_cons hs]
  cases s.bindings.lookup name with
  | some id => exact .inl ⟨⟨id, rfl⟩, rfl⟩
  | none => exact .inr ⟨nofun, _, rfl⟩

/-! ## Every history -/

/-- **Scopes open and close like brackets.** After every history that closes only scopes that are
open:

* a name stands for its variable in the innermost open scope that binds it, or else for the native
  of that name;
* a scope that is opened and closed again, with all that is opened in it, changes nothing for names
  and constructs;
* with a scope open, a declaration fails exactly if this scope binds the name, and then leaves the
  builder as it is; or else the new variable has the number of those that there are, which no
  declaration has got before and no native has;
* a variable keeps its name, its scope and its owner, and its storage at most becomes the closed
  one. -/
theorem scopes_nest (as : List Action) (n : Nat) (hn : openAfter 0 as = some n) :
    (∀ name id, (initial.run as).lookup? name = some id ↔
      (∃ d, Binds as d name id ∧ ∀ d' id', Binds as d' name id' → d' ≤ d) ∨
      (∀ d id', ¬Binds as d name id') ∧ ∃ entry, NativeEntry.table[id]? =
        some entry ∧ entry.name = name) ∧
    (∀ kind inner, openAfter 0 inner = some 0 →
      (initial.run as).Alike (initial.run (as ++ (.enter kind :: inner ++ [.leave])))) ∧
    (∀ k, n = k + 1 → ∀ (b : Builder) (name : Located String) storage owner, b.scopes =
      initial.run as → ((∃ id, Binds as k name.val id) ∧
        Lower.declareAs name storage owner b =
          .error ⟨name.span, .declare (.duplicate name.val)⟩ b) ∨
      ((∀ id, ¬Binds as k name.val id) ∧
        ∃ t', t' = initial.run (as ++ [.declare name.val storage owner]) ∧
        Lower.declareAs name storage owner b =
        .ok (initial.run as).vars.size { b with scopes := t' } ∧
        t'.vars = (initial.run as).vars.push ⟨name.val, storage, k, owner⟩)) ∧
    (∀ before name id after, Declared as before name id after →
      natives.size ≤ id ∧ id < (initial.run as).vars.size) ∧
    (∀ later, VarsKept (initial.run as).vars (initial.run (as ++ later)).vars) := by
  refine ⟨fun _ _ => lookup?_eq_some_iff hn, fun kind inner hinner => ?_, ?_, fun _ _ _ _ =>
    Declared.lt_size, fun later => ?_⟩
  · rw [run_append]
    exact .of_scopes (scopes_bracket hinner _ kind)
  · rintro k rfl b name storage owner hb
    have hdepth : (initial.run as).depth = k := by
      rw [depth, (binds_iff hn).1]
      omega
    rw [Lower.declareAs_eq, hb]
    obtain ⟨hbound, hrefused⟩ | ⟨hfree, t', hok⟩ := declare_of_open hn name.val storage owner
    · rw [hrefused]
      exact .inl ⟨hbound, rfl⟩
    · rw [hok]
      refine .inr ⟨hfree, t', ?_, rfl, hdepth ▸ (declare_eq_ok hok).2⟩
      rw [run_concat, act, hok]
  · rw [run_append]
    exact varsKept_run _ later

/-- A variable and one of the same name in a function. -/
def shadowing : List Action :=
  [.enter .normal, .declare "x" .globalMutable none, .enter .function,
    .declare "x" .functionMutable (some 0)]

theorem scopes_nest_shadowing :
    (∃ d, Binds shadowing d "x" 12 ∧ ∀ d' id', Binds shadowing d' "x" id' → d' ≤ d) ∧
      (initial.run shadowing).Alike (initial.run (shadowing ++
        [.enter (.loop 0 1), .declare "x" .functionMutable (some 0), .markClosed 11,
          .enter .normal, .leave, .leave])) ∧
      Lower.declareAs ⟨⟨0, 0⟩, "x"⟩ .functionMutable (some 0)
        { Builder.initial with scopes := initial.run shadowing } =
        .error ⟨⟨0, 0⟩, .declare (.duplicate "x")⟩
        { Builder.initial with scopes := initial.run shadowing } := by
  obtain ⟨hlookup, hbracket, hdeclare, -⟩ := scopes_nest shadowing 2 rfl
  refine ⟨?_, hbracket (.loop 0 1) [.declare "x" .functionMutable (some 0), .markClosed 11,
    .enter .normal, .leave] rfl, ?_⟩
  · obtain hbound | ⟨-, entry, hentry, -⟩ := (hlookup "x" 12).1 (by decide +kernel)
    · exact hbound
    · cases hentry
  · obtain ⟨-, hrefused⟩ | ⟨hfree, -⟩ :=
      hdeclare 1 rfl { Builder.initial with scopes := initial.run shadowing } ⟨⟨0, 0⟩,
        "x"⟩ .functionMutable (some 0) rfl
    · exact hrefused
    · -- the variable of the function stands in the innermost scope
      have hgiven : (initial.run (shadowing.take 3)).declare "x" .functionMutable (some 0) =
          .ok (12, initial.run shadowing) := by decide +kernel
      have hinner : Binds shadowing 1 "x" 12 :=
        ⟨shadowing.take 3, [], 0, ⟨.declare "x" .functionMutable (some 0), rfl, _, _,
          _, rfl, hgiven⟩, rfl, rfl⟩
      exact absurd hinner (hfree 12)

end ScopeTable

end Stackscript
