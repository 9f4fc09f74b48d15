import Stackscript.Label.Fold
import Stackscript.Proofs.LabelMachine
import Stackscript.Proofs.RenamedEffects

/-!
# Constants that are not pushed yet

Folding walks through a label and keeps a list of instructions, newest first. Its newest part, up to
the first instruction that is no constant, is all that later replacements can change; the rest is
done. A run of the unfolded code is ahead of a run of the folded code by just these pending
constants.

* `fold?_append`: folding looks only at the pending constants;
* `Redex`, what one replacement takes away and what it leaves, and **`fold?_eq_some_iff`**;
* **`foldStep_cases`**: what one step of folding does to them;
* `PendingValue`, `Pending`: the values that a run has for the pending constants;
* `PendingValue.realize`: pushing a pending constant later gives the same value;
* `Pending.truthy`, `Pending.foldUnary`, `Pending.foldBinary`: a run computes what folding computes;
* `accesses_foldLabel`, `variables_foldLabel`, `mem_foldLabel`: what folding keeps.
-/

namespace Stackscript

/-! ## Folding looks only at constants -/

theorem Instr.constant?_of_not_isConstant {i : Instr} (h : i.isConstant = false) (heap : Heap) :
    i.constant? heap = none := by
  cases i with
  | makeArray n =>
    have hn : n ≠ 0 := by
      rintro rfl
      cases h
    simp [Instr.constant?, hn]
  | pushTrue | pushFalse | pushNull | number | string | functionRef => cases h
  | _ => rfl

theorem Instr.isSome_constant? {i : Instr} (h : i.isConstant = true) (heap : Heap) :
    (i.constant? heap).isSome = true := by
  cases i with
  | makeArray n =>
    by_cases hn : n = 0
    · subst hn; rfl
    · simp [Instr.isConstant, Instr.truth?, hn] at h
  | pushTrue | pushFalse | pushNull | number | string | functionRef => rfl
  | _ => cases h

theorem Instr.truth?_of_not_isConstant {i : Instr} (h : i.isConstant = false) :
    i.truth? = none := by
  simpa [Instr.isConstant] using h

/-- The newest instruction, if there is one, is no constant. -/
def Settled (kept : List Instr) : Prop := ∀ i, kept.head? = some i → i.isConstant = false

theorem settled_nil : Settled [] := nofun

theorem settled_cons {i : Instr} (h : i.isConstant = false) (kept : List Instr) :
    Settled (i :: kept) := by
  intro j hj
  cases hj
  exact h

theorem foldBinary?_of_left {op : BinaryOperator} {l r : Instr} (h : l.isConstant = false) :
    foldBinary? op l r = none := by
  simp [foldBinary?, Instr.constant?_of_not_isConstant h]

theorem foldBinary?_of_right {op : BinaryOperator} {l r : Instr} (h : r.isConstant = false) :
    foldBinary? op l r = none := by
  simp only [foldBinary?, Instr.constant?_of_not_isConstant h]
  cases l.constant? .empty <;> rfl

theorem foldUnary?_of_not_isConstant {op : UnaryOperator} {i : Instr} (h : i.isConstant = false) :
    foldUnary? op i = none := by
  simp [foldUnary?, Instr.constant?_of_not_isConstant h]

/-- Against settled instructions nothing is folded. -/
theorem fold?_of_settled {done : List Instr} (hd : Settled done) (i : Instr) :
    fold? done i = none := by
  cases done with
  | nil => cases i <;> rfl
  | cons d done =>
    have hc : d.isConstant = false := hd d rfl
    cases i with
    | popJumpIfZero l => simp [fold?, Instr.truth?_of_not_isConstant hc]
    | popJumpIfNonzero l => simp [fold?, Instr.truth?_of_not_isConstant hc]
    | unary op => simp [fold?, foldUnary?_of_not_isConstant hc]
    | pop => simp [fold?, hc]
    | binary op =>
      cases done with
      | nil => rfl
      | cons e done => simp [fold?, foldBinary?_of_right hc]
    | _ => rfl

/-- **Folding looks only at the constants before the settled instructions.** -/
theorem fold?_append {pending done : List Instr} (hd : Settled done) (i : Instr) :
    fold? (pending ++ done) i = (fold? pending i).map (· ++ done) := by
  cases pending with
  | nil =>
    rw [List.nil_append, fold?_of_settled hd, fold?_of_settled settled_nil]
    rfl
  | cons p pending =>
    cases i with
    | popJumpIfZero l =>
      cases ht : p.truth? with
      | none => simp [fold?, ht]
      | some t => cases t <;> simp [fold?, ht]
    | popJumpIfNonzero l =>
      cases ht : p.truth? with
      | none => simp [fold?, ht]
      | some t => cases t <;> simp [fold?, ht]
    | unary op => cases h : foldUnary? op p <;> simp [fold?, h]
    | pop => cases h : p.isConstant <;> simp [fold?, h]
    | binary op =>
      cases pending with
      | nil =>
        cases done with
        | nil => rfl
        | cons d done => simp [fold?, foldBinary?_of_left (hd d rfl)]
      | cons q pending => cases h : foldBinary? op q p <;> simp [fold?, h]
    | _ => rfl

theorem Instr.isConstant_of_ofValue? {v : Value} {i : Instr} (h : Instr.ofValue? v = some i) :
    i.isConstant = true := by
  cases v with
  | boolean b => cases b <;> cases h <;> rfl
  | array | native => cases h
  | _ => cases h; rfl

theorem foldUnary?_eq_some {op : UnaryOperator} {i r : Instr} (h : foldUnary? op i = some r) :
    ∃ v g x, i.constant? .empty = some (v, g) ∧ g.unary op v = .ok x ∧
      Instr.ofValue? x = some r := by
  simp only [foldUnary?, Option.bind_eq_bind, Option.bind_eq_some_iff] at h
  obtain ⟨⟨v, g⟩, hi, h⟩ := h
  cases hx : g.unary op v with
  | ok x => exact ⟨v, g, x, hi, hx, by rwa [hx] at h⟩
  | error e => rw [hx] at h; cases h

theorem foldBinary?_eq_some {op : BinaryOperator} {i j r : Instr}
    (h : foldBinary? op i j = some r) :
    ∃ v g w g' x, i.constant? .empty = some (v, g) ∧ j.constant? g = some (w, g') ∧
      v.binary op w = .ok x ∧ Instr.ofValue? x = some r := by
  simp only [foldBinary?, Option.bind_eq_bind, Option.bind_eq_some_iff] at h
  obtain ⟨⟨v, g⟩, hi, ⟨w, g'⟩, hj, h⟩ := h
  cases hx : v.binary op w with
  | ok x => exact ⟨v, g, w, g', x, hi, hj, hx, by rwa [hx] at h⟩
  | error e => rw [hx] at h; cases h

theorem foldUnary?_isConstant {op : UnaryOperator} {i r : Instr} (h : foldUnary? op i = some r) :
    r.isConstant = true := by
  obtain ⟨_, _, _, -, -, h⟩ := foldUnary?_eq_some h
  exact Instr.isConstant_of_ofValue? h

theorem foldBinary?_isConstant {op : BinaryOperator} {i j r : Instr}
    (h : foldBinary? op i j = some r) : r.isConstant = true := by
  obtain ⟨_, _, _, _, _, -, -, -, h⟩ := foldBinary?_eq_some h
  exact Instr.isConstant_of_ofValue? h

/-- The conditional jump that is taken on values of a truth value. -/
def Instr.jumpIf (wanted : Bool) (target : LabelId) : Instr :=
  if wanted then .popJumpIfNonzero target else .popJumpIfZero target

/-! ## One replacement -/

/-- Constants, oldest first, an instruction behind them that folding replaces together with them,
and what takes their place, if anything does. -/
inductive Redex : List Instr → Instr → Option Instr → Prop where
  | pop {c : Instr} : c.isConstant = true → Redex [c] .pop none
  | stay {c : Instr} (wanted : Bool) (target : LabelId) : c.truth? = some (!wanted) →
      Redex [c] (.jumpIf wanted target) none
  | jump {c : Instr} (wanted : Bool) (target : LabelId) : c.truth? = some wanted →
      Redex [c] (.jumpIf wanted target) (some (.goto target))
  | unary {c r : Instr} {op : UnaryOperator} : foldUnary? op c = some r →
      Redex [c] (.unary op) (some r)
  | binary {c d r : Instr} {op : BinaryOperator} : foldBinary? op c d = some r →
      Redex [c, d] (.binary op) (some r)

/-- A redex is replaced, whatever stands before it. -/
theorem Redex.fold?_eq {used : List Instr} {i : Instr} {new : Option Instr} (h : Redex used i new)
    (rest : List Instr) : fold? (used.reverse ++ rest) i = some (new.toList ++ rest) := by
  cases h with
  | pop hc => simp [fold?, hc]
  | stay wanted target ht => cases wanted <;> simp [fold?, Instr.jumpIf, ht]
  | jump wanted target ht => cases wanted <;> simp [fold?, Instr.jumpIf, ht]
  | unary hr => simp [fold?, hr]
  | binary hr => simp [fold?, hr]

/-- **One replacement** takes away a redex that stands last and leaves what is before it. -/
theorem fold?_eq_some_iff {kept kept' : List Instr} {i : Instr} :
    fold? kept i = some kept' ↔
      ∃ used rest new, kept = used.reverse ++ rest ∧ Redex used i new ∧
        kept' = new.toList ++ rest := by
  constructor
  · intro h
    cases kept with
    | nil =>
      rw [fold?_of_settled settled_nil] at h
      cases h
    | cons c kept =>
      cases i with
      | popJumpIfZero target =>
        obtain ⟨t, ht, rfl⟩ := Option.map_eq_some_iff.1 h
        cases t with
        | true => exact ⟨[c], kept, none, rfl, .stay false target ht, rfl⟩
        | false => exact ⟨[c], kept, _, rfl, .jump false target ht, rfl⟩
      | popJumpIfNonzero target =>
        obtain ⟨t, ht, rfl⟩ := Option.map_eq_some_iff.1 h
        cases t with
        | true => exact ⟨[c], kept, _, rfl, .jump true target ht, rfl⟩
        | false => exact ⟨[c], kept, none, rfl, .stay true target ht, rfl⟩
      | unary op =>
        obtain ⟨r, hr, rfl⟩ := Option.map_eq_some_iff.1 h
        exact ⟨[c], kept, some r, rfl, .unary hr, rfl⟩
      | pop =>
        cases hc : c.isConstant with
        | false => simp [fold?, hc] at h
        | true =>
          simp only [fold?, hc, if_true, Option.some.injEq] at h
          exact ⟨[c], kept, none, rfl, .pop hc, h.symm⟩
      | binary op =>
        cases kept with
        | nil => cases h
        | cons d kept =>
          obtain ⟨r, hr, rfl⟩ := Option.map_eq_some_iff.1 h
          exact ⟨[d, c], kept, some r, rfl, .binary hr, rfl⟩
      | _ => cases h
  · rintro ⟨used, rest, new, rfl, hredex, rfl⟩
    exact hredex.fold?_eq rest

theorem Instr.isConstant_of_truth? {i : Instr} {t : Bool} (h : i.truth? = some t) :
    i.isConstant = true := by
  simp [Instr.isConstant, h]

namespace Redex

variable {used : List Instr} {i : Instr} {new : Option Instr}

theorem isConstant (h : Redex used i new) : ∀ c ∈ used, c.isConstant = true := by
  cases h with
  | pop hc => simpa using hc
  | stay _ _ ht | jump _ _ ht => simpa using Instr.isConstant_of_truth? ht
  | @unary c r op hr =>
    have hc : c.isConstant = true := by
      by_contra hc
      rw [foldUnary?_of_not_isConstant (by simpa using hc)] at hr
      cases hr
    simpa using hc
  | @binary c d r op hr =>
    have hc : c.isConstant = true := by
      by_contra hc
      rw [foldBinary?_of_left (by simpa using hc)] at hr
      cases hr
    have hd : d.isConstant = true := by
      by_contra hd
      rw [foldBinary?_of_right (by simpa using hd)] at hr
      cases hr
    simp [hc, hd]

/-- What takes the place of a redex is a constant, or a jump where the redex had one. -/
theorem new_cases (h : Redex used i new) : ∀ j ∈ new.toList, j.isConstant = true ∨
    ∃ l, i.jumpTarget? = some l ∧ j = .goto l := by
  cases h with
  | pop | stay => nofun
  | jump wanted target =>
    simp only [Option.toList_some, List.mem_singleton, forall_eq]
    exact .inr ⟨target, by cases wanted <;> rfl, rfl⟩
  | unary hr => simp [foldUnary?_isConstant hr]
  | binary hr => simp [foldBinary?_isConstant hr]

end Redex

/-! ## Pending constants -/

/-- A constant is not folded into the ones before it. -/
theorem fold?_of_isConstant {i : Instr} (hi : i.isConstant = true) (kept : List Instr) :
    fold? kept i = none := by
  cases i with
  | popJumpIfZero | popJumpIfNonzero | unary | pop | binary => cases hi
  | _ => rfl

/-- What becomes of an instruction, given the pending constants: the constants that are pending
then, and what is done with, both newest first. -/
inductive FoldCase : List Instr → Instr → List Instr → List Instr → Prop where
  | constant {p : List Instr} {i : Instr} : i.isConstant = true → FoldCase p i (i :: p) []
  | pop {c : Instr} {p : List Instr} : FoldCase (c :: p) .pop p []
  | unary {c r : Instr} {p : List Instr} {op : UnaryOperator} : foldUnary? op c = some r →
      FoldCase (c :: p) (.unary op) (r :: p) []
  | binary {c d r : Instr} {p : List Instr} {op : BinaryOperator} : foldBinary? op d c = some r →
      FoldCase (c :: d :: p) (.binary op) (r :: p) []
  | stay {c : Instr} {p : List Instr} (wanted : Bool) {target : LabelId} : c.truth? =
      some (!wanted) → FoldCase (c :: p) (.jumpIf wanted target) p []
  | jump {c : Instr} {p : List Instr} (wanted : Bool) {target : LabelId} : c.truth? = some wanted →
      FoldCase (c :: p) (.jumpIf wanted target) [] (.goto target :: p)
  | kept {p : List Instr} {i : Instr} : i.isConstant = false → FoldCase p i [] (i :: p)

theorem FoldCase.constants {p p' add : List Instr} {i : Instr} (h : FoldCase p i p' add)
    (hp : ∀ c ∈ p, c.isConstant = true) : ∀ c ∈ p', c.isConstant = true := by
  cases h with
  | constant hi => exact List.forall_mem_cons.2 ⟨hi, hp⟩
  | pop => exact (List.forall_mem_cons.1 hp).2
  | unary hr =>
    exact List.forall_mem_cons.2 ⟨foldUnary?_isConstant hr, (List.forall_mem_cons.1 hp).2⟩
  | binary hr =>
    exact List.forall_mem_cons.2
      ⟨foldBinary?_isConstant hr, (List.forall_mem_cons.1 (List.forall_mem_cons.1 hp).2).2⟩
  | stay => exact (List.forall_mem_cons.1 hp).2
  | jump | kept => exact nofun

theorem FoldCase.settled {p p' add done : List Instr} {i : Instr} (h : FoldCase p i p' add)
    (hd : Settled done) : Settled (add ++ done) := by
  cases h with
  | jump => exact settled_cons rfl _
  | kept hi => exact settled_cons hi _
  | _ => exact hd

/-- **One step of folding.** -/
theorem foldStep_cases {pending done : List Instr} (hd : Settled done) (i : Instr) :
    ∃ pending' add, FoldCase pending i pending' add ∧
      foldStep (pending ++ done) i = pending' ++ (add ++ done) := by
  rw [foldStep, fold?_append hd]
  cases hc : i.isConstant with
  | true =>
    rw [fold?_of_isConstant hc]
    exact ⟨_, _, .constant hc, rfl⟩
  | false =>
    cases hf : fold? pending i with
    | none => exact ⟨_, _, .kept hc, rfl⟩
    | some kept =>
      obtain ⟨used, rest, new, rfl, hredex, rfl⟩ := fold?_eq_some_iff.1 hf
      cases hredex with
      | pop => exact ⟨rest, [], .pop, rfl⟩
      | stay wanted target ht => exact ⟨rest, [], .stay wanted ht, rfl⟩
      | jump wanted target ht => exact ⟨[], .goto target :: rest, .jump wanted ht, rfl⟩
      | @unary c r op hr => exact ⟨r :: rest, [], .unary hr, rfl⟩
      | @binary c d r op hr => exact ⟨r :: rest, [], .binary hr, rfl⟩

theorem takeWhile_isConstant {pending done : List Instr} (hp : ∀ c ∈ pending, c.isConstant = true)
    (hd : Settled done) : (pending ++ done).takeWhile Instr.isConstant = pending := by
  rw [List.takeWhile_append_of_pos hp]
  cases done with
  | nil => simp
  | cons d done => simp [hd d rfl]

theorem dropWhile_isConstant {pending done : List Instr} (hp : ∀ c ∈ pending, c.isConstant = true)
    (hd : Settled done) : (pending ++ done).dropWhile Instr.isConstant = done := by
  rw [List.dropWhile_append_of_pos hp]
  cases done with
  | nil => rfl
  | cons d done => simp [hd d rfl]

/-! ## Values of pending constants -/

/-- The value that an instruction pushes, if it pushes a known value that is no array. -/
def Instr.literal? : Instr → Option Value
  | .pushTrue => some (.boolean true)
  | .pushFalse => some (.boolean false)
  | .pushNull => some .null
  | .number n => some (.number n)
  | .string s => some (.string s)
  | .functionRef i => some (.function i)
  | _ => none

theorem Instr.literal?_of_ofValue? {v : Value} {i : Instr} (h : Instr.ofValue? v = some i) :
    i.literal? = some v := by
  cases v with
  | boolean b => cases b <;> cases h <;> rfl
  | array | native => cases h
  | _ => cases h; rfl

theorem Instr.constant?_of_literal? {i : Instr} {v : Value} (h : i.literal? = some v)
    (heap : Heap) : i.constant? heap = some (v, heap) := by
  cases i <;> cases h <;> rfl

theorem Instr.literal?_ne_array {i : Instr} {r : Ref} : i.literal? ≠ some (.array r) := by
  cases i <;> simp [Instr.literal?]

/-- A literal is the same in every renaming. -/
theorem Instr.literal?_renamed {i : Instr} {v : Value} (h : i.literal? = some v) (R : Renaming) :
    v.Renamed R v :=
  v.renamed_self (fun _ e => Instr.literal?_ne_array (e ▸ h)) R

/-- The value that a run has pushed for a constant. -/
inductive PendingValue (h : Heap) : Instr → Value → Prop where
  | literal {i : Instr} {v : Value} : i.literal? = some v → PendingValue h i v
  | array {r : Ref} : r < h.size → h.items r = #[] → PendingValue h (.makeArray 0) (.array r)

/-- The values that a run has pushed for the pending constants. Their arrays are new: the renaming
does not know them, and no two are the same. -/
inductive Pending (R : Renaming) (h : Heap) : List Instr → List Value → Prop where
  | nil : Pending R h [] []
  | cons {i : Instr} {v : Value} {p : List Instr} {vs : List Value} : PendingValue h i v →
      (∀ r, v = .array r → (∀ r', ¬ R r r') ∧ .array r ∉ vs) → Pending R h p vs →
      Pending R h (i :: p) (v :: vs)

theorem PendingValue.alloc {h : Heap} {i : Instr} {v : Value} (hv : PendingValue h i v)
    (elements : Array Value) : PendingValue (h.alloc elements).2 i v := by
  cases hv with
  | literal hl => exact .literal hl
  | array hr hi =>
    exact .array (by rw [Heap.size_alloc]; exact Nat.lt_succ_of_lt hr)
      (by rw [Heap.items_alloc_of_lt hr, hi])

theorem PendingValue.lt_size {h : Heap} {i : Instr} {r : Ref} (hv : PendingValue h i (.array r)) :
    r < h.size := by
  cases hv with
  | literal hl => exact absurd hl Instr.literal?_ne_array
  | array hr _ => exact hr

theorem Value.Renamed.eq_of_literal? {R : Renaming} {x x' : Value} (h : x.Renamed R x') {i : Instr}
    (hi : i.literal? = some x') : x = x' := by
  cases h with
  | array => exact absurd hi Instr.literal?_ne_array
  | _ => rfl

/-- Nothing is paired between any heap and the empty one. -/
theorem Heap.renamed_empty (h : Heap) : h.Renamed (fun _ _ => False) .empty :=
  ⟨nofun, nofun, nofun, nofun⟩

/-- **A pending constant can be pushed later**: in a heap that is the same up to a renaming that
does not know the value, it pushes the same value. -/
theorem PendingValue.realize {R : Renaming} {h h' : Heap} {i : Instr} {v : Value}
    (hv : PendingValue h i v) (hh : h.Renamed R h') (hfree : ∀ r, v = .array r → ∀ r', ¬ R r r') :
    ∃ v' g R', i.constant? h' = some (v', g) ∧ R'.Extends R ∧ h.Renamed R' g ∧ v.Renamed R' v' ∧
      ∀ r r', R' r r' → R r r' ∨ v = .array r := by
  cases hv with
  | literal hl =>
    exact ⟨v, h', R, Instr.constant?_of_literal? hl h', R.extends_refl, hh,
      Instr.literal?_renamed hl R, fun _ _ hr => .inl hr⟩
  | @array r hr hi =>
    refine ⟨.array h'.size, (h'.alloc #[]).2, fun a b => R a b ∨ a = r ∧ b = h'.size, rfl,
      fun _ _ h => .inl h, ?_, .array (.inr ⟨rfl, rfl⟩), ?_⟩
    · exact hh.pairNew hr (hfree r rfl) (by rw [hi]; exact .nil)
    · rintro a b (hab | ⟨rfl, -⟩)
      · exact .inl hab
      · exact .inr rfl

namespace Pending

variable {R : Renaming} {h : Heap} {p : List Instr} {vs : List Value}

theorem alloc (hp : Pending R h p vs) (elements : Array Value) :
    Pending R (h.alloc elements).2 p vs := by
  induction hp with
  | nil => exact .nil
  | cons hv hfree _ ih => exact .cons (hv.alloc elements) hfree ih

theorem lt_size (hp : Pending R h p vs) {r : Ref} (hr : .array r ∈ vs) : r < h.size := by
  induction hp with
  | nil => cases hr
  | cons hv _ _ ih =>
    rcases List.mem_cons.1 hr with rfl | hr
    · exact hv.lt_size
    · exact ih hr

theorem literal {i : Instr} {v : Value} (hp : Pending R h p vs) (hi : i.literal? = some v) :
    Pending R h (i :: p) (v :: vs) := by
  refine .cons (.literal hi) (fun r e => ?_) hp
  subst e
  exact absurd hi Instr.literal?_ne_array

/-- A run that executes a constant has one more pending. -/
theorem push (hp : Pending R h p vs) {h' : Heap} (hh : h.Renamed R h') {i : Instr} {v : Value}
    {g : Heap}
    (hi : i.constant? h = some (v, g)) : Pending R g (i :: p) (v :: vs) ∧ g.Renamed R h' := by
  have hliteral : i.literal? = some v → g = h →
      Pending R g (i :: p) (v :: vs) ∧ g.Renamed R h' := by
    rintro hl rfl
    exact ⟨hp.literal hl, hh⟩
  cases i with
  | makeArray n =>
    by_cases hn : n = 0
    · subst hn
      cases hi
      refine ⟨.cons (.array ?_ (Heap.items_alloc_new h #[])) ?_ (hp.alloc #[]), hh.allocLeft #[]⟩
      · exact Nat.lt_of_lt_of_eq (Nat.lt_succ_self _) (Heap.size_alloc h #[]).symm
      · rintro r e
        cases e
        exact ⟨fun r' hr => Nat.lt_irrefl _ (hh.lt_size hr).1, fun hr =>
          Nat.lt_irrefl _ (hp.lt_size hr)⟩
    · simp [Instr.constant?, hn] at hi
  | pushTrue | pushFalse | pushNull | number | string | functionRef =>
    cases hi; exact hliteral rfl rfl
  | _ => cases hi

theorem truthy {i : Instr} {v : Value} (hp : Pending R h (i :: p) (v :: vs)) {t : Bool}
    (ht : i.truth? = some t) : h.truthy v = t := by
  cases hp with
  | cons hv _ _ =>
    cases hv with
    | literal hl => cases i <;> cases hl <;> cases ht <;> rfl
    | array _ hi =>
      cases ht
      simp [Heap.truthy, hi]

/-- **Running a unary operator on a pending constant gives what folding gives.** -/
theorem foldUnary {i r : Instr} {v : Value} {op : UnaryOperator}
    (hp : Pending R h (i :: p) (v :: vs))
    (hr : foldUnary? op i = some r) :
    ∃ x, h.unary op v = .ok x ∧ Pending R h (r :: p) (x :: vs) := by
  cases hp with
  | cons hv _ hp =>
    obtain ⟨v', g, R', hc, -, hh, hvv, -⟩ := hv.realize (Heap.renamed_empty h) fun _ _ _ => id
    simp only [foldUnary?, hc, Option.bind_eq_bind, Option.bind_some] at hr
    have hres := hh.unary op hvv
    generalize h.unary op v = res, g.unary op v' = res' at hr hres ⊢
    cases hres with
    | error => cases hr
    | ok hx =>
      have hl := Instr.literal?_of_ofValue? hr
      obtain rfl := hx.eq_of_literal? hl
      exact ⟨_, rfl, hp.literal hl⟩

/-- **Running a binary operator on pending constants gives what folding gives.** -/
theorem foldBinary {i j r : Instr} {v w : Value} {op : BinaryOperator}
    (hp : Pending R h (j :: i :: p) (w :: v :: vs)) (hr : foldBinary? op i j = some r) :
    ∃ x, v.binary op w = .ok x ∧ Pending R h (r :: p) (x :: vs) := by
  cases hp with
  | cons hw hfree hp =>
    cases hp with
    | cons hv _ hp =>
      obtain ⟨v', g, R₁, hc, -, hh, hvv, hR₁⟩ := hv.realize (Heap.renamed_empty h) fun _ _ _ => id
      -- the second array is not the first one, which is all that the renaming knows
      have hfree₁ : ∀ s, w = .array s → ∀ s', ¬ R₁ s s' := by
        intro s hs s' hss
        obtain h | rfl := hR₁ s s' hss
        · exact h
        · exact (hfree s hs).2 (by simp)
      obtain ⟨w', g', R₂, hc', hext, hh', hww, -⟩ := hw.realize hh hfree₁
      simp only [foldBinary?, hc, hc', Option.bind_eq_bind, Option.bind_some] at hr
      have hres := hh'.binary op (hvv.mono hext) hww
      generalize v.binary op w = res, v'.binary op w' = res' at hr hres ⊢
      cases hres with
      | error => cases hr
      | ok hx =>
        have hl := Instr.literal?_of_ofValue? hr
        obtain rfl := hx.eq_of_literal? hl
        exact ⟨_, rfl, hp.literal hl⟩

end Pending

/-! ## What folding keeps -/

/-- The instruction loads or stores a variable. -/
def Instr.isAccess (i : Instr) : Bool := i.mention?.isSome

theorem Instr.isAccess_of_isConstant {i : Instr} (h : i.isConstant = true) :
    i.isAccess = false := by
  cases i with
  | load | store => cases h
  | _ => rfl

theorem Redex.isAccess {used : List Instr} {i : Instr} {new : Option Instr} (h : Redex used i new) :
    i.isAccess = false := by
  cases h with
  | stay wanted | jump wanted => cases wanted <;> rfl
  | _ => rfl

theorem filter_isAccess_of_isConstant {code : List Instr} (h : ∀ c ∈ code, c.isConstant = true) :
    code.filter Instr.isAccess = [] :=
  List.filter_eq_nil_iff.2 fun c hc => by simp [Instr.isAccess_of_isConstant (h c hc)]

/-- What folding an instruction does to the instructions kept so far, whatever it folds. -/
theorem fold?_spec {kept kept' : List Instr} {i : Instr} (h : fold? kept i = some kept') :
    i.isAccess = false ∧ kept'.filter Instr.isAccess = kept.filter Instr.isAccess ∧
      ∀ j ∈ kept', j ∈ kept ∨ j.isConstant = true ∨ ∃ l, i.jumpTarget? = some l ∧ j = .goto l := by
  obtain ⟨used, rest, new, rfl, hredex, rfl⟩ := fold?_eq_some_iff.1 h
  have hused : used.reverse.filter Instr.isAccess = [] :=
    filter_isAccess_of_isConstant fun c hc => hredex.isConstant c (List.mem_reverse.1 hc)
  have hnew : new.toList.filter Instr.isAccess = [] := by
    refine List.filter_eq_nil_iff.2 fun j hj => ?_
    obtain hj | ⟨l, -, rfl⟩ := hredex.new_cases j hj
    · simp [Instr.isAccess_of_isConstant hj]
    · simp [Instr.isAccess, Instr.mention?]
  refine ⟨hredex.isAccess, by rw [List.filter_append, List.filter_append, hused, hnew], fun j hj =>
    ?_⟩
  obtain hj | hj := List.mem_append.1 hj
  · exact .inr (hredex.new_cases j hj)
  · exact .inl (List.mem_append_right _ hj)

theorem foldl_foldStep_spec (code kept : List Instr) :
    (code.foldl foldStep kept).reverse.filter Instr.isAccess =
        kept.reverse.filter Instr.isAccess ++ code.filter Instr.isAccess ∧
      ∀ j ∈ code.foldl foldStep kept, j ∈ kept ∨ j ∈ code ∨ j.isConstant = true ∨
        ∃ i ∈ code, ∃ l, i.jumpTarget? = some l ∧ j = .goto l := by
  induction code generalizing kept with
  | nil => exact ⟨by simp, fun j hj => .inl hj⟩
  | cons i code ih =>
    obtain ⟨hv, hm⟩ := ih (foldStep kept i)
    rw [List.foldl_cons]
    have hstep : foldStep kept i = i :: kept ∨ ∃ kept', fold? kept i = some kept' ∧
        foldStep kept i = kept' := by
      unfold foldStep
      cases fold? kept i with
      | none => exact .inl rfl
      | some kept' => exact .inr ⟨kept', rfl, rfl⟩
    obtain hs | ⟨kept', hf, hs⟩ := hstep
    · refine ⟨?_, fun j hj => ?_⟩
      · rw [hv, hs, List.reverse_cons, List.filter_append, List.append_assoc, ← List.filter_append]
        rfl
      rcases hm j hj with h | h | h | ⟨k, hk, h⟩
      · rw [hs] at h
        rcases List.mem_cons.1 h with rfl | h
        · exact .inr (.inl (by simp))
        · exact .inl h
      · exact .inr (.inl (List.mem_cons_of_mem _ h))
      · exact .inr (.inr (.inl h))
      · exact .inr (.inr (.inr ⟨k, List.mem_cons_of_mem _ hk, h⟩))
    · obtain ⟨hi, hvars, hmem⟩ := fold?_spec hf
      refine ⟨?_, fun j hj => ?_⟩
      · rw [hv, hs, List.filter_reverse, hvars, List.filter_reverse,
          List.filter_cons_of_neg (by simp [hi])]
      · rcases hm j hj with h | h | h | ⟨k, hk, h⟩
        · rw [hs] at h
          rcases hmem j h with h | h | ⟨l, hl, h⟩
          · exact .inl h
          · exact .inr (.inr (.inl h))
          · exact .inr (.inr (.inr ⟨i, by simp, l, hl, h⟩))
        · exact .inr (.inl (List.mem_cons_of_mem _ h))
        · exact .inr (.inr (.inl h))
        · exact .inr (.inr (.inr ⟨k, List.mem_cons_of_mem _ hk, h⟩))

/-- Folding keeps the loads and stores of a label, in order. -/
theorem accesses_foldLabel (code : List Instr) :
    (foldLabel code).filter Instr.isAccess = code.filter Instr.isAccess :=
  (foldl_foldStep_spec code []).1

theorem filterMap_mention?_eq (code : List Instr) :
    code.filterMap Instr.mention? = (code.filter Instr.isAccess).filterMap Instr.mention? := by
  rw [List.filterMap_filter]
  congr 1
  funext i
  unfold Instr.isAccess
  cases i.mention? <;> rfl

/-- Folding keeps the variables that a label names, in order. -/
theorem variables_foldLabel (code : List Instr) :
    (foldLabel code).filterMap Instr.mention? = code.filterMap Instr.mention? := by
  rw [filterMap_mention?_eq, accesses_foldLabel, ← filterMap_mention?_eq]

/-- Whatever stands in a folded label stood there before, or is a constant, or jumps where a jump
led. -/
theorem mem_foldLabel {code : List Instr} {j : Instr} (h : j ∈ foldLabel code) :
    j ∈ code ∨ j.isConstant = true ∨ ∃ i ∈ code, ∃ l, i.jumpTarget? = some l ∧ j = .goto l := by
  rcases (foldl_foldStep_spec code []).2 j (by simpa [foldLabel] using h) with h | h
  · cases h
  · exact h

end Stackscript
