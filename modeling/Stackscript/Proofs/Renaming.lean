import Stackscript.Proofs.Lists
import Stackscript.Value.Operation

/-!
# Renaming of arrays

Two runs may hand out different references for the same arrays. Their values and heaps are the same
up to a renaming, a pairing of references under which paired arrays hold paired elements. What
programs can see does not depend on the references: truth, equality, the results of operations, and
all texts.

* `Renaming`, `Value.Renamed`, `Heap.Renamed`;
* heaps: `Heap.Renamed.alloc`, `Heap.Renamed.allocLeft`, `Heap.Renamed.update`;
* **`Heap.Renamed.opening`**, the induction that writing an array follows, with `write_eq`,
  `meets_eq` and `inspect_eq`;
* operations: `Heap.Renamed.truthy_eq`, `Value.Renamed.equals_eq`, `Heap.Renamed.numeric`,
  `Heap.Renamed.binary`, `Heap.Renamed.unary`, `Heap.Renamed.getIndex`, `Heap.Renamed.setIndex`.
-/

namespace Stackscript

/-- A pairing of the references of two heaps. -/
abbrev Renaming := Ref → Ref → Prop

/-- The renaming pairs whatever another one pairs. -/
def Renaming.Extends (R' R : Renaming) : Prop := ∀ ⦃r r'⦄, R r r' → R' r r'

/-- Two values are the same up to a renaming. -/
inductive Value.Renamed (R : Renaming) : Value → Value → Prop where
  | null : Renamed R .null .null
  | boolean (b : Bool) : Renamed R (.boolean b) (.boolean b)
  | number (n : Number) : Renamed R (.number n) (.number n)
  | string (s : String) : Renamed R (.string s) (.string s)
  | array {r r' : Ref} : R r r' → Renamed R (.array r) (.array r')
  | function (i : Nat) : Renamed R (.function i) (.function i)
  | native (f : Native) : Renamed R (.native f) (.native f)

theorem Value.Renamed.mono {R R' : Renaming} {v v' : Value} (h : v.Renamed R v')
    (hR : R'.Extends R) : v.Renamed R' v' := by
  cases h with
  | array h => exact .array (hR h)
  | null => exact .null
  | boolean b => exact .boolean b
  | number n => exact .number n
  | string s => exact .string s
  | function i => exact .function i
  | native f => exact .native f

/-- What is no array is the same in every renaming. -/
theorem Value.renamed_self {v : Value} (h : ∀ r, v ≠ .array r) (R : Renaming) : v.Renamed R v := by
  cases v with
  | array r => exact absurd rfl (h r)
  | null => exact .null
  | boolean b => exact .boolean b
  | number n => exact .number n
  | string s => exact .string s
  | function i => exact .function i
  | native f => exact .native f

/-- Two heaps are the same up to a renaming, as far as it pairs their references. -/
structure Heap.Renamed (R : Renaming) (h h' : Heap) : Prop where
  lt_size : ∀ {r r'}, R r r' → r < h.size ∧ r' < h'.size
  functional : ∀ {r a b}, R r a → R r b → a = b
  injective : ∀ {r a b}, R a r → R b r → a = b
  items : ∀ {r r'}, R r r' → List.Forall₂ (Value.Renamed R) (h.items r).toList (h'.items r').toList

/-! ## Heaps -/

namespace Heap

@[simp]
theorem size_alloc (h : Heap) (elements : Array Value) :
    (h.alloc elements).2.size = h.size + 1 := by
  simp [alloc, size]

theorem items_alloc_of_lt {h : Heap} {r : Ref} (hr : r < h.size) (elements : Array Value) :
    (h.alloc elements).2.items r = h.items r := by
  have hr' : r < h.arrays.size := hr
  simp [alloc, items, Array.getD_eq_getD_getElem?, Array.getElem?_push, Nat.ne_of_lt hr']

@[simp]
theorem items_alloc_new (h : Heap) (elements : Array Value) :
    (h.alloc elements).2.items h.size = elements := by
  simp [alloc, items, size, Array.getD_eq_getD_getElem?]

@[simp]
theorem size_update (h : Heap) (r : Ref) (f : Array Value → Array Value) :
    (h.update r f).size = h.size := by
  simp [update, size]

theorem items_update_self {h : Heap} {r : Ref} (hr : r < h.size) (f : Array Value → Array Value) :
    (h.update r f).items r = f (h.items r) := by
  have hr' : r < h.arrays.size := hr
  simp only [update, items, Array.getD_eq_getD_getElem?, Array.getElem?_modify, if_true,
    Array.getElem?_eq_getElem hr', Option.map_some, Option.getD_some]

theorem items_update_of_ne {h : Heap} {r s : Ref} (hs : s ≠ r) (f : Array Value → Array Value) :
    (h.update r f).items s = h.items s := by
  simp [update, items, Array.getD_eq_getD_getElem?, Array.getElem?_modify, hs.symm]

namespace Renamed

variable {R : Renaming} {h h' : Heap}

theorem eq_iff (hh : Renamed R h h') {a a' b b' : Ref} (ha : R a a') (hb : R b b') :
    a = b ↔ a' = b' :=
  ⟨fun e => hh.functional ha (e ▸ hb), fun e => hh.injective ha (e ▸ hb)⟩

/-- The renaming that also pairs two new arrays. -/
def extend (R : Renaming) (h h' : Heap) : Renaming := fun r r' => R r r' ∨ r = h.size ∧ r' = h'.size

theorem extend_extends (R : Renaming) (h h' : Heap) : (extend R h h').Extends R :=
  fun _ _ hr => .inl hr

/-- Two heaps stay the same up to renaming when one array of the first, which is paired with
nothing, is paired with a new array of the second. -/
theorem pairNew (hh : Renamed R h h') {r : Ref} (hr : r < h.size) (hfree : ∀ r', ¬ R r r')
    {elements : Array Value}
    (he : List.Forall₂ (Value.Renamed R) (h.items r).toList elements.toList) :
    Renamed (fun a b => R a b ∨ a = r ∧ b = h'.size) h (h'.alloc elements).2 := by
  have hext : Renaming.Extends (fun a b => R a b ∨ a = r ∧ b = h'.size) R := fun _ _ h => .inl h
  refine ⟨?_, ?_, ?_, ?_⟩
  · rintro a b (hab | ⟨rfl, rfl⟩)
    · rw [size_alloc]
      exact ⟨(hh.lt_size hab).1, Nat.lt_succ_of_lt (hh.lt_size hab).2⟩
    · rw [size_alloc]
      exact ⟨hr, Nat.lt_succ_self _⟩
  · rintro c a b (ha | ⟨hc, ha⟩) (hb | ⟨hc', hb⟩)
    · exact hh.functional ha hb
    · exact absurd (hc' ▸ ha) (hfree a)
    · exact absurd (hc ▸ hb) (hfree b)
    · exact ha.trans hb.symm
  · rintro c a b (ha | ⟨ha, hc⟩) (hb | ⟨hb, hc'⟩)
    · exact hh.injective ha hb
    · exact absurd (hh.lt_size ha).2 (hc' ▸ Nat.lt_irrefl _)
    · exact absurd (hh.lt_size hb).2 (hc ▸ Nat.lt_irrefl _)
    · exact ha.trans hb.symm
  · rintro a b (hab | ⟨rfl, rfl⟩)
    · rw [items_alloc_of_lt (hh.lt_size hab).2]
      exact (hh.items hab).imp fun _ _ h => h.mono hext
    · rw [items_alloc_new]
      exact he.imp fun _ _ h => h.mono hext

/-- A new array in the first heap changes nothing. -/
theorem allocLeft (hh : Renamed R h h') (elements : Array Value) :
    Renamed R (h.alloc elements).2 h' where
  lt_size hr := ⟨by rw [size_alloc]; exact Nat.lt_succ_of_lt (hh.lt_size hr).1, (hh.lt_size hr).2⟩
  functional := hh.functional
  injective := hh.injective
  items hr := by
    rw [items_alloc_of_lt (hh.lt_size hr).1]
    exact hh.items hr

/-- **New arrays with the same elements are the same.** -/
theorem alloc (hh : Renamed R h h') {elements elements' : Array Value}
    (he : List.Forall₂ (Value.Renamed R) elements.toList elements'.toList) :
    Renamed (extend R h h') (h.alloc elements).2 (h'.alloc elements').2 := by
  have hfree : ∀ r', ¬ R h.size r' := fun r' hr => Nat.lt_irrefl _ (hh.lt_size hr).1
  exact (hh.allocLeft elements).pairNew (by rw [size_alloc]; exact Nat.lt_succ_self h.size) hfree
    (by rwa [items_alloc_new])

/-- Arrays stay the same when they are changed alike. -/
theorem update (hh : Renamed R h h') {r r' : Ref} (hr : R r r') {f f' : Array Value → Array Value}
    (hf : ∀ {a a' : Array Value}, List.Forall₂ (Value.Renamed R) a.toList a'.toList →
      List.Forall₂ (Value.Renamed R) (f a).toList (f' a').toList) :
    Renamed R (h.update r f) (h'.update r' f') where
  lt_size hs := by
    rw [size_update, size_update]
    exact hh.lt_size hs
  functional := hh.functional
  injective := hh.injective
  items {s s'} hs := by
    by_cases e : s = r
    · subst e
      obtain rfl := hh.functional hr hs
      rw [items_update_self (hh.lt_size hr).1, items_update_self (hh.lt_size hr).2]
      exact hf (hh.items hr)
    · have e' : s' ≠ r' := fun e' => e ((hh.eq_iff hs hr).2 e')
      rw [items_update_of_ne e, items_update_of_ne e']
      exact hh.items hs

theorem replace (hh : Renamed R h h') {r r' : Ref} (hr : R r r') (i : Nat) {v v' : Value}
    (hv : v.Renamed R v') : Renamed R (h.replace r i v) (h'.replace r' i v') := by
  refine hh.update hr fun {a a'} ha => ?_
  rw [Array.toList_setIfInBounds, Array.toList_setIfInBounds]
  rw [List.forall₂_iff_get] at ha ⊢
  refine ⟨by simpa using ha.1, fun n h₁ h₂ => ?_⟩
  simp only [List.get_eq_getElem, List.getElem_set]
  split
  · exact hv
  · exact ha.2 n _ _

theorem push (hh : Renamed R h h') {r r' : Ref} (hr : R r r') {v v' : Value} (hv : v.Renamed R v') :
    Renamed R (h.push r v) (h'.push r' v') := by
  refine hh.update hr fun {a a'} ha => ?_
  rw [Array.toList_push, Array.toList_push]
  exact List.rel_append ha (.cons hv .nil)

theorem size_items (hh : Renamed R h h') {r r' : Ref} (hr : R r r') :
    (h.items r).size = (h'.items r').size := by
  simpa using (hh.items hr).length_eq

theorem truthy_eq (hh : Renamed R h h') {v v' : Value} (hv : v.Renamed R v') :
    h.truthy v = h'.truthy v' := by
  cases hv with
  | array hr => simp only [truthy, Array.isEmpty, hh.size_items hr]
  | _ => rfl

/-! ## Texts -/

/-- The same arrays are being written. -/
def SameOpened (R : Renaming) (opened opened' : List Ref) : Prop :=
  ∀ {r r'}, R r r' → (r ∈ opened ↔ r' ∈ opened')

theorem sameOpened_nil (R : Renaming) : SameOpened R [] [] := fun _ => by simp

theorem sameOpened_cons (hh : Renamed R h h') {opened opened' : List Ref}
    (ho : SameOpened R opened opened')
    {r r' : Ref} (hr : R r r') : SameOpened R (r :: opened) (r' :: opened') := fun hs => by
  rw [List.mem_cons, List.mem_cons, hh.eq_iff hs hr, ho hs]

/-- **The induction that writing a value follows**: an array is opened at most once, so what holds
of a value once it holds of the elements of an array that is opened for it holds of every value. -/
theorem opening (hh : Renamed R h h') {motive : List Ref → List Ref → Value → Value → Prop}
    (step : ∀ {opened opened' v v'}, SameOpened R opened opened' → v.Renamed R v' →
      (∀ {r r'}, v = .array r → v' = .array r' → r ∉ opened →
        ∀ {x x'}, x.Renamed R x' → motive (r :: opened) (r' :: opened') x x') →
      motive opened opened' v v')
    {opened opened' : List Ref} {v v' : Value} (ho : SameOpened R opened opened')
    (hv : v.Renamed R v') : motive opened opened' v v' := by
  induction hn : h.unopened opened using Nat.strongRecOn generalizing opened opened' v v' with
  | ind n ih =>
    refine step ho hv fun {r r'} e e' hr {x x'} hx => ?_
    subst e e'
    cases hv with
    | array hrr =>
      exact ih _ (hn ▸ unopened_cons_lt hr (hh.lt_size hrr).1) (hh.sameOpened_cons ho hrr) hx rfl

theorem write_eq (hh : Renamed R h h') {opened opened' : List Ref} {v v' : Value}
    (ho : SameOpened R opened opened') (hv : v.Renamed R v') :
    h.write opened v = h'.write opened' v' := by
  refine hh.opening (motive := fun o o' v v' => h.write o v = h'.write o' v') ?_ ho hv
  intro opened opened' v v' ho hv ih
  cases hv with
  | @array r r' hr =>
    rw [write, write]
    by_cases hm : r ∈ opened
    · rw [dif_pos hm, dif_pos ((ho hr).1 hm)]
    · rw [dif_neg hm, dif_neg fun hm' => hm ((ho hr).2 hm'), dif_pos (hh.lt_size hr).1,
        dif_pos (hh.lt_size hr).2]
      refine congrArg (fun texts => "[" ++ ", ".intercalate texts ++ "]")
        (map_eq_map_of_forall₂ ((hh.items hr).imp fun x x' hx => ?_))
      have := ih rfl rfl hm hx
      cases hx with
      | string s => rfl
      | _ => exact this
  | _ => simp only [write]

theorem quote_eq (hh : Renamed R h h') {v v' : Value} (hv : v.Renamed R v') :
    h.quote v = h'.quote v' := by
  have := hh.write_eq (sameOpened_nil R) hv
  cases hv with
  | string s => rfl
  | _ => exact this

theorem meets_eq (hh : Renamed R h h') {target target' : Ref} (ht : R target target')
    {opened opened' : List Ref} {v v' : Value} (ho : SameOpened R opened opened')
    (hv : v.Renamed R v') : h.meets target opened v = h'.meets target' opened' v' := by
  refine hh.opening (motive := fun o o' v v' => h.meets target o v =
    h'.meets target' o' v') ?_ ho hv
  intro opened opened' v v' ho hv ih
  cases hv with
  | @array r r' hr =>
    rw [meets, meets]
    by_cases hm : r = target
    · rw [if_pos hm, if_pos ((hh.eq_iff hr ht).1 hm)]
    · rw [if_neg hm, if_neg fun hm' => hm ((hh.eq_iff hr ht).2 hm')]
      by_cases hm : r ∈ opened
      · rw [dif_pos hm, dif_pos ((ho hr).1 hm)]
      · rw [dif_neg hm, dif_neg fun hm' => hm ((ho hr).2 hm'), dif_pos (hh.lt_size hr).1,
          dif_pos (hh.lt_size hr).2]
        exact any_eq_any_of_forall₂ ((hh.items hr).imp fun x x' hx => ih rfl rfl hm hx)
  | _ => simp only [meets]

theorem inspect_eq (hh : Renamed R h h') {v v' : Value} (hv : v.Renamed R v') :
    h.inspect v = h'.inspect v' := by
  refine hh.opening (motive := fun o o' v v' => h.inspectIn o v = h'.inspectIn o' v')
    ?_ (sameOpened_nil R) hv
  intro opened opened' v v' ho hv ih
  cases hv with
  | @array r r' hr =>
    rw [inspectIn, inspectIn]
    by_cases hm : r ∈ opened
    · rw [dif_pos hm, dif_pos ((ho hr).1 hm)]
    · rw [dif_neg hm, dif_neg fun hm' => hm ((ho hr).2 hm'), dif_pos (hh.lt_size hr).1,
        dif_pos (hh.lt_size hr).2]
      exact congrArg (fun texts => "Array(RefCell \x7b value: [" ++ ", ".intercalate texts ++
        "] \x7d)") (map_eq_map_of_forall₂ ((hh.items hr).imp fun x x' hx => ih rfl rfl hm hx))
  | _ => simp only [inspectIn]

end Renamed

end Heap

/-! ## Operations -/

/-- Two results are the same up to renaming; errors have the same wording. -/
inductive ResultsAlike {ε : Type} (R : Renaming) (text text' : ε → String) :
    Except ε Value → Except ε Value → Prop where
  | ok {v v' : Value} : v.Renamed R v' → ResultsAlike R text text' (.ok v) (.ok v')
  | error {e e' : ε} : text e = text' e' → ResultsAlike R text text' (.error e) (.error e')

namespace Heap.Renamed

variable {R : Renaming} {h h' : Heap}

theorem equals_eq (hh : Renamed R h h') {a a' b b' : Value} (ha : a.Renamed R a')
    (hb : b.Renamed R b') : a.equals b = a'.equals b' := by
  cases ha with
  | array ha =>
    cases hb with
    | array hb =>
      simp only [Value.equals]
      rw [Bool.eq_iff_iff, beq_iff_eq, beq_iff_eq]
      exact hh.eq_iff ha hb
    | _ => rfl
  | _ => cases hb <;> rfl

end Heap.Renamed

theorem Value.Renamed.asNumber?_eq {R : Renaming} {v v' : Value} (hv : v.Renamed R v') :
    v.asNumber? = v'.asNumber? := by
  cases hv <;> rfl

/-- What all operators do but the two equalities and the sum of strings. -/
def Value.numeric (op : BinaryOperator) (left right : Value) : Except OperationError Value :=
  match left.asNumber?, right.asNumber? with
  | some a, some b => arithmetic op a b
  | _, _ => .error (.operands op left right)

theorem Value.Renamed.typeName_eq {R : Renaming} {v v' : Value} (hv : v.Renamed R v') :
    v.typeName = v'.typeName := by
  cases hv <;> rfl

namespace Heap.Renamed

variable {R : Renaming} {h h' : Heap}

theorem arithmetic_refl (op : BinaryOperator) (a b : Number) :
    ResultsAlike R (OperationError.message h) (OperationError.message h') (Value.arithmetic op a b)
      (Value.arithmetic op a b) := by
  unfold Value.arithmetic
  cases op <;> simp only
  case divide | modulo =>
    split
    · exact .error rfl
    · exact .ok (.number _)
  case add | subtract | multiply => exact .ok (.number _)
  all_goals exact .ok (.boolean _)

theorem numeric (hh : Renamed R h h') (op : BinaryOperator) {a a' b b' : Value}
    (ha : a.Renamed R a') (hb : b.Renamed R b') :
    ResultsAlike R (OperationError.message h) (OperationError.message h') (a.numeric op b)
      (a'.numeric op b') := by
  have herror : OperationError.message h (.operands op a b) =
      OperationError.message h' (.operands op a' b') :=
    congrArg₂ (fun l r => "Cannot perform binary operation " ++ op.symbol ++ " on values " ++ l ++
      " and " ++ r) (hh.quote_eq ha) (hh.quote_eq hb)
  rw [Value.numeric, Value.numeric, ha.asNumber?_eq, hb.asNumber?_eq]
  cases a'.asNumber? with
  | none => exact .error herror
  | some x =>
    cases b'.asNumber? with
    | none => exact .error herror
    | some y => exact arithmetic_refl op x y

/-- **Operators give the same results.** -/
theorem binary (hh : Renamed R h h') (op : BinaryOperator) {a a' b b' : Value} (ha : a.Renamed R a')
    (hb : b.Renamed R b') :
    ResultsAlike R (OperationError.message h) (OperationError.message h') (a.binary op b)
      (a'.binary op b') := by
  have hnumbers := hh.numeric op ha hb
  cases op with
  | equal =>
    simp only [Value.binary, hh.equals_eq ha hb]
    exact .ok (.boolean _)
  | notEqual =>
    simp only [Value.binary, hh.equals_eq ha hb]
    exact .ok (.boolean _)
  | add =>
    cases ha with
    | string s =>
      cases hb with
      | string t => exact .ok (.string _)
      | _ => exact hnumbers
    | _ => exact hnumbers
  | _ => exact hnumbers

theorem unary (hh : Renamed R h h') (op : UnaryOperator) {v v' : Value} (hv : v.Renamed R v') :
    ResultsAlike R (OperationError.message h) (OperationError.message h')
      (h.unary op v) (h'.unary op v') := by
  cases op with
  | not =>
    simp only [Heap.unary, hh.truthy_eq hv]
    exact .ok (.boolean _)
  | negate =>
    simp only [Heap.unary, hv.asNumber?_eq]
    cases v'.asNumber? with
    | none =>
      exact .error (congrArg (fun q => "Cannot perform unary operation " ++
        UnaryOperator.symbol .negate ++ " on value " ++ q) (hh.quote_eq hv))
    | some n => exact .ok (.number _)

/-- A value names the same position, or the same complaint, in both heaps. -/
theorem toIndex (hh : Renamed R h h') {v v' : Value} (hv : v.Renamed R v') (length : Nat) :
    (∃ i, v.toIndex length = .ok i ∧ v'.toIndex length = .ok i) ∨
      ∃ e e', v.toIndex length = .error e ∧ v'.toIndex length = .error e' ∧
        OperationError.message h e = OperationError.message h' e' := by
  have hkind : OperationError.message h (.indexKind v) =
      OperationError.message h' (.indexKind v') :=
    congrArg ("Index must be a number, got " ++ ·) (hh.quote_eq hv)
  cases hv with
  | number n =>
    cases hi : (Value.number n).toIndex length with
    | ok i => exact .inl ⟨i, rfl, rfl⟩
    | error e =>
      refine .inr ⟨e, e, rfl, rfl, ?_⟩
      simp only [Value.toIndex] at hi
      split at hi
      · split at hi
        · cases hi
        · cases hi; rfl
      · cases hi; rfl
  | _ => exact .inr ⟨_, _, rfl, rfl, hkind⟩

theorem notIndexable_eq (hh : Renamed R h h') {v v' : Value} (hv : v.Renamed R v') :
    OperationError.message h (.notIndexable v) = OperationError.message h' (.notIndexable v') :=
  congrArg₂ (fun kind q => "Cannot index " ++ kind ++ " value " ++
    q) hv.typeName_eq (hh.quote_eq hv)

theorem getIndex (hh : Renamed R h h') {a a' b b' : Value} (ha : a.Renamed R a')
    (hb : b.Renamed R b') :
    ResultsAlike R (OperationError.message h) (OperationError.message h') (h.getIndex a b)
      (h'.getIndex a' b') := by
  have hkind := hh.notIndexable_eq ha
  cases ha with
  | @array r r' hr =>
    simp only [Heap.getIndex]
    obtain ⟨i, hi, hi'⟩ | ⟨e, e', he, he', hm⟩ := hh.toIndex hb (h.items r).size
    · rw [← hh.size_items hr, hi, hi']
      refine .ok ?_
      simp only [Array.getD_eq_getD_getElem?, ← Array.getElem?_toList]
      obtain ⟨hn, hn'⟩ | ⟨x, x', hx, hx', hxx⟩ := getElem?_of_forall₂ (hh.items hr) i
      · rw [hn, hn']
        exact .null
      · rw [hx, hx']
        exact hxx
    · rw [← hh.size_items hr, he, he']
      exact .error hm
  | string s =>
    simp only [Heap.getIndex]
    obtain ⟨i, hi, hi'⟩ | ⟨e, e', he, he', hm⟩ := hh.toIndex hb s.length
    · rw [hi, hi']
      exact .ok (.string _)
    · rw [he, he']
      exact .error hm
  | _ => exact .error hkind

/-- Two writes of an element come to the same. -/
inductive WrittenAlike (R : Renaming) (h h' : Heap) : Written → Written → Prop where
  | done {g g' : Heap} : Renamed R g g' → WrittenAlike R h h' (.done g) (.done g')
  | failed {e e' : OperationError} : OperationError.message h e = OperationError.message h' e' →
      WrittenAlike R h h' (.failed e) (.failed e')
  | overlap : WrittenAlike R h h' .overlap .overlap

theorem setIndex (hh : Renamed R h h') {a a' b b' v v' : Value} (ha : a.Renamed R a')
    (hb : b.Renamed R b')
    (hv : v.Renamed R v') : WrittenAlike R h h' (h.setIndex a b v) (h'.setIndex a' b' v') := by
  have hkind := hh.notIndexable_eq ha
  cases ha with
  | @array r r' hr =>
    simp only [Heap.setIndex]
    obtain ⟨i, hi, hi'⟩ | ⟨e, e', he, he', hm⟩ := hh.toIndex hb (h.items r).size
    · rw [← hh.size_items hr, hi, hi']
      exact .done (hh.replace hr i hv)
    · rw [← hh.size_items hr, he, he', hh.meets_eq hr (sameOpened_nil R) hb]
      simp only
      split
      · exact .overlap
      · exact .failed hm
  | string s => exact .failed rfl
  | _ => exact .failed hkind

end Heap.Renamed

end Stackscript
