import Stackscript.Proofs.Lists
import Stackscript.Proofs.MachineSteps

/-!
# Functions among values

A value that is a function names it by an index. Operations make no functions; what they give is
another kind of value, or one that was there. So if all functions among the operands, the variables
and the items of arrays are functions of the program, they stay so.

* `Value.Known`, `Heap.Known`, `Core.Known`;
* `Value.binary_cases`, `Value.unary_cases`: what operators give;
* `Effect.Keeps`, and one lemma for each operation on operands.
-/

namespace Stackscript

/-- The value, if it is a function, is one of the first `count`. -/
def Value.Known (count : Nat) : Value → Prop
  | .function index => index < count
  | _ => True

/-- All functions in arrays are known. -/
def Heap.Known (count : Nat) (h : Heap) : Prop := ∀ r, ∀ v ∈ (h.items r).toList, v.Known count

/-- All functions among the operands and in arrays are known. -/
structure Core.Known (count : Nat) (c : Core) : Prop where
  stack : ∀ v ∈ c.stack, v.Known count
  heap : c.world.heap.Known count

/-! ## Operations -/

namespace Value

variable {count : Nat} {x y v : Value}

/-- An operator gives a truth value or a number, or a string for two strings. -/
theorem binary_cases {op : BinaryOperator} (h : x.binary op y = .ok v) :
    (∃ b, v = .boolean b) ∨ (∃ n, v = .number n) ∨ ∃ s t, x = .string s ∧ y = .string t ∧
      v = .string (s ++ t) := by
  have harith : ∀ {op a b}, arithmetic op a b = .ok v → (∃ b, v = .boolean b) ∨
      ∃ n, v = .number n := by
    intro op a b h
    cases op with
    | divide | modulo =>
      simp only [arithmetic] at h
      split at h
      · cases h
      · cases h
        exact .inr ⟨_, rfl⟩
    | add | subtract | multiply =>
      cases h
      exact .inr ⟨_, rfl⟩
    | _ =>
      cases h
      exact .inl ⟨_, rfl⟩
  unfold binary at h
  split at h
  · cases h
    exact .inl ⟨_, rfl⟩
  · cases h
    exact .inl ⟨_, rfl⟩
  · cases h
    exact .inr (.inr ⟨_, _, rfl, rfl, rfl⟩)
  · split at h
    · exact (harith h).imp_right .inl
    · cases h

theorem unary_cases {heap : Heap} {op : UnaryOperator} (h : heap.unary op x = .ok v) :
    (∃ b, v = .boolean b) ∨ ∃ n, v = .number n := by
  unfold Heap.unary at h
  split at h
  · cases h
    exact .inl ⟨_, rfl⟩
  · split at h
    · cases h
      exact .inr ⟨_, rfl⟩
    · cases h

theorem binary_ne_function {op : BinaryOperator} (h : x.binary op y = .ok v) (index : Nat) :
    v ≠ .function index := by
  obtain ⟨_, rfl⟩ | ⟨_, rfl⟩ | ⟨_, _, -, -, rfl⟩ := binary_cases h <;> nofun

theorem unary_ne_function {heap : Heap} {op : UnaryOperator} (h : heap.unary op x = .ok v)
    (index : Nat) : v ≠ .function index := by
  obtain ⟨_, rfl⟩ | ⟨_, rfl⟩ := unary_cases h <;> nofun

theorem known_of_ne (h : ∀ index, v ≠ .function index) : v.Known count := by
  cases v with
  | function index => exact absurd rfl (h index)
  | _ => trivial

end Value

namespace Heap

variable {count : Nat} {h : Heap} {v : Value}

theorem known_empty (count : Nat) : Heap.empty.Known count := by
  intro r v hv
  simp [items, empty] at hv

theorem Known.alloc (hh : h.Known count) {items : List Value}
    (hitems : ∀ v ∈ items, v.Known count) : (h.alloc items.toArray).2.Known count := by
  intro r v hv
  simp only [Heap.alloc, Heap.items, Array.getD_eq_getD_getElem?, Array.getElem?_push] at hv
  split at hv
  · exact hitems v (by simpa using hv)
  · exact hh r v (by simpa [Heap.items, Array.getD_eq_getD_getElem?] using hv)

theorem Known.update (hh : h.Known count) {r : Ref} {f : Array Value → Array Value}
    (hf : ∀ items, (∀ v ∈ items.toList, v.Known count) → ∀ v ∈ (f items).toList, v.Known count) :
    (h.update r f).Known count := by
  intro r' v hv
  simp only [Heap.update, Heap.items, Array.getD_eq_getD_getElem?, Array.getElem?_modify] at hv
  split at hv
  · cases hr : h.arrays[r']? with
    | none => rw [hr] at hv; simp at hv
    | some items =>
      rw [hr] at hv
      refine hf items (fun w hw => hh r' w ?_) v (by simpa using hv)
      simpa [Heap.items, Array.getD_eq_getD_getElem?, hr] using hw
  · exact hh r' v (by simpa [Heap.items, Array.getD_eq_getD_getElem?] using hv)

theorem Known.getD (hh : h.Known count) (r : Ref) (i : Nat) :
    ((h.items r).getD i .null).Known count := by
  rw [Array.getD_eq_getD_getElem?]
  cases hi : (h.items r)[i]? with
  | none => trivial
  | some v => exact hh r v (Array.mem_toList_iff.2 (Array.mem_of_getElem? hi))

theorem Known.getIndex (hh : h.Known count) {target index : Value}
    (hv : h.getIndex target index = .ok v) : v.Known count := by
  cases target with
  | array r =>
    obtain ⟨i, -, hi⟩ := except_bind_eq_ok.1 hv
    cases hi
    exact hh.getD r i
  | string s =>
    obtain ⟨i, -, hi⟩ := except_bind_eq_ok.1 hv
    cases hi
    trivial
  | _ => cases hv

theorem Known.setIndex (hh : h.Known count) {target index value : Value} {h' : Heap}
    (hvalue : value.Known count)
    (hw : h.setIndex target index value = .done h') : h'.Known count := by
  unfold Heap.setIndex at hw
  split at hw
  case h_2 => cases hw
  case h_3 => cases hw
  case h_1 r =>
    split at hw
    case h_2 => split at hw <;> cases hw
    case h_1 i _ =>
      cases hw
      refine hh.update fun items hitems v hv => ?_
      rw [Array.toList_setIfInBounds] at hv
      rcases List.mem_or_eq_of_mem_set hv with hv | rfl
      · exact hitems v hv
      · exact hvalue

end Heap

/-! ## Natives -/

theorem World.heap_emit {w w' : World} {sink : Sink} {text : String}
    (h : w.emit sink text = .ok w') : w'.heap = w.heap := by
  unfold World.emit at h
  split at h
  · cases h; rfl
  · split at h <;> cases h
    rfl

namespace Native

variable {count : Nat} {host : Host} {f : Native} {args : List Value} {w w' : World} {v : Value}

theorem heap_writeAll (sink : Sink) (args : List Value) (w : World) :
    (writeAll sink args w).2.heap = w.heap := by
  induction args generalizing w with
  | nil => rfl
  | cons x args ih =>
    rw [writeAll]
    split
    case h_1 w' hw => rw [ih w', World.heap_emit hw]
    case h_2 => rfl

theorem known_onNumber {g : Number → Number} (h : f.onNumber g args = .ok v) : v.Known count := by
  obtain ⟨x, -, hx⟩ := except_bind_eq_ok.1 h
  cases hx
  trivial

/-- **A native gives no function**, and puts none in an array that it was not given. -/
theorem known_call (h : f.call host args w = (.ok v, w')) (hargs : ∀ x ∈ args, x.Known count)
    (hw : w.heap.Known count) : v.Known count ∧ w'.heap.Known count := by
  cases f with
  | print =>
    have hheap := heap_writeAll host.sink args w
    simp only [call] at h
    split at h <;> cases h
    case h_1 hr => rw [hr] at hheap; exact ⟨trivial, hheap ▸ hw⟩
  | println =>
    have hheap := heap_writeAll host.sink args w
    simp only [call] at h
    split at h
    case h_2 => cases h
    case h_1 w₁ hr =>
      rw [hr] at hheap
      split at h <;> cases h
      case h_1 hemit => exact ⟨trivial, World.heap_emit hemit ▸ hheap ▸ hw⟩
  | clock => cases h; exact ⟨trivial, hw⟩
  | len =>
    simp only [call] at h
    split at h <;> cases h <;> exact ⟨trivial, hw⟩
  | append =>
    simp only [call] at h
    split at h <;> cases h
    case h_1 r x =>
      refine ⟨trivial, hw.update fun items hitems y hy => ?_⟩
      rw [Array.toList_push] at hy
      rcases List.mem_append.1 hy with hy | hy
      · exact hitems y hy
      · exact List.mem_singleton.1 hy ▸ hargs x (by simp)
  | includes =>
    simp only [call] at h
    split at h <;> cases h
    exact ⟨trivial, hw⟩
  | sqrt | floor | abs =>
    obtain ⟨h, rfl⟩ := Prod.ext_iff.1 h
    exact ⟨known_onNumber h, hw⟩
  | pow =>
    obtain ⟨h, rfl⟩ := Prod.ext_iff.1 h
    obtain ⟨x, -, hx⟩ := except_bind_eq_ok.1 h
    obtain ⟨y, -, hy⟩ := except_bind_eq_ok.1 hx
    cases hy
    exact ⟨trivial, hw⟩

end Native

/-! ## Effects -/

/-- What can go wrong with operands that are there: the index of a write shows the array that is
written to, or what should be a function of the program is none. -/
inductive Core.Rare (c : Core) : Fault → Prop where
  | overlap {value index : Value} {r : Ref} {rest : List Value} : c.stack = value :: index ::
      .array r :: rest → c.world.heap.meets r [] index = true → Rare c .overlap
  | notFunction (top : Option Value) : Rare c (.notFunction top)

/-- An effect leaves only functions that are known, or fails, or is one of the rare faults. -/
def Effect.Keeps (count : Nat) (c : Core) : Effect → Prop
  | .done c' => c'.Known count
  | .failed _ _ => True
  | .fault f _ => c.Rare f

namespace Core

variable {count : Nat} {c : Core}

theorem Known.push (h : c.Known count) {v : Value} (hv : v.Known count) : (c.push v).Known count :=
  ⟨List.forall_mem_cons.2 ⟨hv, h.stack⟩, h.heap⟩

theorem Known.pop (h : c.Known count) (hroom : 1 ≤ c.stack.length) : c.pop.Keeps count c := by
  obtain ⟨_ | ⟨x, rest⟩, world⟩ := c
  · cases hroom
  · exact ⟨(List.forall_mem_cons.1 h.stack).2, h.heap⟩

theorem Known.binary (h : c.Known count) (op : BinaryOperator) (hroom : 2 ≤ c.stack.length) :
    (c.binary op).Keeps count c := by
  obtain ⟨_ | ⟨y, _ | ⟨x, rest⟩⟩, world⟩ := c
  · cases hroom
  · simp at hroom
  · simp only [Core.binary]
    split
    case h_2 => trivial
    case h_1 v hv =>
      refine ⟨List.forall_mem_cons.2 ⟨Value.known_of_ne (Value.binary_ne_function hv), ?_⟩, h.heap⟩
      exact fun z hz => h.stack z (by simp [hz])

theorem Known.unary (h : c.Known count) (op : UnaryOperator) (hroom : 1 ≤ c.stack.length) :
    (c.unary op).Keeps count c := by
  obtain ⟨_ | ⟨x, rest⟩, world⟩ := c
  · cases hroom
  · simp only [Core.unary]
    split
    case h_2 => trivial
    case h_1 v hv =>
      refine ⟨List.forall_mem_cons.2 ⟨Value.known_of_ne (Value.unary_ne_function hv), ?_⟩, h.heap⟩
      exact fun z hz => h.stack z (by simp [hz])

theorem exists_splitTop {n : Nat} {stack : List Value} (h : n ≤ stack.length) (above : List Value) :
    ∃ args rest, splitTop n stack above = some (args, rest) := by
  induction n generalizing stack above with
  | zero => exact ⟨above, stack, rfl⟩
  | succ n ih =>
    cases stack with
    | nil => cases h
    | cons x stack => exact ih (Nat.le_of_succ_le_succ h) (x :: above)

theorem Known.split (h : c.Known count) {n : Nat} {args rest : List Value}
    (hs : splitTop n c.stack [] = some (args, rest)) :
    (∀ v ∈ args, v.Known count) ∧ ∀ v ∈ rest, v.Known count := by
  obtain ⟨taken, hstack, -, rfl⟩ := splitTop_eq_some hs
  have hknown := h.stack
  rw [hstack, List.forall_mem_append] at hknown
  exact ⟨fun v hv => hknown.1 v (by simpa using hv), hknown.2⟩

theorem Known.makeArray (h : c.Known count) {n : Nat} (hroom : n ≤ c.stack.length) :
    (c.makeArray n).Keeps count c := by
  obtain ⟨args, rest, hs⟩ := exists_splitTop hroom []
  obtain ⟨hargs, hrest⟩ := h.split hs
  obtain ⟨stack, world⟩ := c
  simp only [Core.makeArray, hs]
  exact ⟨List.forall_mem_cons.2 ⟨trivial, hrest⟩, Heap.Known.alloc h.heap hargs⟩

theorem Known.getIndex (h : c.Known count) (hroom : 2 ≤ c.stack.length) :
    c.getIndex.Keeps count c := by
  obtain ⟨_ | ⟨y, _ | ⟨x, rest⟩⟩, world⟩ := c
  · cases hroom
  · simp at hroom
  · simp only [Core.getIndex]
    split
    case h_2 => trivial
    case h_1 v hv =>
      refine ⟨List.forall_mem_cons.2 ⟨Heap.Known.getIndex h.heap hv, ?_⟩, h.heap⟩
      exact fun z hz => h.stack z (by simp [hz])

theorem Known.setIndex (h : c.Known count) (hroom : 3 ≤ c.stack.length) :
    c.setIndex.Keeps count c := by
  obtain ⟨_ | ⟨z, _ | ⟨y, _ | ⟨x, rest⟩⟩⟩, world⟩ := c
  · cases hroom
  · simp at hroom
  · simp at hroom
  · simp only [Core.setIndex]
    split
    case h_1 heap hw =>
      refine ⟨List.forall_mem_cons.2 ⟨h.stack z (by simp), fun v hv => h.stack v (by simp [hv])⟩,
        ?_⟩
      exact Heap.Known.setIndex h.heap (h.stack z (by simp)) hw
    case h_2 => trivial
    case h_3 hw =>
      -- only an array is written to, and only if the index is refused does the write overlap
      unfold Heap.setIndex at hw
      split at hw
      case h_2 => cases hw
      case h_3 => cases hw
      case h_1 r =>
        split at hw
        case h_1 => cases hw
        case h_2 =>
          split at hw
          case isFalse => cases hw
          case isTrue hmeets => exact .overlap rfl hmeets

theorem Known.callNative (h : c.Known count) (host : Host) (f : Native) {n : Nat}
    (hroom : n ≤ c.stack.length) (c' : Core) : (c.callNative host f n).Keeps count c' := by
  obtain ⟨args, rest, hs⟩ := exists_splitTop hroom []
  obtain ⟨hargs, hrest⟩ := h.split hs
  obtain ⟨stack, world⟩ := c
  simp only [Core.callNative, hs]
  split
  case isTrue => trivial
  case isFalse =>
    split
    case h_2 => trivial
    case h_1 v world' hcall =>
      obtain ⟨hv, hheap⟩ := Native.known_call hcall hargs h.heap
      exact ⟨List.forall_mem_cons.2 ⟨hv, hrest⟩, hheap⟩

theorem Known.makeFunction (h : c.Known count) (n : Nat) : (c.makeFunction n).Keeps count c := by
  unfold Core.makeFunction
  split
  case h_1 => split <;> first | exact h | exact .notFunction _
  case h_2 => exact .notFunction _
  case h_3 => exact .notFunction _

end Core

end Stackscript
