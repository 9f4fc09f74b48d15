import Stackscript.Machine.Core
import Stackscript.Proofs.Renaming
import Stackscript.Proofs.Rendering

/-!
# Reading and writing elements

The message about a wrong index shows the index, and it is made while the array is being written to.
So a write at an index that is an array fails in one of two ways: with a message, or with none at
all if the message would have to show the array that is being written to. Which of the two is a
matter of what can be reached from the index.

* `Value.Indexes`, the values that are indices, with `Value.toIndex_eq_ok`;
* `Heap.Replaced`: one element is another one and nothing else has changed, with
  `Heap.replaced_replace`;
* `Heap.setIndex_eq_done`, `Heap.setIndex_eq_overlap`, `Heap.getIndex_of_replaced`;
* **`Core.setIndex_fault_iff_reaches`**.
-/

namespace Stackscript

/-! ## Indices -/

namespace Value

/-- The value names a position in a sequence of the given length: it is a natural number below the
length. -/
def Indexes (index : Value) (length i : Nat) : Prop :=
  ∃ n, index = .number n ∧ n.toNat? = some i ∧ i < length

theorem toIndex_eq_ok {index : Value} {length i : Nat} : index.toIndex length = .ok i ↔
    index.Indexes length i := by
  cases index with
  | number n =>
    rw [toIndex]
    constructor
    · intro h
      split at h
      case h_1 j hj =>
        split at h
        case isTrue hlt =>
          cases h
          exact ⟨n, rfl, hj, hlt⟩
        case isFalse => cases h
      case h_2 => cases h
    · rintro ⟨_, ⟨⟩, hi, hlt⟩
      simp only [hi, if_pos hlt]
  | _ =>
    constructor
    · rintro ⟨⟩
    · rintro ⟨_, ⟨⟩, -⟩

theorem Indexes.lt {index : Value} {length i : Nat} (h : index.Indexes length i) : i < length := by
  obtain ⟨_, _, _, hlt⟩ := h
  exact hlt

/-- What another array can be reached from is an array itself, and no index. -/
theorem toIndex_of_reaches {h : Heap} {index : Value} {r : Ref} (hr : h.Reaches index r)
    (length : Nat) : index.toIndex length = .error (.indexKind index) := by
  obtain ⟨q, rfl, -⟩ := hr
  rfl

end Value

/-! ## One element of one array -/

namespace Heap

/-- **One element has been replaced**, and nothing else has changed: not the length of the array or
another element of it, and no other array. -/
structure Replaced (h : Heap) (r : Ref) (i : Nat) (v : Value) (h' : Heap) : Prop where
  element : (h'.items r)[i]? = some v
  length : (h'.items r).size = (h.items r).size
  elements : ∀ j, j ≠ i → (h'.items r)[j]? = (h.items r)[j]?
  arrays : ∀ q, q ≠ r → h'.items q = h.items q
  size : h'.size = h.size

variable {h h' : Heap} {r : Ref} {i : Nat} {target index value : Value}

theorem replaced_replace (hi : i < (h.items r).size) :
    h.Replaced r i value (h.replace r i value) := by
  -- an array with elements is one of the heap
  have hr : r < h.size := by
    refine Nat.lt_of_not_le fun hge => ?_
    rw [items_of_size_le hge] at hi
    exact Nat.not_lt_zero _ hi
  have hitems : (h.replace r i value).items r = (h.items r).setIfInBounds i value :=
    items_update_self hr _
  refine ⟨?_, ?_, fun j hj => ?_, fun q hq => items_update_of_ne hq _, size_update h r _⟩
  · rw [hitems, Array.getElem?_setIfInBounds_self_of_lt hi]
  · rw [hitems, Array.size_setIfInBounds]
  · rw [hitems, Array.getElem?_setIfInBounds_ne (Ne.symm hj)]

theorem setIndex_array : h.setIndex (.array r) index value = .done h' ↔
    ∃ i, index.Indexes (h.items r).size i ∧ h' = h.replace r i value := by
  simp only [setIndex, ← Value.toIndex_eq_ok]
  cases index.toIndex (h.items r).size with
  | ok i =>
    constructor
    · rintro ⟨⟩
      exact ⟨i, rfl, rfl⟩
    · rintro ⟨_, ⟨⟩, rfl⟩
      rfl
  | error e =>
    constructor
    · intro hw
      dsimp only at hw
      split at hw <;> cases hw
    · rintro ⟨_, ⟨⟩, -⟩

theorem setIndex_eq_done : h.setIndex target index value = .done h' ↔
    ∃ r i, target = .array r ∧ index.Indexes (h.items r).size i ∧ h' = h.replace r i value := by
  cases target with
  | array r =>
    rw [setIndex_array]
    constructor
    · rintro ⟨i, hi⟩
      exact ⟨r, i, rfl, hi⟩
    · rintro ⟨_, i, ⟨⟩, hi⟩
      exact ⟨i, hi⟩
  | _ =>
    constructor
    · rintro ⟨⟩
    · rintro ⟨_, _, ⟨⟩, -⟩

theorem setIndex_eq_overlap : h.setIndex target index value = .overlap ↔
    ∃ r, target = .array r ∧ h.Reaches index r := by
  constructor
  · intro hw
    cases target with
    | array r =>
      rw [setIndex] at hw
      split at hw
      · cases hw
      · split at hw
        case isTrue hm => exact ⟨r, rfl, reaches_of_meets hm⟩
        case isFalse => cases hw
    | _ => cases hw
  · rintro ⟨r, rfl, hr⟩
    -- the index is an array, so the write is refused, and the message about it comes across the
    -- target
    simp only [setIndex, Value.toIndex_of_reaches hr, if_pos (meets_iff_reaches.2 hr)]

/-- An element that has been written is read back. -/
theorem getIndex_of_replaced (hw : h.Replaced r i value h')
    (hi : index.Indexes (h.items r).size i) : h'.getIndex (.array r) index = .ok value := by
  rw [← hw.length, ← Value.toIndex_eq_ok] at hi
  simp only [getIndex, hi, bind, Except.bind, pure, Except.pure, Array.getD_eq_getD_getElem?,
    hw.element, Option.getD_some]

end Heap

/-! ## On the stack -/

namespace Core

/-- A stack with the operands of a write on it. -/
def toWrite (target index value : Value) (rest : List Value) (world : World) : Core :=
  ⟨value :: index :: target :: rest, world⟩

/-- A stack with the operands of a read on it. -/
def toRead (target index : Value) (rest : List Value) (world : World) : Core :=
  ⟨index :: target :: rest, world⟩

variable {target index value : Value} {rest : List Value} {world : World}

theorem setIndex_toWrite : (toWrite target index value rest world).setIndex =
    match world.heap.setIndex target index value with
    | .done heap => .done ⟨value :: rest, { world with heap }⟩
    | .failed e => .failed (.operation e) ⟨rest, world⟩
    | .overlap => .fault .overlap ⟨rest, world⟩ := by
  cases world
  rfl

theorem getIndex_toRead : (toRead target index rest world).getIndex =
    match world.heap.getIndex target index with
    | .ok v => .done ⟨v :: rest, world⟩
    | .error e => .failed (.operation e) ⟨rest, world⟩ :=
  rfl

theorem setIndex_faults_iff :
    (∃ f c, (toWrite target index value rest world).setIndex = .fault f c) ↔
    world.heap.setIndex target index value = .overlap := by
  rw [setIndex_toWrite]
  cases world.heap.setIndex target index value <;> simp

theorem setIndex_eq_done_iff {c : Core} :
    (toWrite target index value rest world).setIndex = .done c ↔
    ∃ heap, world.heap.setIndex target index value = .done heap ∧
      c = ⟨value :: rest, { world with heap }⟩ := by
  rw [setIndex_toWrite]
  cases world.heap.setIndex target index value <;> simp [eq_comm]

/-- **Which writes fail and which have no outcome.** There is none exactly if the target is an array
that can be reached from the index, that is, if writing out the index begins the target. A write
that fails changes nothing. A write succeeds exactly if the target is an array and the index a
position in it. Then the element has been replaced, and reading it gives the value. Reading always
has an outcome and changes nothing. -/
theorem setIndex_fault_iff_reaches (target index value : Value) (rest : List Value)
    (world : World) :
    ((∃ f c, (toWrite target index value rest world).setIndex = .fault f c) ↔
        ∃ r, target = .array r ∧ world.heap.Reaches index r) ∧
      ((∃ f c, (toWrite target index value rest world).setIndex = .fault f c) ↔
        ∃ r, target = .array r ∧ .start r ∈ world.heap.marks [] index) ∧
      (∀ e c, (toWrite target index value rest world).setIndex = .failed e c → c = ⟨rest, world⟩) ∧
      ((∃ c, (toWrite target index value rest world).setIndex = .done c) ↔
        ∃ r i, target = .array r ∧ index.Indexes (world.heap.items r).size i) ∧
      (∀ c, (toWrite target index value rest world).setIndex = .done c → ∃ r i heap,
        target = .array r ∧ index.Indexes (world.heap.items r).size i ∧
        world.heap.Replaced r i value heap ∧
        c = ⟨value :: rest, { world with heap }⟩ ∧
          (toRead target index rest c.world).getIndex = .done c) ∧
      (∃ c, c.world = world ∧ ((toRead target index rest world).getIndex = .done c ∨
        ∃ e, (toRead target index rest world).getIndex = .failed e c)) := by
  refine ⟨setIndex_faults_iff.trans Heap.setIndex_eq_overlap, ?_, ?_, ?_, ?_, ?_⟩
  · rw [setIndex_faults_iff, Heap.setIndex_eq_overlap]
    refine exists_congr fun r => and_congr_right fun _ => ?_
    rw [Heap.start_mem_marks List.not_mem_nil, Heap.meets_iff_reaches]
  · intro e c hw
    rw [setIndex_toWrite] at hw
    split at hw <;> cases hw
    rfl
  · simp only [setIndex_eq_done_iff, Heap.setIndex_eq_done]
    constructor
    · rintro ⟨c, _, ⟨r, i, htarget, hi, -⟩, -⟩
      exact ⟨r, i, htarget, hi⟩
    · rintro ⟨r, i, htarget, hi⟩
      exact ⟨_, _, ⟨r, i, htarget, hi, rfl⟩, rfl⟩
  · intro c hw
    obtain ⟨heap, hheap, rfl⟩ := setIndex_eq_done_iff.1 hw
    obtain ⟨r, i, rfl, hi, rfl⟩ := Heap.setIndex_eq_done.1 hheap
    have hreplaced : world.heap.Replaced r i value (world.heap.replace r i value) :=
      Heap.replaced_replace hi.lt
    refine ⟨r, i, _, rfl, hi, hreplaced, rfl, ?_⟩
    rw [getIndex_toRead, Heap.getIndex_of_replaced hreplaced hi]
  · rw [getIndex_toRead]
    cases world.heap.getIndex target index with
    | ok v => exact ⟨_, rfl, .inl rfl⟩
    | error e => exact ⟨_, rfl, .inr ⟨_, rfl⟩⟩

/-- Three arrays, of which the second holds the first. -/
def nested : World := ⟨⟨#[#[.null, .null], #[.array 0], #[]]⟩, "", 0⟩

theorem setIndex_fault_iff_reaches_nested :
    (∃ f c, (toWrite (.array 0) (.array 1) .null [] nested).setIndex = .fault f c) ∧
      ¬(∃ f c, (toWrite (.array 0) (.array 2) .null [] nested).setIndex = .fault f c) ∧
      ∃ c, (toWrite (.array 0) (.number .one) (.array 1) [] nested).setIndex = .done c ∧
        (toRead (.array 0) (.number .one) [] c.world).getIndex = .done c := by
  obtain ⟨hfault, -⟩ := setIndex_fault_iff_reaches (.array 0) (.array 1) .null [] nested
  obtain ⟨hfault', -⟩ := setIndex_fault_iff_reaches (.array 0) (.array 2) .null [] nested
  obtain ⟨-, -, -, hdone, hread, -⟩ :=
    setIndex_fault_iff_reaches (.array 0) (.number .one) (.array 1) [] nested
  have hholds : nested.heap.Holds 1 0 := by simp [Heap.Holds, nested, Heap.items]
  have hempty : ∀ q, ¬nested.heap.Holds 2 q := by simp [Heap.Holds, nested, Heap.items]
  refine ⟨hfault.2 ⟨0, rfl, 1, rfl, .single hholds⟩, ?_, ?_⟩
  · rw [hfault']
    rintro ⟨_, ⟨⟩, _, ⟨⟩, hway⟩
    obtain heq | ⟨q, hq, -⟩ := hway.cases_head
    · cases heq
    · exact hempty q hq
  · obtain ⟨c, hc⟩ := hdone.2 ⟨0, 1, rfl, .one, rfl, by decide +kernel, by decide⟩
    obtain ⟨_, _, _, -, -, -, -, hback⟩ := hread c hc
    exact ⟨c, hc, hback⟩

end Core

end Stackscript
