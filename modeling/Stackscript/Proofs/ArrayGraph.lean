import Mathlib.Logic.Relation
import Stackscript.Value.Text

/-!
# Arrays in arrays

Arrays hold references to arrays, and so may hold each other or themselves. A value is written depth
first, and an array that is being written is not entered again. That loses nothing: if an array can
be reached at all, then also on a way that enters no array twice.

* `Heap.Holds`, `Heap.Reaches`, `Heap.OnCycle`;
* `Heap.HoldsOutside`, `Heap.leaves_once`: a way need not come back to its start;
* `Heap.reaches_of_meets`, `Heap.meets_of_way`, **`Heap.meets_iff_reaches`**.
-/

namespace Stackscript

open Relation

namespace Heap

/-- The second array is an item of the first. -/
def Holds (h : Heap) (r r' : Ref) : Prop := .array r' ∈ (h.items r).toList

/-- The value is an array from which another one can be reached through items; it may be the
same. -/
def Reaches (h : Heap) (v : Value) (r : Ref) : Prop := ∃ q, v = .array q ∧ ReflTransGen h.Holds q r

/-- The array can be reached from its own items. -/
def OnCycle (h : Heap) (r : Ref) : Prop := TransGen h.Holds r r

variable {h : Heap} {target : Ref} {opened : List Ref}

theorem items_of_size_le {r : Ref} (hr : h.size ≤ r) : h.items r = #[] := by
  rw [items, Array.getD_eq_getD_getElem?, Array.getElem?_eq_none hr, Option.getD_none]

theorem Holds.lt_size {r r' : Ref} (hr : h.Holds r r') : r < h.size := by
  refine Nat.lt_of_not_le fun hge => ?_
  rw [Holds, items_of_size_le hge] at hr
  cases hr

/-- Writing a value comes only across arrays that can be reached from it. -/
theorem reaches_of_meets {v : Value} (hm : h.meets target opened v = true) :
    h.Reaches v target := by
  fun_induction Heap.meets h target opened v with
  | case1 => exact ⟨_, rfl, .refl⟩
  | case3 opened r _ _ _ _ ih =>
    obtain ⟨x, hx, hmeets⟩ := List.any_eq_true.1 hm
    obtain ⟨q, rfl, hq⟩ := ih x hmeets
    exact ⟨r, rfl, .head hx hq⟩
  | _ => cases hm

/-! ## Ways that enter no array twice -/

/-- The second array is an item of the first, which is not one of those that are being written. -/
def HoldsOutside (h : Heap) (opened : List Ref) (r r' : Ref) : Prop := r ∉ opened ∧ h.Holds r r'

/-- **A way need not come back to its start**: from some item of the array the target is reached
without it. -/
theorem leaves_once {r : Ref} (hway : ReflTransGen (h.HoldsOutside opened) r target)
    (hne : r ≠ target) :
    r ∉ opened ∧ ∃ q, h.Holds r q ∧ ReflTransGen (h.HoldsOutside (r :: opened)) q target := by
  -- from every point of the way: either the rest of it avoids `r`, or `r` is left once more, for
  -- the last time
  have hrest : ∀ {x}, ReflTransGen (h.HoldsOutside opened) x target →
      ReflTransGen (h.HoldsOutside (r :: opened)) x target ∨
        r ∉ opened ∧ ∃ q, h.Holds r q ∧ ReflTransGen (h.HoldsOutside (r :: opened)) q target := by
    intro x hx
    induction hx using ReflTransGen.head_induction_on with
    | refl => exact .inl .refl
    | @head x y hxy _ ih =>
      obtain havoid | hleft := ih
      · by_cases hxr : x = r
        · subst hxr
          exact .inr ⟨hxy.1, y, hxy.2, havoid⟩
        · exact .inl (.head ⟨by simp [hxr, hxy.1], hxy.2⟩ havoid)
      · exact .inr hleft
  obtain havoid | hleft := hrest hway
  · obtain heq | ⟨q, hq, -⟩ := havoid.cases_head
    · exact absurd heq hne
    · exact absurd List.mem_cons_self hq.1
  · exact hleft

/-- Writing an array comes across all that is reached without those that are being written. -/
theorem meets_of_way {r : Ref} (hway : ReflTransGen (h.HoldsOutside opened) r target) :
    h.meets target opened (.array r) = true := by
  induction hn : h.unopened opened using Nat.strongRecOn generalizing opened r with
  | ind n ih =>
    rw [meets]
    by_cases hr : r = target
    · rw [if_pos hr]
    · obtain ⟨hout, q, hq, hrest⟩ := leaves_once hway hr
      rw [if_neg hr, dif_neg hout, dif_pos hq.lt_size]
      exact List.any_eq_true.2 ⟨_, hq, ih _ (hn ▸ unopened_cons_lt hout hq.lt_size) hrest rfl⟩

/-- **Writing a value comes across exactly the arrays that can be reached from it.** -/
theorem meets_iff_reaches {v : Value} : h.meets target [] v = true ↔ h.Reaches v target := by
  refine ⟨reaches_of_meets, ?_⟩
  rintro ⟨q, rfl, hq⟩
  exact meets_of_way (ReflTransGen.mono (fun _ _ hr => ⟨List.not_mem_nil, hr⟩) _ _ hq)

end Heap

end Stackscript
