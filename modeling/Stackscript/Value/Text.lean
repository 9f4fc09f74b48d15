import Stackscript.Number.Text
import Stackscript.Text.Quoted
import Stackscript.Value.Basic

/-!
# The texts of values

A value is displayed as programs print it, shown as messages quote it, and inspected in the texts
of faults. Arrays may contain themselves: an array that is met again while it is being written is
abbreviated, so each text is finite.

* `Heap.unopened`, the number of arrays not being written, which falls at every nesting;
* `Heap.write`, `Heap.display`, `Heap.quote`, `Heap.inspect`;
* `Heap.meets`, whether writing a value comes across a given array.
-/

namespace Stackscript.Heap

/-- The number of arrays that are not being written. -/
def unopened (h : Heap) (opened : List Ref) : Nat :=
  ((List.range h.size).filter fun r => decide (r ∉ opened)).length

/-- A filter that keeps less, and drops a member that the other keeps, gives a shorter list. -/
theorem length_filter_lt {l : List Ref} {p q : Ref → Bool} {r : Ref} (hr : r ∈ l)
    (hpq : ∀ x ∈ l, p x = true → q x = true) (hp : p r = false) (hq : q r = true) :
    (l.filter p).length < (l.filter q).length := by
  induction l with
  | nil => simp at hr
  | cons a l ih =>
    have hle := List.countP_mono_left fun x hx => hpq x (List.mem_cons_of_mem a hx)
    simp only [List.countP_eq_length_filter] at hle
    grind

/-- Opening one more array leaves fewer unopened. -/
theorem unopened_cons_lt {h : Heap} {opened : List Ref} {r : Ref} (hr : r ∉ opened)
    (hs : r < h.size) : h.unopened (r :: opened) < h.unopened opened :=
  length_filter_lt (List.mem_range.2 hs) (by simp) (by simp) (by simpa using hr)

/-- The text of a value while the arrays in `opened` are being written. -/
def write (h : Heap) (opened : List Ref) : Value → String
  | .null => "null"
  | .boolean b => if b then "true" else "false"
  | .number n => n.text
  | .string s => s
  | .array r =>
    if hr : r ∈ opened then "[...]"
    else if hs : r < h.size then
      have := unopened_cons_lt hr hs
      let texts := (h.items r).toList.map fun
        | .string s => Text.quoted s
        | v => h.write (r :: opened) v
      "[" ++ ", ".intercalate texts ++ "]"
    else "[]"
  | .function i => "[Function #" ++ toString i ++ "]"
  | .native f => "[Function: " ++ f.name ++ " (native)]"
termination_by h.unopened opened

/-- The text of a value as programs print it. -/
def display (h : Heap) (v : Value) : String := h.write [] v

/-- The text of a value as messages quote it: strings in quotes. -/
def quote (h : Heap) : Value → String
  | .string s => Text.quoted s
  | v => h.display v

/-- Writing a value, while the arrays in `opened` are being written, comes across the array
`target`. -/
def meets (h : Heap) (target : Ref) (opened : List Ref) : Value → Bool
  | .array r =>
    if r = target then true
    else if hr : r ∈ opened then false
    else if hs : r < h.size then
      have := unopened_cons_lt hr hs
      (h.items r).toList.any fun v => h.meets target (r :: opened) v
    else false
  | _ => false
termination_by h.unopened opened

/-- The inspection text of a value while the arrays in `opened` are being written. -/
def inspectIn (h : Heap) (opened : List Ref) : Value → String
  | .null => "Null"
  | .boolean b => "Boolean(" ++ (if b then "true" else "false") ++ ")"
  | .number n => "Number(" ++ n.inspect ++ ")"
  | .string s => "String(" ++ Text.quoted s ++ ")"
  | .array r =>
    if hr : r ∈ opened then "Array(...)"
    else if hs : r < h.size then
      have := unopened_cons_lt hr hs
      let texts := (h.items r).toList.map fun v => h.inspectIn (r :: opened) v
      "Array(RefCell \x7b value: [" ++ ", ".intercalate texts ++ "] \x7d)"
    else "Array(...)"
  | .function i => "Function(" ++ toString i ++ ")"
  | .native f => "Native(NativeFunction(" ++ f.name ++ "/" ++ toString f.arity ++ "))"
termination_by h.unopened opened

/-- The inspection text of a value. -/
def inspect (h : Heap) (v : Value) : String := h.inspectIn [] v

end Stackscript.Heap
