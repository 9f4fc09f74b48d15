import Stackscript.Native.Basic
import Stackscript.Number.Arithmetic

/-!
# Values

The values that programs compute with. Arrays are shared: a value holds only a reference, and what
stands behind it is kept in a `Heap`.

* `Ref`, `Value`, `Value.typeName`, `Value.asNumber?`, `Value.equals`;
* `Heap`: `alloc`, `items`, `replace`, `push`;
* `Heap.truthy`, the truth value of a value.
-/

namespace Stackscript

/-- The identity of an array. -/
abbrev Ref := Nat

/-- A value of the language. -/
inductive Value where
  | null
  | boolean (b : Bool)
  | number (n : Number)
  | string (s : String)
  | array (ref : Ref)
  | function (index : Nat)
  | native (f : Native)
deriving DecidableEq, Inhabited

namespace Value

/-- The name of the kind of a value. -/
def typeName : Value → String
  | .null => "null"
  | .boolean _ => "boolean"
  | .number _ => "number"
  | .string _ => "string"
  | .array _ => "array"
  | .function _ => "function"
  | .native _ => "function"

/-- The number that arithmetic takes a value for: truth values count as one and zero. -/
def asNumber? : Value → Option Number
  | .number n => some n
  | .boolean b => some (if b then Number.one else Number.zero)
  | _ => none

/-- Equality as programs see it: numbers compare numerically, arrays by identity, and values of
different kinds differ. -/
def equals : Value → Value → Bool
  | .null, .null => true
  | .boolean a, .boolean b => a == b
  | .number a, .number b => a.eq b
  | .string a, .string b => a == b
  | .array a, .array b => a == b
  | .function a, .function b => a == b
  | .native f, .native g => f == g
  | _, _ => false

end Value

/-- The arrays of a run, by their references. -/
structure Heap where
  arrays : Array (Array Value)
deriving DecidableEq, Inhabited

namespace Heap

/-- The heap without arrays. -/
def empty : Heap := ⟨#[]⟩

/-- The number of arrays. -/
def size (h : Heap) : Nat := h.arrays.size

/-- The elements of an array; a reference that was never handed out has none. -/
def items (h : Heap) (r : Ref) : Array Value := h.arrays.getD r #[]

/-- A new array with the given elements. -/
def alloc (h : Heap) (elements : Array Value) : Ref × Heap :=
  (h.arrays.size, ⟨h.arrays.push elements⟩)

/-- The heap after `f` has changed the elements of one array. -/
def update (h : Heap) (r : Ref) (f : Array Value → Array Value) : Heap :=
  ⟨h.arrays.modify r f⟩

/-- The heap after the element at `i` of an array has been replaced. -/
def replace (h : Heap) (r : Ref) (i : Nat) (v : Value) : Heap :=
  h.update r (·.setIfInBounds i v)

/-- The heap after a value has been added at the end of an array. -/
def push (h : Heap) (r : Ref) (v : Value) : Heap :=
  h.update r (·.push v)

/-- The truth value of a value: null, false, zero, NaN and everything empty count as false. -/
def truthy (h : Heap) : Value → Bool
  | .null => false
  | .boolean b => b
  | .number n => !n.isNaN && !n.isZero
  | .string s => !s.isEmpty
  | .array r => !(h.items r).isEmpty
  | .function _ => true
  | .native _ => true

end Heap

end Stackscript
