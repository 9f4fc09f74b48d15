import Stackscript.Value.Basic

/-!
# The table of natives

The names that programs find defined, in the order of their slots. A name stands for a native
function or for a number.
-/

namespace Stackscript

/-- An entry of the native table. -/
structure NativeEntry where
  name : String
  value : Value
deriving DecidableEq

namespace NativeEntry

/-- The entry of a native function. -/
def ofNative (f : Native) : NativeEntry := ⟨f.name, .native f⟩

/-- Every entry, in the order of the slots. -/
def table : Array NativeEntry :=
  #[ofNative .print, ofNative .println, ofNative .clock, ⟨"PI", .number Number.pi⟩, ofNative .len,
    ofNative .append, ofNative .includes, ofNative .sqrt, ofNative .floor, ofNative .abs,
    ofNative .pow]

/-- The slot of a name. -/
def slot? (name : String) : Option Nat := table.findIdx? (·.name == name)

end NativeEntry

end Stackscript
