import Stackscript.Chunk.Decode
import Stackscript.Value.Text

/-!
# Executables

What the stack machine runs: the chunk of the top level, the routines compiled from function
declarations, the constant pool and the names of the globals by slot.

* `Routine`, `Executable`;
* `Executable.listing`, the text of an executable.
-/

namespace Stackscript

/-- A function of the program in bytecode. -/
structure Routine where
  name : String
  chunk : Chunk
  /-- The number of arguments that a call passes. -/
  arity : Nat
  /-- The number of variables of a call, parameters included. -/
  locals : Nat
deriving DecidableEq, Inhabited

/-- A program in bytecode. -/
structure Executable where
  main : Chunk
  routines : Array Routine
  constants : Array Value
  /-- The names of the globals, by slot. -/
  globals : Array String
deriving DecidableEq, Inhabited

namespace Executable

/-- The heading of the chunk of a routine. -/
def routineHeading (index : Nat) (r : Routine) : String :=
  "== function #" ++ toString index ++ " " ++ r.name ++ " (arity " ++ toString r.arity ++
    ", locals " ++ toString r.locals ++ ", " ++ toString r.chunk.size ++ " bytes) ==\n"

/-- The listings of routines, numbered from `index`. -/
def routineListings (index : Nat) : List Routine → Except DecodeFault String
  | [] => .ok ""
  | r :: rs => do
    let code ← r.chunk.listing
    let rest ← routineListings (index + 1) rs
    return routineHeading index r ++ code ++ rest

/-- Numbered lines of a section. -/
def numberedLines (texts : List String) : String :=
  String.join (texts.zipIdx.map fun (text, i) => column i ++ "  " ++ text ++ "\n")

/-- The listing of an executable; constants are quoted as they stand in the heap. -/
def listing (exe : Executable) (h : Heap) : Except DecodeFault String := do
  let main ← exe.main.listing
  let routines ← routineListings 0 exe.routines.toList
  return "== main (" ++ toString exe.main.size ++ " bytes) ==\n" ++ main ++ routines ++
    "== constants ==\n" ++ numberedLines (exe.constants.toList.map h.quote) ++
    "== globals ==\n" ++ numberedLines exe.globals.toList

end Executable

end Stackscript
