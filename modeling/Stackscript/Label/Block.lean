import Stackscript.Label.Instr

/-!
# Blocks

A block is the body of a function or of the top level: labels in layout order, each with its
instructions. A label name can be reserved before the label itself stands in the block, so that
jumps forward can be written. Starting a label closes the one before it with a jump to the new one,
unless it already ends in an unconditional jump.

What names are counted by is a parameter. A counter of 32 bits starts again at zero behind its last
name; the natural numbers never run out, and lowering counts by them. The two give out the same
names as long as there are fewer than `2 ^ 32`.

* `Label`: `push`, `close`, `isTerminated`;
* `LabelCounter`: `first`, `next`, `name`;
* `Block`: `reserve`, `bind`, `fresh`, `add`, `mapCode`.
-/

namespace Stackscript

/-- A named run of instructions. -/
structure Label where
  id : LabelId
  code : Array Instr
deriving DecidableEq, Inhabited

namespace Label

/-- The label with one more instruction. -/
def push (l : Label) (i : Instr) : Label := { l with code := l.code.push i }

/-- The label closed by a jump to the label `next`, unless it ends in an unconditional jump. -/
def close (next : LabelId) (l : Label) : Label :=
  match l.code.back? with
  | some (.goto _) => l
  | _ => l.push (.goto next)

/-- The label ends in a jump. -/
def isTerminated (l : Label) : Bool := (l.code.back?.bind Instr.jumpTarget?).isSome

end Label

/-- What label names are counted by. -/
class LabelCounter (C : Type) where
  first : C
  next : C → C
  name : C → LabelId

instance : LabelCounter Nat := ⟨0, (· + 1), id⟩

instance : LabelCounter UInt32 := ⟨0, (· + 1), UInt32.toNat⟩

/-- The body of a function or of the top level. -/
structure Block (C : Type := Nat) where
  /-- The labels in layout order. -/
  labels : Array Label
  /-- The next label name. -/
  nextLabel : C
deriving DecidableEq, Inhabited

namespace Block

variable {C : Type}

/-- The number of instructions of all labels. -/
def instructionCount (b : Block C) : Nat := b.labels.foldl (fun n l => n + l.code.size) 0

/-- The block with the code of every label changed by `f`. -/
def mapCode (b : Block C) (f : List Instr → List Instr) : Block C :=
  { b with labels := b.labels.map fun l => { l with code := (f l.code.toList).toArray } }

/-- Starts the label of a given name. -/
def bind (b : Block C) (id : LabelId) : Block C :=
  { b with labels := (b.labels.modify (b.labels.size - 1) (·.close id)).push ⟨id, #[]⟩ }

variable [LabelCounter C]

/-- The block without labels. -/
def empty : Block C := ⟨#[], LabelCounter.first⟩

/-- Reserves a label name. -/
def reserve (b : Block C) : LabelId × Block C :=
  (LabelCounter.name b.nextLabel, { b with nextLabel := LabelCounter.next b.nextLabel })

/-- Starts a label of a new name. -/
def fresh (b : Block C) : LabelId × Block C :=
  let (id, b) := b.reserve
  (id, b.bind id)

/-- Adds an instruction to the last label, starting one if there is none. -/
def add (b : Block C) (i : Instr) : Block C :=
  let b := if b.labels.isEmpty then b.fresh.2 else b
  { b with labels := b.labels.modify (b.labels.size - 1) (·.push i) }

end Block

end Stackscript
