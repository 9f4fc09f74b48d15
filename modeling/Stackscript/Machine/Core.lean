import Stackscript.Machine.Failure

/-!
# Operands and their world

The part of a machine that most instructions work on: the operand stack and the world of arrays and
output. Each instruction that touches nothing else is a function on it.

* `Core`, `Effect`;
* `splitTop`, which takes arguments off the stack;
* `Core.push`, `pop`, `binary`, `unary`, `makeArray`, `getIndex`, `setIndex`, `callNative`,
  `makeFunction`.
-/

namespace Stackscript

/-- The operand stack, top first, and the world of a run. -/
structure Core where
  stack : List Value
  world : World
deriving DecidableEq

/-- What became of an instruction. -/
inductive Effect where
  | done (core : Core)
  | failed (e : Failure) (core : Core)
  | fault (f : Fault) (core : Core)
deriving DecidableEq

/-- The top `n` values of a stack in the order in which they were pushed, put before `above`, and
the stack below them. -/
def splitTop : (n : Nat) → (stack above : List Value) → Option (List Value × List Value)
  | 0, stack, above => some (above, stack)
  | _ + 1, [], _ => none
  | n + 1, v :: stack, above => splitTop n stack (v :: above)

namespace Core

/-- Pushes a value. -/
def push (v : Value) : Core → Core
  | ⟨stack, world⟩ => ⟨v :: stack, world⟩

/-- Discards the top value. -/
def pop : Core → Effect
  | ⟨_ :: rest, world⟩ => .done ⟨rest, world⟩
  | ⟨[], world⟩ => .fault .stackUnderflow ⟨[], world⟩

/-- Replaces two operands by the result of an operator. -/
def binary (op : BinaryOperator) : Core → Effect
  | ⟨right :: left :: rest, world⟩ =>
    match left.binary op right with
    | .ok v => .done ⟨v :: rest, world⟩
    | .error e => .failed (.operation e) ⟨rest, world⟩
  | c => .fault .stackUnderflow c

/-- Replaces an operand by the result of an operator. -/
def unary (op : UnaryOperator) : Core → Effect
  | ⟨value :: rest, world⟩ =>
    match world.heap.unary op value with
    | .ok v => .done ⟨v :: rest, world⟩
    | .error e => .failed (.operation e) ⟨rest, world⟩
  | c => .fault .stackUnderflow c

/-- Replaces `n` values by a new array of them. -/
def makeArray (n : Nat) : Core → Effect
  | ⟨stack, world⟩ =>
    match splitTop n stack [] with
    | none => .fault .stackUnderflow ⟨stack, world⟩
    | some (elements, rest) =>
      let (r, heap) := world.heap.alloc elements.toArray
      .done ⟨.array r :: rest, { world with heap }⟩

/-- Replaces a target and an index by the element. -/
def getIndex : Core → Effect
  | ⟨index :: target :: rest, world⟩ =>
    match world.heap.getIndex target index with
    | .ok v => .done ⟨v :: rest, world⟩
    | .error e => .failed (.operation e) ⟨rest, world⟩
  | c => .fault .stackUnderflow c

/-- Replaces a target, an index and a value by the value, once it is written. -/
def setIndex : Core → Effect
  | ⟨value :: index :: target :: rest, ⟨heap, output, readings⟩⟩ =>
    match heap.setIndex target index value with
    | .done heap => .done ⟨value :: rest, ⟨heap, output, readings⟩⟩
    | .failed e => .failed (.operation e) ⟨rest, ⟨heap, output, readings⟩⟩
    | .overlap => .fault .overlap ⟨rest, ⟨heap, output, readings⟩⟩
  | c => .fault .stackUnderflow c

/-- Calls a native on the top `count` values, the callee having been taken off. The arguments stay
on the stack if the call fails. -/
def callNative (host : Host) (f : Native) (count : Nat) : Core → Effect
  | ⟨stack, world⟩ =>
    if f.arity ≠ count then .failed (.nativeArity count f.arity) ⟨stack, world⟩
    else
      match splitTop count stack [] with
      | none => .fault .stackUnderflow ⟨stack, world⟩
      | some (args, rest) =>
        match f.call host args world with
        | (.ok v, world) => .done ⟨v :: rest, world⟩
        | (.error e, world) => .failed (.native e) ⟨stack, world⟩

/-- Checks that the top value is one of `count` functions of the program. -/
def makeFunction (count : Nat) (c : Core) : Effect :=
  match c.stack with
  | .function i :: _ => if i < count then .done c else .fault (.notFunction (some (.function i))) c
  | top :: _ => .fault (.notFunction (some top)) c
  | [] => .fault (.notFunction none) c

end Core

end Stackscript
