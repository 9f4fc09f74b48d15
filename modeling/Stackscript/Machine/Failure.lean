import Stackscript.Chunk.Decode
import Stackscript.Native.Call
import Stackscript.Value.Operation

/-!
# How runs go wrong

A program can fail: it divides by zero, calls something that is not a function, uses up the budget
for call frames. A `Failure` is such an end. A `Fault` is an end that correct bytecode never comes
to: an empty operand stack, an unknown opcode, a slot out of range.

* `Failure`, `Failure.message`, `kilobytes`;
* `Fault`, `Fault.message?`;
* `RuntimeError`, a failure with the calls that were active.
-/

namespace Stackscript

/-- Why a program failed. -/
inductive Failure where
  | operation (e : OperationError)
  | native (e : NativeError)
  | nativeArity (given expected : Nat)
  | routineArity (given : Nat) (name : String) (expected : Nat)
  | notCallable (callee : Value)
  /-- The call needs so many bytes for frames, which is over the budget. -/
  | callStack (required budget : Nat)
  | flush (reason : String)
deriving DecidableEq

/-- A number of bytes in kilobytes with two places. Kilobytes are counted by a double, so of large
numbers only the leading bits are seen. -/
def kilobytes (bytes : Nat) : String :=
  let hundredths := roundDiv (Number.nearestNat bytes * 100) 1024
  let places := hundredths % 100
  toString (hundredths / 100) ++ "." ++ (if places < 10 then "0" else "") ++ toString places

/-- The wording of a failure; values are quoted as they stand in the heap. -/
def Failure.message (h : Heap) : Failure → String
  | .operation e => e.message h
  | .native e => e.message h
  | .nativeArity given expected =>
    toString given ++ " argument(s) passed to function expecting " ++ toString expected
  | .routineArity given name expected =>
    toString given ++ " argument(s) passed to function " ++ name ++ " expecting " ++
      toString expected
  | .notCallable callee => "Cannot call non-function value " ++ h.quote callee
  | .callStack required budget =>
    "Stack error: Maximum call stack size exceeded. " ++ kilobytes required ++
      " KB necessary, but maximum is " ++ toString (budget / 1024) ++ " KB"
  | .flush reason => reason

/-- Why bytecode cannot be run further. -/
inductive Fault where
  | decode (f : DecodeFault)
  | stackUnderflow
  /-- A routine went on behind its last instruction. -/
  | ranPastEnd
  | returnAtTop
  | frameVarAtTop
  /-- The top of the stack, if there is one, is not a function of the program. -/
  | notFunction (top : Option Value)
  /-- There is no such constant, global, frame variable, native or routine. -/
  | outOfRange
  /-- A frame would take more bytes than can be counted or addressed. -/
  | frameSize
  /-- An array had to be shown while it was being written to. -/
  | overlap
deriving DecidableEq

/-- The wording of a fault, if it has one. -/
def Fault.message? (h : Heap) : Fault → Option String
  | .decode f => f.message?
  | .stackUnderflow => some "internal error: operand stack underflow"
  | .ranPastEnd => some "internal error: function ran past the end of its chunk"
  | .returnAtTop => some "internal error: return from top-level code"
  | .frameVarAtTop => some "internal error: frame variable outside a call"
  | .notFunction none => some "internal error: MakeFunction on None"
  | .notFunction (some v) =>
    some ("internal error: MakeFunction on Some(" ++ h.inspect v ++ ")")
  | .outOfRange => none
  | .frameSize => none
  | .overlap => none

/-- A failure as it is reported: its wording and the names of the active routines, innermost
first. -/
structure RuntimeError where
  message : String
  trace : List String
  /-- The number of routines left out of the middle of the trace. -/
  omitted : Nat
deriving DecidableEq

namespace RuntimeError

/-- The number of routines kept at each end of a long trace. -/
def edge : Nat := 3

/-- The report of a failure; of a long trace only the two ends are kept. -/
def ofFrames (message : String) (frames : List String) : RuntimeError :=
  if 2 * edge < frames.length then
    ⟨message, frames.take edge ++ frames.drop (frames.length - edge), frames.length - 2 * edge⟩
  else ⟨message, frames, 0⟩

/-- The lines of the trace, with a mark where routines were left out. -/
def traceLines (e : RuntimeError) : List String :=
  let lines := e.trace.map (· ++ "(...)")
  if 0 < e.omitted then lines.take edge ++ "..." :: lines.drop edge else lines

end RuntimeError

end Stackscript
