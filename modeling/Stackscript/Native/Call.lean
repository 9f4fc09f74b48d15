import Stackscript.Value.Text

/-!
# Calls of natives

A native reads and changes the `World` of a run: its arrays, its output and the number of times the
clock was read. The `Host` supplies what lies outside the program: the clock, the output sink and
the budget for call frames. Two of its failures are left out: the clock always answers, also if it
is set to a time before the one it counts from, and a sink that refuses the text of a value has
taken nothing of it, although an array is written piece by piece.

* `Sink`, `Host`, `World`, `World.emit`;
* `NativeError`, `NativeError.message`;
* `Native.call`.
-/

namespace Stackscript

/-- How an output stream answers, given all that was written to it before. A text is taken as a
whole or refused as a whole. -/
structure Sink where
  /-- The refusal of a write of non-empty text, if it is refused. -/
  refuseWrite : (written text : String) → Option String
  /-- The refusal of the last flush, if it is refused. -/
  refuseFlush : (written : String) → Option String

namespace Sink

/-- The sink that takes everything. -/
def accepting : Sink := ⟨fun _ _ => none, fun _ => none⟩

/-- The sink that refuses every write. -/
def closed (reason : String) : Sink := ⟨fun _ _ => some reason, fun _ => none⟩

/-- The sink that takes every write and refuses to flush. -/
def unflushable (reason : String) : Sink := ⟨fun _ _ => none, fun _ => some reason⟩

end Sink

/-- What lies outside a program: the clock's readings in order, none of which fails, the output
sink, and the number of bytes that call frames may take. -/
structure Host where
  clock : Nat → Number
  sink : Sink
  budget : Nat

/-- What a run changes besides its stack and variables. -/
structure World where
  heap : Heap
  output : String
  readings : Nat
deriving DecidableEq

namespace World

/-- The world before anything has happened. -/
def fresh : World := ⟨.empty, "", 0⟩

/-- The world after a text has been written. Writing nothing always succeeds. -/
def emit (w : World) (sink : Sink) (text : String) : Except String World :=
  if text.isEmpty then .ok w
  else match sink.refuseWrite w.output text with
    | some reason => .error reason
    | none => .ok { w with output := w.output ++ text }

end World

/-- Why a native has no result. -/
inductive NativeError where
  | refused (reason : String)
  | noLength (value : Value)
  | notArray (f : Native) (value : Value)
  /-- The wrong number of arguments for a native that takes two. -/
  | notTwo (f : Native)
  /-- The argument at a position, counted from one, is not a number. -/
  | notNumber (f : Native) (position : Nat) (value : Value)
  /-- The argument at a position, counted from one, is missing. -/
  | missing (f : Native) (position : Nat)
deriving DecidableEq

/-- The wording of a native error; values are quoted as they stand in the heap. -/
def NativeError.message (h : Heap) : NativeError → String
  | .refused reason => reason
  | .noLength v => "len expects an array or string, got " ++ h.quote v
  | .notArray f v => f.name ++ " expects an array, got " ++ h.quote v
  | .notTwo f => f.name ++ " expects 2 arguments"
  | .notNumber f position v =>
    f.name ++ " expects a number as argument " ++ toString position ++ ", got " ++ h.quote v
  | .missing f position => f.name ++ " is missing argument " ++ toString position

namespace Native

/-- The argument at a position, counted from zero, which must be a number. -/
def numberArgument (f : Native) (args : List Value) (i : Nat) : Except NativeError Number :=
  match args[i]? with
  | some (.number n) => .ok n
  | some v => .error (.notNumber f (i + 1) v)
  | none => .error (.missing f (i + 1))

/-- Writes the displayed texts of the arguments one after the other. -/
def writeAll (sink : Sink) : List Value → World → Except NativeError Unit × World
  | [], w => (.ok (), w)
  | v :: vs, w =>
    match w.emit sink (w.heap.display v) with
    | .ok w => writeAll sink vs w
    | .error reason => (.error (.refused reason), w)

/-- A function of numbers, applied to the arguments. -/
def onNumber (f : Native) (g : Number → Number) (args : List Value) : Except NativeError Value :=
  return .number (g (← f.numberArgument args 0))

/-- What a native does with its arguments. -/
def call (host : Host) (f : Native) (args : List Value) (w : World) :
    Except NativeError Value × World :=
  match f with
  | .print =>
    match writeAll host.sink args w with
    | (.ok (), w) => (.ok .null, w)
    | (.error e, w) => (.error e, w)
  | .println =>
    match writeAll host.sink args w with
    | (.ok (), w) =>
      match w.emit host.sink "\n" with
      | .ok w => (.ok .null, w)
      | .error reason => (.error (.refused reason), w)
    | (.error e, w) => (.error e, w)
  | .clock => (.ok (.number (host.clock w.readings)), { w with readings := w.readings + 1 })
  | .len =>
    match args with
    | .array r :: _ => (.ok (.number (Number.ofNat (w.heap.items r).size)), w)
    | .string s :: _ => (.ok (.number (Number.ofNat s.length)), w)
    | v :: _ => (.error (.noLength v), w)
    | [] => (.error (.missing f 1), w)
  | .append =>
    match args with
    | [.array r, v] => (.ok (.array r), { w with heap := w.heap.push r v })
    | [v, _] => (.error (.notArray f v), w)
    | _ => (.error (.notTwo f), w)
  | .includes =>
    match args with
    | [.array r, v] => (.ok (.boolean ((w.heap.items r).any (·.equals v))), w)
    | [v, _] => (.error (.notArray f v), w)
    | _ => (.error (.notTwo f), w)
  | .sqrt => (f.onNumber Number.sqrt args, w)
  | .floor => (f.onNumber Number.floor args, w)
  | .abs => (f.onNumber Number.abs args, w)
  | .pow =>
    (do
      let base ← f.numberArgument args 0
      let exponent ← f.numberArgument args 1
      return .number (base.pow exponent), w)

end Native

end Stackscript
