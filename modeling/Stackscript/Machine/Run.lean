import Stackscript.Machine.Basic

/-!
# Runs

A run repeats steps until the program ends, fails or comes to a fault. Programs need not end, so a
run takes the number of steps that it may make, and running out of them is an end of its own.

* `Outcome`, `Outcome.machine`, `Machine.finish`, `Machine.run`;
* `Machine.runtimeError`, the report of a failure;
* `Machine.summary`, the state of a machine in one line.
-/

namespace Stackscript

/-- How a run ends. -/
inductive Outcome where
  | finished (m : Machine)
  | failed (e : Failure) (m : Machine)
  | fault (f : Fault) (m : Machine)
  | outOfFuel (m : Machine)
deriving DecidableEq

/-- The machine as a run leaves it. -/
def Outcome.machine : Outcome → Machine
  | .finished m => m
  | .failed _ m => m
  | .fault _ m => m
  | .outOfFuel m => m

namespace Machine

/-- The end of a program that has run to its end: the output is flushed. -/
def finish (host : Host) (m : Machine) : Outcome :=
  match host.sink.refuseFlush m.core.world.output with
  | some reason => .failed (.flush reason) m
  | none => .finished m

/-- Runs a machine for at most `fuel` steps. -/
def run (exe : Executable) (host : Host) : (fuel : Nat) → Machine → Outcome
  | 0, m => .outOfFuel m
  | fuel + 1, m =>
    match m.step exe host with
    | .next m => run exe host fuel m
    | .exit m => m.finish host
    | .failed e m => .failed e m
    | .fault f m => .fault f m

/-- The report of a failure of a machine. -/
def runtimeError (exe : Executable) (m : Machine) (e : Failure) : RuntimeError :=
  .ofFrames (e.message m.core.world.heap) (m.activeNames exe)

/-- The value of the first global with a name. -/
def global? (exe : Executable) (m : Machine) (name : String) : Option Value := do
  let slot ← exe.globals.findIdx? (· == name)
  m.globals[slot]?

/-- The state of a machine in one line. -/
def summary (m : Machine) : String :=
  "VM \x7b ip: " ++ toString m.ip ++ ", frames: " ++ toString m.frames.length ++ ", stack: " ++
    toString m.core.stack.length ++ ", globals: " ++ toString m.globals.size ++
    ", call_stack_bytes: " ++ toString m.charged ++ ", .. \x7d"

end Machine

end Stackscript
