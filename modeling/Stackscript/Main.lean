import Stackscript.CommandLine
import Std.Time.DateTime.Timestamp

/-!
# The program

Reads the command line, the program and the clock, and prints. All else is done by `CommandLine`.

* `main`.
-/

namespace Stackscript

/-- The code is that of an error of the system, which may be given with its sign changed. -/
def isSystemError (code error : UInt32) : Bool := code == error || code == 0 - error

/-- Reads a file. -/
def readProgramFile (name : String) : IO (Except ReadError String) := do
  try
    match String.fromUTF8? (← IO.FS.readBinFile name) with
    | some text => return .ok text
    | none => return .error .notText
  catch
    | .noFileOrDirectory .. => return .error .notFound
    | .permissionDenied .. => return .error .denied
    | .inappropriateType _ code _ =>
      return .error (if isSystemError code 20 then .notDirectory else .isDirectory)
    | .invalidArgument _ code reason =>
      return .error (if isSystemError code 36 then .nameTooLong else .other reason)
    | e => return .error (.other (toString e))

/-- The seconds since the start of 1970. -/
def secondsNow : IO Number := do
  let now ← Std.Time.Timestamp.now
  let nanoseconds := now.toNanosecondsSinceUnixEpoch.val.toNat
  return (Number.ofNat nanoseconds).div (Number.ofNat 1000000000)

/-- Removes the text that a machine has written. -/
def Machine.takeOutput (m : Machine) : String × Machine :=
  (m.core.world.output,
    { m with core := { m.core with world := { m.core.world with output := "" } } })

/-- The number of steps between two looks at the clock. -/
def sliceLength : Nat := 200

/-- Runs a machine slice by slice, printing what it has written after each. -/
partial def runSlices (exe : Executable) (settings : Settings) (m : Machine) : IO Ending := do
  let now ← secondsNow
  let outcome := m.run exe (settings.host (fun _ => now) .accepting) sliceLength
  let (text, m) := outcome.machine.takeOutput
  IO.print text
  match outcome with
  | .outOfFuel _ => runSlices exe settings m
  | _ => return .ofOutcome exe outcome

/-- Carries out a command line. -/
def runCommand (c : CommandLine) : IO Ending := do
  let text ← match c.source with
    | .file name => readProgramFile name
    | .text code => pure (.ok code)
  match text with
  | .error e => return .unreadable e
  | .ok source =>
    let (listings, executable) := c.prepare source
    IO.print listings
    match executable with
    | .error e => return e
    | .ok exe => runSlices exe c.flags.settings (Machine.load exe .empty)

end Stackscript

open Stackscript in
/-- Carries out the arguments and exits with the code of the ending. -/
def main (args : List String) : IO UInt32 := do
  match CommandLine.parse? args with
  | none =>
    IO.eprint CommandLine.usage
    return CommandLine.usageExitCode.toUInt32
  | some c =>
    let e ← runCommand c
    (← IO.getStdout).flush
    IO.eprint (e.errorText c.source)
    return e.exitCode.toUInt32
