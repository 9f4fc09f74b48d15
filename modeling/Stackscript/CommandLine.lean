import Stackscript.Session

/-!
# The command line

A command line names a program, as a file or as text, and may carry flags before and after it. The
listings that it asks for are printed first, then the program is run.

* `ProgramSource`, `Flags`, `CommandLine`, `CommandLine.parse?`;
* `CommandLine.prepare`, the listings and the executable;
* `Ending.errorText`, `Response`, `CommandLine.respond`.
-/

namespace Stackscript

/-- Where the text of a program comes from. -/
inductive ProgramSource where
  | file (name : String)
  | text (code : String)
deriving DecidableEq

/-- The flags of a command line. -/
structure Flags where
  settings : Settings
  verbose : Bool
  /-- The label code is printed before the run. -/
  showLabels : Bool
  /-- The executable is printed before the run. -/
  showBytecode : Bool
deriving DecidableEq

/-- The flags that hold unless others are given. -/
def Flags.standard : Flags := ⟨.standard, false, false, false⟩

/-- What a command line asks for. -/
structure CommandLine where
  source : ProgramSource
  flags : Flags
deriving DecidableEq

namespace CommandLine

/-- The program named by a command and its operand. -/
def source? (command operand : String) : Option ProgramSource :=
  match command with
  | "run" => some (.file operand)
  | "eval" | "e" => some (.text operand)
  | _ => none

/-- A number of kilobytes in bytes, which wraps around at the limit. -/
def bytesOf? (kilobytes : String) : Option Nat :=
  let digits := kilobytes.toList
  let digits := if digits.head? = some '+' then digits.tail else digits
  if digits.isEmpty || !digits.all Char.isDigit then none
  else
    let n := digits.foldl (fun n c => 10 * n + (c.toNat - '0'.toNat)) 0
    if n < byteLimit then some (n * 1024 % byteLimit) else none

/-- The flags with a budget of so many kilobytes. -/
def withBudget? (flags : Flags) (kilobytes : String) : Option Flags := do
  let budget ← bytesOf? kilobytes
  return { flags with settings := { flags.settings with budget } }

/-- The option that sets the budget, when its value follows after an equals sign. -/
def budgetOption : String := "--max-stack-kb="

/-- The flags with one more of them. -/
def withFlag? (flags : Flags) (arg : String) : Option Flags :=
  match arg with
  | "-v" | "--verbose" => some { flags with verbose := true }
  | "--dump-ir" => some { flags with showLabels := true }
  | "--dump-bytecode" => some { flags with showBytecode := true }
  | "--no-optimize" => some { flags with settings := { flags.settings with folding := false } }
  | _ =>
    if arg.startsWith budgetOption then
      withBudget? flags (String.ofList (arg.toList.drop budgetOption.length))
    else none

/-- Takes the flags off arguments; the rest are the positional arguments in order. After two hyphens
all arguments are positional. -/
def split? (flags : Flags) : List String → Option (Flags × List String)
  | [] => some (flags, [])
  | "--" :: args => some (flags, args)
  | "--max-stack-kb" :: value :: args => do split? (← withBudget? flags value) args
  | arg :: args =>
    if arg.startsWith "-" && arg != "-" then do split? (← withFlag? flags arg) args
    else do
      let (flags, positional) ← split? flags args
      return (flags, arg :: positional)

/-- Reads the arguments of a command line. -/
def parse? (args : List String) : Option CommandLine := do
  match ← split? .standard args with
  | (flags, [command, operand]) =>
    return ⟨← source? command operand, flags⟩
  | _ => none

/-- The listings that are to be printed before the run, up to the first that cannot be made, and the
executable. -/
def prepare (c : CommandLine) (source : String) : String × Except Ending Executable :=
  match c.flags.settings.labelCode source with
  | .error r => ("", .error (.rejected r))
  | .ok code =>
    match c.flags.showLabels, code.text? with
    | true, none => ("", .error (.fault none))
    | showLabels, labels? =>
      let labels := if showLabels then labels?.getD "" ++ "\n" else ""
      match code.assemble .little with
      | .error f => (labels, .error (.fault f.message?))
      | .ok exe =>
        if c.flags.showBytecode then
          match exe.listing .empty with
          | .error f => (labels, .error (.fault f.message?))
          | .ok listing => (labels ++ listing ++ "\n", .ok exe)
        else (labels, .ok exe)

end CommandLine

/-- The word that begins an error line, in bold red. -/
def errorMark : String := "\x1b[1m\x1b[31merror\x1b[39m\x1b[0m: "

/-- The word that begins a line of a trace, dimmed and indented. -/
def traceMark : String := "    \x1b[2mat\x1b[0m "

/-- The lines that a command prints on an ending. -/
def Ending.errorLines (source : ProgramSource) : Ending → List String
  | .finished _ => []
  | .rejected r => r.report.entries.map fun entry => errorMark ++ Report.entryText entry
  | .failed e => (errorMark ++ "runtime error: " ++ e.message) :: e.traceLines.map (traceMark ++ ·)
  | .unreadable e =>
    let name := match source with
      | .file name => name
      | .text _ => ""
    [errorMark ++ "cannot read " ++ name ++ ": I/O error: " ++ e.reason ++ ": " ++ e.reason]
  | .fault message? => [errorMark ++ message?.getD "internal error"]
  | .outOfFuel => [errorMark ++ "out of steps"]

/-- The text that a command prints on an ending. -/
def Ending.errorText (source : ProgramSource) (e : Ending) : String :=
  String.join ((e.errorLines source).map (· ++ "\n"))

/-- What can be seen of a command. -/
structure Response where
  exitCode : UInt8
  output : String
  errors : String
deriving DecidableEq

namespace CommandLine

/-- The exit code for arguments that are not a command line. -/
def usageExitCode : UInt8 := 2

/-- The text printed for arguments that are not a command line. -/
def usage : String :=
  errorMark ++ "expected: [OPTIONS] run FILE | [OPTIONS] eval CODE\n" ++
    "options: --verbose --dump-ir --dump-bytecode --no-optimize --max-stack-kb KB\n"

/-- The response of a command whose session has ended. -/
def response (c : CommandLine) (output : String) (e : Ending) : Response :=
  ⟨e.exitCode, output, e.errorText c.source⟩

/-- The text of the program, given how files are read. -/
def sourceText (c : CommandLine) (read : String → Except ReadError String) :
    Except ReadError String :=
  match c.source with
  | .file name => read name
  | .text code => .ok code

/-- The response of a command, given how files are read and the clock's readings. -/
def respond (c : CommandLine) (read : String → Except ReadError String) (clock : Nat → Number)
    (fuel : Nat) : Response :=
  match c.sourceText read with
  | .error e => c.response "" (.unreadable e)
  | .ok source =>
    match c.prepare source with
    | (listings, .error e) => c.response listings e
    | (listings, .ok exe) =>
      let session := Session.ofOutcome exe
        ((Machine.load exe .empty).run exe (c.flags.settings.host clock .accepting) fuel)
      c.response (listings ++ session.output) session.ending

end CommandLine

end Stackscript
