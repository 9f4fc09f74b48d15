import Stackscript.Executable.Assemble
import Stackscript.Label.Fold
import Stackscript.Label.OfTree
import Stackscript.Machine.Run
import Stackscript.Source.Report
import Stackscript.Tree.Statement

/-!
# Sessions

A session takes a source text through all stages: reading, lowering, folding, assembling, running.

* `Rejection`, the report on a text that is no program;
* `Settings`, `Settings.labelCode`, `Settings.executable`;
* `Ending`, `Session`, `Settings.session`.
-/

namespace Stackscript

namespace Notice

/-- The notice of a lexical error. -/
def ofLexError (e : Located LexError) : Notice := ⟨.lexing, e.span, e.val.message⟩

/-- The notice of a syntax error. -/
def ofSyntaxError (e : Located SyntaxError) : Notice := ⟨.parsing, e.span, e.val.message⟩

/-- The notice of a static error. -/
def ofStaticError (e : Located StaticError) : Notice := ⟨.lowering, e.span, e.val.message⟩

end Notice

/-- Why a text is not a program that can be run. -/
inductive Rejection where
  /-- Its characters or tokens do not form a program. -/
  | malformed (report : Report)
  /-- It breaks a rule on names, assignments, calls or jumps. -/
  | unsound (report : Report)
deriving DecidableEq

namespace Rejection

/-- The rejection of a text that cannot be read; lexical errors come first. -/
def ofSyntaxFailure (source : String) (f : SyntaxFailure) : Rejection :=
  .malformed (.ofNotices source
    (f.lexical.map Notice.ofLexError ++ f.syntactic.map Notice.ofSyntaxError))

/-- The rejection of a program with static errors. -/
def ofStaticErrors (source : String) (errors : List (Located StaticError)) : Rejection :=
  .unsound (.ofNotices source (errors.map Notice.ofStaticError))

/-- What is wrong with the text. -/
def report : Rejection → Report
  | .malformed r => r
  | .unsound r => r

end Rejection

/-- Reads a program. -/
def Program.read (source : String) : Except Rejection Program :=
  (Program.parse source).mapError (Rejection.ofSyntaxFailure source)

/-- Why there is no executable of a text. -/
inductive BuildError where
  | rejected (r : Rejection)
  | fault (f : AssemblyFault)
deriving DecidableEq

/-- The choices that a user has. -/
structure Settings where
  /-- The number of bytes that call frames may take. -/
  budget : Nat
  /-- Operations on constants are carried out beforehand. -/
  folding : Bool
deriving DecidableEq

namespace Settings

/-- The settings that hold unless others are chosen. -/
def standard : Settings := ⟨40 * 1024, true⟩

/-- The label code of a source text. -/
def labelCode (s : Settings) (source : String) : Except Rejection LabelCode := do
  let program ← Program.read source
  let code ← (LabelCode.ofProgram program).mapError (Rejection.ofStaticErrors source)
  return if s.folding then code.fold else code

/-- The executable of a source text, with numbers in the given byte order. -/
def executable (s : Settings) (order : ByteOrder) (source : String) :
    Except BuildError Executable := do
  let code ← (s.labelCode source).mapError .rejected
  (code.assemble order).mapError .fault

/-- The host of a run under these settings. -/
def host (s : Settings) (clock : Nat → Number) (sink : Sink) : Host := ⟨clock, sink, s.budget⟩

end Settings

/-- Why a file has no text. -/
inductive ReadError where
  | notFound
  | denied
  | isDirectory
  /-- Something on the way to the file is no directory. -/
  | notDirectory
  | nameTooLong
  /-- The bytes of the file are not UTF-8. -/
  | notText
  /-- Any other reason, in the words of the system. -/
  | other (reason : String)
deriving DecidableEq

/-- The wording of the reason. -/
def ReadError.reason : ReadError → String
  | .notFound => "No such file or directory (os error 2)"
  | .denied => "Permission denied (os error 13)"
  | .isDirectory => "Is a directory (os error 21)"
  | .notDirectory => "Not a directory (os error 20)"
  | .nameTooLong => "File name too long (os error 36)"
  | .notText => "stream did not contain valid UTF-8"
  | .other reason => reason

/-- How a session ends. -/
inductive Ending where
  /-- The program came to its end with so many operands left on the stack. -/
  | finished (depth : Nat)
  | unreadable (e : ReadError)
  | rejected (r : Rejection)
  | failed (e : RuntimeError)
  /-- The bytecode could not be run further; the reason may have a wording. -/
  | fault (message? : Option String)
  | outOfFuel
deriving DecidableEq

namespace Ending

/-- The exit code of a process whose session ends so. -/
def exitCode : Ending → UInt8
  | .finished _ => 0
  | .rejected (.malformed _) => 1
  | .rejected (.unsound _) => 2
  | .failed _ => 3
  | .unreadable _ => 74
  | .fault _ => 101
  | .outOfFuel => 101

/-- The wording of an ending. -/
def message : Ending → String
  | .finished _ => ""
  | .rejected r => r.report.text
  | .failed e => "runtime error: " ++ e.message
  | .unreadable e => "I/O error: " ++ e.reason
  | .fault message? => message?.getD "internal error"
  | .outOfFuel => "internal error: out of steps"

/-- The ending of a session whose text has no executable. -/
def ofBuildError : BuildError → Ending
  | .rejected r => .rejected r
  | .fault f => .fault f.message?

/-- The ending of a session whose program was run. -/
def ofOutcome (exe : Executable) : Outcome → Ending
  | .finished m => .finished m.core.stack.length
  | .failed e m => .failed (m.runtimeError exe e)
  | .fault f m => .fault (f.message? m.core.world.heap)
  | .outOfFuel _ => .outOfFuel

end Ending

/-- What can be seen of a session: the text that the program wrote, and how it ended. -/
structure Session where
  output : String
  ending : Ending
deriving DecidableEq

namespace Session

/-- The session in which an executable is run. -/
def ofOutcome (exe : Executable) (o : Outcome) : Session :=
  ⟨o.machine.core.world.output, .ofOutcome exe o⟩

end Session

/-- The session on a source text, in which the machine may make `fuel` steps. -/
def Settings.session (s : Settings) (clock : Nat → Number) (sink : Sink) (fuel : Nat)
    (source : String) : Session :=
  match s.executable .little source with
  | .error e => ⟨"", .ofBuildError e⟩
  | .ok exe => .ofOutcome exe ((Machine.load exe .empty).run exe (s.host clock sink) fuel)

end Stackscript
