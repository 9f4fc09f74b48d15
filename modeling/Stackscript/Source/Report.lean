import Stackscript.Source.Position

/-!
# Reports

What a phase finds wrong with a text is a list of notices. A report shows each of them with the
position at which its span starts.

* `Phase`, `Notice`;
* `Report`, `Report.ofNotices`, `Report.text`.
-/

namespace Stackscript

/-- The phase of reading a program in which a notice arises. -/
inductive Phase where
  | lexing
  | parsing
  | lowering
deriving DecidableEq

/-- The name under which a phase is reported. -/
def Phase.name : Phase → String
  | .lexing => "lex"
  | .parsing => "syntax"
  | .lowering => "compile"

/-- A message about a part of a source text. -/
structure Notice where
  phase : Phase
  span : Span
  message : String
deriving DecidableEq

/-- Notices with the positions at which they start. -/
structure Report where
  entries : List (Position × Notice)
deriving DecidableEq

namespace Report

/-- The report on a text. -/
def ofNotices (source : String) (notices : List Notice) : Report :=
  let index := LineIndex.ofText source
  ⟨notices.map fun n => (index.position n.span.start, n)⟩

/-- One line of a report. -/
def entryText : Position × Notice → String
  | (p, n) => p.text ++ ": " ++ n.phase.name ++ " error: " ++ n.message

/-- The text of a report, an entry a line. -/
def text (r : Report) : String := "\n".intercalate (r.entries.map entryText)

end Report

end Stackscript
