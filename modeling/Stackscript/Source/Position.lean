import Stackscript.Source.Span

/-!
# Positions in a text

Byte offsets are shown to readers as a line and a column, both counted from one. Lines end at line
feeds, and columns count characters. An offset past the end counts as the end, and an offset inside
a character counts the bytes from the start of its line instead.

* `Position`, `Line`, `LineIndex`, `LineIndex.ofText`;
* `LineIndex.position`, the line and column of a byte offset.
-/

namespace Stackscript

/-- A line and a column, both counted from one. -/
structure Position where
  line : Nat
  column : Nat
deriving DecidableEq, Inhabited

/-- The form `line:column`. -/
def Position.text (p : Position) : String := toString p.line ++ ":" ++ toString p.column

/-- A line of a text: the offset of its first byte and its characters, its line feed included. -/
structure Line where
  start : Nat
  chars : List Char

/-- A text cut into lines; there is always at least one. -/
structure LineIndex where
  size : Nat
  first : Line
  others : List Line

namespace LineIndex

/-- The lines of a text, where the current line started at `start` with the characters `seen` in
reverse and `pos` is the offset of what follows. -/
def cut (start : Nat) (seen : List Char) (pos : Nat) : List Char → Line × List Line
  | [] => (⟨start, seen.reverse⟩, [])
  | c :: cs =>
    let next := pos + c.utf8Size
    if c = '\n' then
      let (l, ls) := cut next [] next cs
      (⟨start, (c :: seen).reverse⟩, l :: ls)
    else cut start (c :: seen) next cs

/-- The line index of a text. -/
def ofText (source : String) : LineIndex :=
  let (l, ls) := cut 0 [] 0 source.toList
  ⟨source.utf8ByteSize, l, ls⟩

/-- The last line that starts at or before `offset`, with its number. The lines are gone through in
order; halving finds the same line (`LineIndex.lineAt_bisect`). -/
def lineAt (offset : Nat) (number : Nat) (line : Line) : List Line → Nat × Line
  | [] => (number, line)
  | l :: ls => if l.start ≤ offset then lineAt offset (number + 1) l ls else (number, line)

/-- The number of characters that make up exactly the first `n` bytes, if some number does. -/
def charsIn : Nat → List Char → Option Nat
  | 0, _ => some 0
  | _ + 1, [] => none
  | n + 1, c :: cs =>
    if c.utf8Size ≤ n + 1 then (charsIn (n + 1 - c.utf8Size) cs).map (· + 1) else none

/-- The line and column of a byte offset. -/
def position (index : LineIndex) (offset : Nat) : Position :=
  let offset := min offset index.size
  let (number, line) := lineAt offset 1 index.first index.others
  let bytes := offset - line.start
  ⟨number, (charsIn bytes line.chars).getD bytes + 1⟩

end LineIndex

end Stackscript
