import Stackscript.Text.Printable

/-!
# Quoted text

Strings are shown in double quotes. Five control and quoting characters have short escapes, and a
character that is not printable is written by its code point in hexadecimal.

* `hexEscape`, the escape of a character by its code point;
* `quoteChar`, `quoted`, the form of strings;
* `escapeChar`, the form of a single character in messages, where both quotes are escaped.
-/

namespace Stackscript.Text

/-- The escape of a character by its code point, in hexadecimal without padding. -/
def hexEscape (c : Char) : List Char :=
  ['\\', 'u', '\x7b'] ++ Nat.toDigits 16 c.toNat ++ ['\x7d']

/-- A character that is neither a quote nor a short escape. -/
def plainChar (c : Char) : List Char :=
  if isPrintable c then [c] else hexEscape c

/-- The form of a character in a quoted string. -/
def quoteChar (c : Char) : List Char :=
  match c with
  | '\x00' => ['\\', '0']
  | '\t' => ['\\', 't']
  | '\r' => ['\\', 'r']
  | '\n' => ['\\', 'n']
  | '\\' => ['\\', '\\']
  | '"' => ['\\', '"']
  | c => plainChar c

/-- A string in double quotes. -/
def quoted (s : String) : String :=
  String.ofList ('"' :: s.toList.flatMap quoteChar ++ ['"'])

/-- The form of a single character in messages: as in a quoted string, the other quote escaped
too. -/
def escapeChar (c : Char) : String :=
  String.ofList (if c = '\'' then ['\\', '\''] else quoteChar c)

end Stackscript.Text
