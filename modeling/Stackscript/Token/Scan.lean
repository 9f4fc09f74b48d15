import Stackscript.Number.Literal
import Stackscript.Text.Identifier
import Stackscript.Token.Basic

/-!
# Scanning

A source text is cut into tokens from left to right. Between tokens, blanks and comments are
skipped. Scanning never stops early: what is no token becomes an invalid one, and each problem is
recorded with its span.

Every function here reads characters from a given byte offset on and returns the offset at which it
stopped with the characters that are left, which are never more than there were.

* `LexError`, `LexError.message`;
* `skipTrivia`, `scanString`, `numberLexeme`, `symbolAt?`, `scanToken`;
* `Scan`, `scanFrom`, `Token.scan`.
-/

namespace Stackscript

/-- What is wrong with the characters of a text. -/
inductive LexError where
  | unterminatedString
  | unterminatedComment
  | unknownEscape (c : Char)
  | unexpectedCharacter (c : Char)
  | invalidNumber (text : String)
deriving DecidableEq

/-- The wording of a lexical error. -/
def LexError.message : LexError → String
  | .unterminatedString => "Unterminated string"
  | .unterminatedComment => "Unterminated block comment"
  | .unknownEscape c => "Unknown escape sequence '\\" ++ Text.escapeChar c ++ "'"
  | .unexpectedCharacter c => "Unexpected character '" ++ Text.escapeChar c ++ "'"
  | .invalidNumber text => "Invalid number literal '" ++ text ++ "'"

/-- The number of bytes of a list of characters. -/
def byteLength : List Char → Nat
  | [] => 0
  | c :: cs => c.utf8Size + byteLength cs

/-! ## Blanks and comments -/

/-- The character separates tokens. -/
def isBlank (c : Char) : Bool := c == ' ' || c == '\t' || c == '\n' || c == '\r'

/-- Skips a line comment, up to the end of its line. -/
def lineComment (pos : Nat) : List Char → Nat × List Char
  | [] => (pos, [])
  | c :: cs =>
    if c = '\n' ∨ c = '\r' then (pos, c :: cs) else lineComment (pos + c.utf8Size) cs

/-- Skips a block comment; the first component tells whether it was closed. -/
def blockComment (pos : Nat) (prev : Char) : List Char → Bool × Nat × List Char
  | [] => (false, pos, [])
  | c :: cs =>
    if prev = '*' ∧ c = '/' then (true, pos + c.utf8Size, cs)
    else blockComment (pos + c.utf8Size) c cs

theorem length_lineComment_le (pos : Nat) (cs : List Char) :
    (lineComment pos cs).2.length ≤ cs.length := by
  induction cs generalizing pos with
  | nil => simp [lineComment]
  | cons c cs ih =>
    unfold lineComment
    split
    · simp
    · exact Nat.le_succ_of_le (ih _)

theorem length_blockComment_le (pos : Nat) (prev : Char) (cs : List Char) :
    (blockComment pos prev cs).2.2.length ≤ cs.length := by
  induction cs generalizing pos prev with
  | nil => simp [blockComment]
  | cons c cs ih =>
    unfold blockComment
    split
    · simp
    · exact Nat.le_succ_of_le (ih _ _)

/-- What is left after blanks and comments, and the problem with the last comment if it has one. -/
structure Skipped where
  errors : List (Located LexError)
  pos : Nat
  rest : List Char

/-- Skips blanks and comments. -/
def skipTrivia (pos : Nat) (cs : List Char) : Skipped :=
  match cs with
  | [] => ⟨[], pos, []⟩
  | c :: rest =>
    if isBlank c then skipTrivia (pos + c.utf8Size) rest
    else
      match c, rest with
      | '/', '/' :: body =>
        match h : lineComment (pos + 2) body with
        | (stop, rest) =>
          have := h ▸ length_lineComment_le (pos + 2) body
          skipTrivia stop rest
      | '/', '*' :: body =>
        match h : blockComment (pos + 2) ' ' body with
        | (true, stop, rest) =>
          have := h ▸ length_blockComment_le (pos + 2) ' ' body
          skipTrivia stop rest
        | (false, stop, _) => ⟨[⟨⟨pos, stop⟩, .unterminatedComment⟩], stop, []⟩
      | c, rest => ⟨[], pos, c :: rest⟩
termination_by cs.length
decreasing_by all_goals simp_all <;> omega

/-! ## Strings -/

/-- The character that an escape stands for, if it is known. -/
def escapeValue? (c : Char) : Option Char :=
  match c with
  | 'n' => some '\n'
  | 'r' => some '\r'
  | 't' => some '\t'
  | '0' => some '\x00'
  | '\\' => some '\\'
  | '\'' => some '\''
  | '"' => some '"'
  | _ => none

/-- The value of a string literal, if it is closed, and what is left behind it. -/
structure StringScan where
  value : Option (List Char)
  errors : List (Located LexError)
  pos : Nat
  rest : List Char

/-- The scan with one more character and more errors in front. -/
def StringScan.prepend (c : Char) (errors : List (Located LexError)) (s : StringScan) :
    StringScan :=
  { s with value := s.value.map (c :: ·), errors := errors ++ s.errors }

/-- Scans a string literal that began at `start`, from behind its opening quote on. An unknown
escape stands for the character itself. -/
def scanString (quote : Char) (start pos : Nat) : List Char → StringScan
  | [] => ⟨none, [⟨⟨start, pos⟩, .unterminatedString⟩], pos, []⟩
  | c :: cs =>
    let next := pos + c.utf8Size
    if c = quote then ⟨some [], [], next, cs⟩
    else if c = '\\' then
      match cs with
      | [] => ⟨none, [⟨⟨start, next⟩, .unterminatedString⟩], next, []⟩
      | e :: cs =>
        let stop := next + e.utf8Size
        match escapeValue? e with
        | some v => (scanString quote start stop cs).prepend v []
        | none => (scanString quote start stop cs).prepend e [⟨⟨pos, stop⟩, .unknownEscape e⟩]
    else (scanString quote start next cs).prepend c []

/-! ## Numbers -/

/-- The character can stand inside a run of digits. -/
def isDigitChar (c : Char) : Bool := c.isDigit || c == '_'

/-- The fraction at the start of a text, point included; a point needs a digit behind it. -/
def fractionLexeme : List Char → List Char
  | '.' :: d :: cs => if d.isDigit then '.' :: d :: cs.takeWhile isDigitChar else []
  | _ => []

/-- The sign at the start of a text. -/
def signLexeme : List Char → List Char
  | '+' :: _ => ['+']
  | '-' :: _ => ['-']
  | _ => []

/-- The exponent at the start of a text, letter included; the letter needs a digit behind it and
its sign. -/
def exponentLexeme : List Char → List Char
  | [] => []
  | e :: cs =>
    if e = 'e' ∨ e = 'E' then
      let sign := signLexeme cs
      match cs.drop sign.length with
      | d :: ds => if d.isDigit then e :: sign ++ d :: ds.takeWhile isDigitChar else []
      | [] => []
    else []

/-- The number literal at the start of a text. -/
def numberLexeme (cs : List Char) : List Char :=
  let whole := cs.takeWhile isDigitChar
  let rest := cs.dropWhile isDigitChar
  let fraction := fractionLexeme rest
  whole ++ fraction ++ exponentLexeme (rest.drop fraction.length)

/-! ## Symbols -/

/-- The symbol that stands at the start of a text whose first character is `c`. -/
def symbolAt? (c : Char) (cs : List Char) : Option Symbol :=
  let orEqual (longer shorter : Symbol) := if cs.head? = some '=' then longer else shorter
  match c with
  | '(' => some .leftParen
  | ')' => some .rightParen
  | '[' => some .leftBracket
  | ']' => some .rightBracket
  | '\x7b' => some .leftBrace
  | '\x7d' => some .rightBrace
  | ',' => some .comma
  | ';' => some .semicolon
  | ':' => some .colon
  | '?' => some .question
  | '+' => some .plus
  | '-' => some .minus
  | '*' => some .star
  | '/' => some .slash
  | '%' => some .percent
  | '=' => some (orEqual .equalEqual .equal)
  | '!' => some (orEqual .bangEqual .bang)
  | '<' => some (orEqual .lessEqual .less)
  | '>' => some (orEqual .greaterEqual .greater)
  | _ => none

/-! ## Tokens -/

/-- A token, the problems found in it, and what is left behind it. -/
structure Scanned where
  token : Token
  errors : List (Located LexError)
  pos : Nat
  rest : List Char

/-- The token of a number literal that begins at `pos` with the characters `cs`. -/
def scanNumber (pos : Nat) (cs : List Char) : Scanned :=
  let lexeme := numberLexeme cs
  let rest := cs.drop lexeme.length
  let stop := pos + byteLength lexeme
  match Number.read? (lexeme.filter (· != '_')) with
  | some n => ⟨.number n, [], stop, rest⟩
  | none => ⟨.invalid, [⟨⟨pos, stop⟩, .invalidNumber (String.ofList lexeme)⟩], stop, rest⟩

/-- The token of an identifier or keyword that begins at `pos` with the character `c`. -/
def scanWord (pos : Nat) (c : Char) (cs : List Char) : Scanned :=
  let tail := cs.takeWhile Text.isIdentifierContinue
  let name := String.ofList (c :: tail)
  let token := match Keyword.ofText? name with
    | some k => .keyword k
    | none => .identifier name
  ⟨token, [], pos + byteLength (c :: tail), cs.dropWhile Text.isIdentifierContinue⟩

/-- The token that begins at `pos` with the character `c`. -/
def scanToken (pos : Nat) (c : Char) (cs : List Char) : Scanned :=
  match symbolAt? c cs with
  | some s => ⟨.symbol s, [], pos + s.text.length, cs.drop (s.text.length - 1)⟩
  | none =>
    if c = '"' ∨ c = '\'' then
      let s := scanString c pos (pos + 1) cs
      let token := match s.value with
        | some value => .string (String.ofList value)
        | none => .invalid
      ⟨token, s.errors, s.pos, s.rest⟩
    else if c.isDigit then scanNumber pos (c :: cs)
    else if Text.isIdentifierStart c then scanWord pos c cs
    else
      let stop := pos + c.utf8Size
      ⟨.invalid, [⟨⟨pos, stop⟩, .unexpectedCharacter c⟩], stop, cs⟩

/-! ## What is left is no longer -/

theorem length_skipTrivia_le (pos : Nat) (cs : List Char) :
    (skipTrivia pos cs).rest.length ≤ cs.length := by
  fun_induction skipTrivia pos cs <;> simp_all <;> omega

theorem length_scanString_le (quote : Char) (start pos : Nat) (cs : List Char) :
    (scanString quote start pos cs).rest.length ≤ cs.length := by
  fun_induction scanString quote start pos cs <;> simp_all [StringScan.prepend] <;> omega

theorem numberLexeme_ne_nil {c : Char} (cs : List Char) (h : c.isDigit = true) :
    numberLexeme (c :: cs) ≠ [] := by
  simp [numberLexeme, isDigitChar, h]

theorem length_scanNumber_lt (pos : Nat) {c : Char} (cs : List Char) (h : c.isDigit = true) :
    (scanNumber pos (c :: cs)).rest.length < (c :: cs).length := by
  have hne := List.length_pos_iff.2 (numberLexeme_ne_nil cs h)
  simp only [scanNumber]
  split <;> simp only [List.length_drop, List.length_cons] <;> omega

theorem length_scanToken_le (pos : Nat) (c : Char) (cs : List Char) :
    (scanToken pos c cs).rest.length ≤ cs.length := by
  unfold scanToken
  split
  · simp
  · split
    · exact length_scanString_le _ _ _ cs
    · split
      · next h => exact Nat.le_of_lt_succ (length_scanNumber_lt pos cs h)
      · split
        · exact (List.dropWhile_sublist _).length_le
        · simp

theorem length_lt_of_skipTrivia {pos start : Nat} {cs rest : List Char} {c : Char}
    {errors : List (Located LexError)} (h : skipTrivia pos cs = ⟨errors, start, c :: rest⟩) :
    rest.length < cs.length := by
  have := length_skipTrivia_le pos cs
  rw [h] at this
  exact this

/-! ## Texts -/

/-- The tokens of a text, the end of input last, and the problems found, both in order. -/
structure Scan where
  tokens : List (Located Token)
  errors : List (Located LexError)
deriving DecidableEq

/-- Scans the characters `cs` that begin at the offset `pos`. -/
def scanFrom (pos : Nat) (cs : List Char) : Scan :=
  match h : skipTrivia pos cs with
  | ⟨errors, start, []⟩ => ⟨[⟨⟨start, start⟩, .endOfInput⟩], errors⟩
  | ⟨errors, start, c :: rest⟩ =>
    have := length_lt_of_skipTrivia h
    have := length_scanToken_le start c rest
    let s := scanToken start c rest
    let tail := scanFrom s.pos s.rest
    ⟨⟨⟨start, s.pos⟩, s.token⟩ :: tail.tokens, errors ++ s.errors ++ tail.errors⟩
termination_by cs.length
decreasing_by omega

/-- Scans a text. -/
def Token.scan (source : String) : Scan := scanFrom 0 source.toList

end Stackscript
