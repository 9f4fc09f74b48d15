import Stackscript.Number.Text
import Stackscript.Source.Span
import Stackscript.Text.Quoted

/-!
# Tokens

The words of the language: literals, identifiers, keywords and symbols. A character sequence that
is no word is an invalid token, and the text ends with an end token.

* `Keyword`, `Symbol`: `text`, `all`, `Keyword.ofText?`;
* `Token`, `Token.text`, the form of a token in messages.
-/

namespace Stackscript

/-- The reserved words. -/
inductive Keyword where
  | «break»
  | const
  | «continue»
  | «else»
  | «false»
  | function
  | «if»
  | null
  | «return»
  | «true»
  | var
  | «while»
deriving DecidableEq, Inhabited

namespace Keyword

/-- Every keyword. -/
def all : List Keyword :=
  [.break, .const, .continue, .else, .false, .function, .if, .null, .return, .true, .var, .while]

def text : Keyword → String
  | .break => "break"
  | .const => "const"
  | .continue => "continue"
  | .else => "else"
  | .false => "false"
  | .function => "function"
  | .if => "if"
  | .null => "null"
  | .return => "return"
  | .true => "true"
  | .var => "var"
  | .while => "while"

/-- The keyword that is spelled so. -/
def ofText? (s : String) : Option Keyword := all.find? (·.text == s)

end Keyword

/-- The marks of punctuation and the operators. -/
inductive Symbol where
  | leftParen
  | rightParen
  | leftBracket
  | rightBracket
  | leftBrace
  | rightBrace
  | comma
  | semicolon
  | colon
  | question
  | plus
  | minus
  | star
  | slash
  | percent
  | equal
  | equalEqual
  | bangEqual
  | bang
  | less
  | greater
  | lessEqual
  | greaterEqual
deriving DecidableEq, Inhabited

/-- The spelling of a symbol. -/
def Symbol.text : Symbol → String
  | .leftParen => "("
  | .rightParen => ")"
  | .leftBracket => "["
  | .rightBracket => "]"
  | .leftBrace => "\x7b"
  | .rightBrace => "\x7d"
  | .comma => ","
  | .semicolon => ";"
  | .colon => ":"
  | .question => "?"
  | .plus => "+"
  | .minus => "-"
  | .star => "*"
  | .slash => "/"
  | .percent => "%"
  | .equal => "="
  | .equalEqual => "=="
  | .bangEqual => "!="
  | .bang => "!"
  | .less => "<"
  | .greater => ">"
  | .lessEqual => "<="
  | .greaterEqual => ">="

/-- A word of the language. -/
inductive Token where
  | number (n : Number)
  /-- A string literal by its value, escapes resolved. -/
  | string (s : String)
  | identifier (name : String)
  | keyword (k : Keyword)
  | symbol (s : Symbol)
  | invalid
  | endOfInput
deriving DecidableEq, Inhabited

namespace Token

/-- A spelling in quotes, as messages name a fixed token. -/
def spelled (s : String) : String := "\"" ++ s ++ "\""

/-- The form of a token in messages. -/
def text : Token → String
  | .number n => "number " ++ n.listing
  | .string s => "string " ++ Text.quoted s
  | .identifier name => "identifier " ++ spelled name
  | .keyword k => spelled k.text
  | .symbol s => spelled s.text
  | .invalid => "invalid token"
  | .endOfInput => "end of input"

end Token

end Stackscript
