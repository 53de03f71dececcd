/-!
# Tokens

A token is a word or sign of the program text together with the line it stands on. Numbers, strings
and truth values carry their decoded value as a literal.
-/

namespace SetScript

/-- A constant that can be written in a program. -/
inductive Literal where
  | number (value : Float)
  | bool (value : Bool)
  | string (value : String)
  deriving Repr, DecidableEq

/-- The lexical classes of program text. A comment, a line break or an unclosed string is recognised
but never becomes a token of a scanned text; `eof` marks the end of a token stream. -/
inductive Kind where
  | leftParen | rightParen | leftBrace | rightBrace
  | comma | pipe | semicolon
  | minus | plus | slash | star | percent
  | equal | equalEqual | bang | bangEqual
  | less | lessEqual | greater | greaterEqual
  | subseteqWord | inWord | unionWord | intersectWord
  | letWord | defWord | printWord | trueWord | falseWord
  | number | string | unterminatedString | identifier
  | comment | newLine | eof
  deriving Repr, DecidableEq

/-- A token: its class, its text, the value it stands for if it is a literal, and its line. -/
structure Token where
  kind : Kind
  lexeme : String
  literal? : Option Literal
  line : Nat
  deriving Repr, DecidableEq

namespace Token

/-- A name on a line. -/
def identifier (name : String) (line : Nat) : Token := ⟨.identifier, name, none, line⟩

/-- The end marker on a line. -/
def endMarker (line : Nat) : Token := ⟨.eof, "", none, line⟩

end Token

end SetScript
