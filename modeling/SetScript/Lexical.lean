import SetScript.Token
/-!
# Lexical classes

Program text is made of blanks, line breaks, comments, signs, words, numbers and strings. `reach` says
how many characters at the start of a text a class can take, and `longest` picks the class that takes
the most. Of two classes that take equally many the earlier one in `Class.all` wins, so that a keyword
is not an identifier.
-/

namespace SetScript

/-- The one text of a sign, a keyword or a line break. -/
def Kind.spelling? : Kind → Option (List Char)
  | .leftParen => some ['(']
  | .rightParen => some [')']
  | .leftBrace => some ['\x7b']
  | .rightBrace => some ['\x7d']
  | .comma => some [',']
  | .pipe => some ['|']
  | .semicolon => some [';']
  | .minus => some ['-']
  | .plus => some ['+']
  | .slash => some ['/']
  | .star => some ['*']
  | .percent => some ['%']
  | .equal => some ['=']
  | .equalEqual => some ['=', '=']
  | .bang => some ['!']
  | .bangEqual => some ['!', '=']
  | .less => some ['<']
  | .lessEqual => some ['<', '=']
  | .greater => some ['>']
  | .greaterEqual => some ['>', '=']
  | .subseteqWord => some "subseteq".toList
  | .inWord => some "in".toList
  | .unionWord => some "union".toList
  | .intersectWord => some "intersect".toList
  | .letWord => some "let".toList
  | .defWord => some "def".toList
  | .printWord => some "print".toList
  | .trueWord => some "true".toList
  | .falseWord => some "false".toList
  | .newLine => some ['\n']
  | .number | .string | .unterminatedString | .identifier | .comment | .eof => none

/-- A blank separates tokens and does not end a line. -/
def isBlank (c : Char) : Bool := c == ' ' || c == '\t' || c == '\r' || c == '\x0c'

/-- An identifier begins with an ASCII letter or an underscore. -/
def isNameStart (c : Char) : Bool := c.isAlpha || c == '_'

/-- An identifier goes on with ASCII letters, digits and underscores. -/
def isNamePart (c : Char) : Bool := c.isAlphanum || c == '_'

/-- The length of the run of characters with property `p` that begins a text. -/
def runLength (p : Char → Bool) (cs : List Char) : Nat := (cs.takeWhile p).length

/-- Digits, and a point if a digit follows it, with the digits behind it. -/
def numberReach (cs : List Char) : Nat :=
  let whole := runLength Char.isDigit cs
  match cs.drop whole with
  | '.' :: rest =>
    let fraction := runLength Char.isDigit rest
    if whole = 0 then 0 else if fraction = 0 then whole else whole + 1 + fraction
  | _ => whole

/-- Two slashes and the rest of the line. -/
def commentReach : List Char → Nat
  | '/' :: '/' :: rest => 2 + runLength (· != '\n') rest
  | _ => 0

/-- Everything between two quotes, line breaks included, and the quotes. -/
def stringReach : List Char → Nat
  | '"' :: rest =>
    let body := runLength (· != '"') rest
    if body < rest.length then body + 2 else 0
  | _ => 0

/-- A quote and everything up to the next quote or the end of the text. -/
def openStringReach : List Char → Nat
  | '"' :: rest => 1 + runLength (· != '"') rest
  | _ => 0

/-- A letter or underscore and the letters, digits and underscores behind it. -/
def identifierReach : List Char → Nat
  | c :: rest => if isNameStart c then 1 + runLength isNamePart rest else 0
  | [] => 0

/-- How many characters at the start of a text belong to a token class; none if it does not begin here. -/
def Kind.reach (kind : Kind) (cs : List Char) : Nat :=
  match kind.spelling? with
  | some spelling => if spelling.isPrefixOf cs then spelling.length else 0
  | none =>
    match kind with
    | .number => numberReach cs
    | .string => stringReach cs
    | .unterminatedString => openStringReach cs
    | .identifier => identifierReach cs
    | .comment => commentReach cs
    | _ => 0

/-- A class of text pieces: a run of blanks or one of the token classes. -/
inductive Class where
  | blanks
  | token (kind : Kind)
  deriving Repr, DecidableEq

/-- The classes that text is divided into, in the order in which they win a tie. -/
def Class.all : List Class :=
  .blanks :: ([.leftParen, .rightParen, .leftBrace, .rightBrace, .comma, .pipe, .semicolon, .minus,
    .plus, .slash, .star, .percent, .equal, .equalEqual, .bang, .bangEqual, .less, .lessEqual,
    .greater, .greaterEqual, .subseteqWord, .inWord, .unionWord, .intersectWord, .letWord, .defWord,
    .printWord, .trueWord, .falseWord, .number, .string, .unterminatedString, .identifier, .comment,
    .newLine] : List Kind).map .token

/-- How many characters at the start of a text belong to a class. -/
def Class.reach : Class → List Char → Nat
  | .blanks, cs => runLength isBlank cs
  | .token kind, cs => kind.reach cs

/-- The class that takes the most characters at the start of a text, and how many it takes. -/
def longest (cs : List Char) : Option Class × Nat :=
  Class.all.foldl
    (fun best cls => if best.2 < cls.reach cs then (some cls, cls.reach cs) else best) (none, 0)

end SetScript
