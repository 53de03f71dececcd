import SetScript.Number.Text
import SetScript.Piece
import SetScript.SyntaxError
/-!
# Scanning

Each piece of a text is read as a token, as an error, or as nothing: blanks, line breaks and comments
only separate. The tokens end with a marker on the last line of the text.
-/

namespace SetScript

/-- What a piece of text is read as. -/
inductive Reading where
  | nothing
  | token (kind : Kind) (literal? : Option Literal)
  | error (cause : SyntaxError.Cause)
  deriving Repr, DecidableEq

/-- Reads a number. One that no finite double is near to is an error. -/
def readNumber (text : List Char) : Reading :=
  let x := Number.read text
  if Number.isFinite x then .token .number (some (.number x))
  else .error (.numberOutOfRange (String.ofList text))

/-- Reads a piece of text. The value of a string is what stands between its quotes. -/
def Piece.reading (piece : Piece) : Reading :=
  match piece.cls? with
  | none => .error (.unexpectedCharacter (String.ofList piece.text))
  | some .blanks => .nothing
  | some (.token kind) =>
    match kind with
    | .newLine | .comment => .nothing
    | .unterminatedString => .error .unterminatedString
    | .number => readNumber piece.text
    | .string => .token .string (some (.string (String.ofList (piece.text.drop 1).dropLast)))
    | .trueWord => .token .trueWord (some (.bool true))
    | .falseWord => .token .falseWord (some (.bool false))
    | kind => .token kind none

/-- A piece with its line and what it is read as. -/
structure Located where
  line : Nat
  text : List Char
  reading : Reading

/-- The pieces of a text, each on its line and read. -/
def locatedReadings (chars : List Char) : List Located :=
  (numbered 1 (pieces chars)).map (fun (line, piece) => ⟨line, piece.text, piece.reading⟩)

/-- The token that stands at a place. -/
def Located.token? (entry : Located) : Option Token :=
  match entry.reading with
  | .token kind literal? => some ⟨kind, String.ofList entry.text, literal?, entry.line⟩
  | _ => none

/-- The error that stands at a place. -/
def Located.error? (entry : Located) : Option SyntaxError :=
  match entry.reading with
  | .error cause => some ⟨cause, entry.line⟩
  | _ => none

/-- The tokens of a text and the errors in it, each in the order of the text. -/
structure Scanned where
  tokens : List Token
  errors : List SyntaxError
  deriving Repr, DecidableEq

/-- Scans a text. -/
def scan (source : String) : Scanned :=
  let chars := source.toList
  let entries := locatedReadings chars
  { tokens := entries.filterMap Located.token? ++ [Token.endMarker (1 + chars.count '\n')]
    errors := entries.filterMap Located.error? }

end SetScript
