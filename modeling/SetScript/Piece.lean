import SetScript.Lexical
/-!
# Text in pieces

A text is divided into consecutive pieces, each as long as any lexical class allows at its place. A
character at which no class begins is a piece of its own.
-/

namespace SetScript

/-- A piece of text and the class it belongs to, if any. -/
structure Piece where
  cls? : Option Class
  text : List Char
  deriving Repr, DecidableEq

/-- The division of a text into longest pieces. -/
def pieces : List Char → List Piece
  | [] => []
  | c :: cs =>
    let best := longest (c :: cs)
    ⟨best.1, c :: cs.take (best.2 - 1)⟩ :: pieces (cs.drop (best.2 - 1))
  termination_by cs => cs.length
  decreasing_by simp only [List.length_drop, List.length_cons]; omega

/-- The line breaks in a piece. -/
def Piece.lineBreaks (piece : Piece) : Nat := piece.text.count '\n'

/-- Each piece with the line it starts on, the first one on `line`. -/
def numbered (line : Nat) : List Piece → List (Nat × Piece)
  | [] => []
  | piece :: rest => (line, piece) :: numbered (line + piece.lineBreaks) rest

end SetScript
