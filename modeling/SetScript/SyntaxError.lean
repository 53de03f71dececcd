/-!
# Errors in program text

An error found while scanning or parsing has a cause and the line it is reported on. Its wording is
decided here alone.
-/

namespace SetScript

/-- What is wrong with a program text. -/
inductive SyntaxError.Cause where
  /-- The grammar asked for something else than the token `found`. -/
  | unexpectedToken (expected found : String)
  /-- The text ended where the grammar asked for more. -/
  | unexpectedEnd (expected : String)
  /-- Something other than a variable stands left of `=`. -/
  | invalidAssignmentTarget
  /-- An argument or parameter list has more than `max` items. -/
  | tooManyArguments (max : Nat)
  /-- Expressions stand inside each other more than `max` levels deep. -/
  | nestingTooDeep (max : Nat)
  /-- A number is too large for a finite double. -/
  | numberOutOfRange (lexeme : String)
  /-- A character begins no token. -/
  | unexpectedCharacter (lexeme : String)
  /-- A string has no closing quote. -/
  | unterminatedString
  deriving Repr, DecidableEq

/-- An error in a program text, with the line it is reported on. -/
structure SyntaxError where
  cause : SyntaxError.Cause
  line : Nat
  deriving Repr, DecidableEq

/-- The wording of an error. -/
def SyntaxError.Cause.message : SyntaxError.Cause → String
  | .unexpectedToken expected found => s!"{expected}, found '{found}'."
  | .unexpectedEnd expected => s!"{expected}, found end of input."
  | .invalidAssignmentTarget => "Invalid assignment target."
  | .tooManyArguments max => s!"Can't have more than {max} arguments."
  | .nestingTooDeep max => s!"Expression nested more than {max} levels deep."
  | .numberOutOfRange lexeme => s!"Number literal '{lexeme}' is too large."
  | .unexpectedCharacter lexeme => s!"Unexpected character '{lexeme}'."
  | .unterminatedString => "Unterminated string."

end SetScript
