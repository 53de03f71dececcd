import SetScript.Number.Text
import SetScript.Syntax.Tree
/-!
# Programs as text

Every expression and statement is written in one way. Parentheses appear only where the tree has a
group, so a tree that was read from text is read back from its written form.
-/

namespace SetScript

/-- A literal as it is written in a program. A string has no escapes. -/
def Literal.text : Literal → String
  | .number x => Number.text x
  | .bool b => toString b
  | .string s => "\"" ++ s ++ "\""

/-- Items with a comma and a space between them. -/
def commaSeparated (items : List String) : String := ", ".intercalate items

mutual

/-- An expression as text. -/
def Expr.text : Expr → String
  | .literal value => value.text
  | .variable name => name.lexeme
  | .group inner => "(" ++ inner.text ++ ")"
  | .unary op _ operand => op.symbol ++ operand.text
  | .binary op _ left right => left.text ++ " " ++ op.symbol ++ " " ++ right.text
  | .roster elements => "\x7b" ++ commaSeparated (Expr.texts elements) ++ "\x7d"
  | .comprehension result bound domain filter? =>
    "\x7b" ++ result.text ++ " | " ++ bound.lexeme ++ " in " ++ domain.text ++
      Expr.filterText filter? ++ "\x7d"
  | .cardinality _ operand => "|" ++ operand.text ++ "|"
  | .call _ callee arguments => callee.text ++ "(" ++ commaSeparated (Expr.texts arguments) ++ ")"
  | .assign name value => name.lexeme ++ " = " ++ value.text

/-- The texts of some expressions. -/
def Expr.texts : List Expr → List String
  | [] => []
  | e :: es => e.text :: Expr.texts es

/-- A filter with the comma in front of it. -/
def Expr.filterText : Option Expr → String
  | none => ""
  | some filter => ", " ++ filter.text

end

/-- A statement as text. -/
def Statement.text : Statement → String
  | .print value => "print " ++ value.text ++ ";"
  | .let name value => "let " ++ name.lexeme ++ " = " ++ value.text ++ ";"
  | .function name parameters body =>
    "def " ++ name.lexeme ++ "(" ++ commaSeparated (parameters.map Token.lexeme) ++ ") = " ++
      body.text ++ ";"
  | .expression value => value.text ++ ";"

/-- A program as text, with a space between statements. -/
def programText (statements : List Statement) : String :=
  " ".intercalate (statements.map Statement.text)

end SetScript
