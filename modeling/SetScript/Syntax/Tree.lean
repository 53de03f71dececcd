import SetScript.Syntax.Operator
/-!
# Expressions and statements

A program is a list of statements. Names, operators, calls and cardinalities keep the token they were
read from, so that an error in evaluating them is reported on its line.
-/

namespace SetScript

/-- An expression. -/
inductive Expr where
  | literal (value : Literal)
  | variable (name : Token)
  /-- An expression in parentheses. -/
  | group (inner : Expr)
  /-- A prefix operator, spelt by the token `operator`. -/
  | unary (op : UnaryOp) (operator : Token) (operand : Expr)
  /-- An operator between two operands, spelt by the token `operator`. -/
  | binary (op : BinaryOp) (operator : Token) (left right : Expr)
  /-- A set given by its elements. -/
  | roster (elements : List Expr)
  /-- The set of the results for those elements of the domain that pass the filter. -/
  | comprehension (result : Expr) (bound : Token) (domain : Expr) (filter? : Option Expr)
  /-- The number of elements of a set, behind the opening bar `pipe`. -/
  | cardinality (pipe : Token) (operand : Expr)
  /-- A function applied to arguments, up to the closing parenthesis `paren`. -/
  | call (paren : Token) (callee : Expr) (arguments : List Expr)
  /-- A new value for a variable that is already bound. -/
  | assign (name : Token) (value : Expr)

/-- A statement. -/
inductive Statement where
  /-- Writes a value. -/
  | print (value : Expr)
  /-- Binds a name. -/
  | let (name : Token) (value : Expr)
  /-- Declares a function. -/
  | function (name : Token) (parameters : List Token) (body : Expr)
  /-- Evaluates an expression for its effects. -/
  | expression (value : Expr)

end SetScript
