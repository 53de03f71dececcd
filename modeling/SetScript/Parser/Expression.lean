import SetScript.Parser.Basic
import SetScript.Syntax.Tree
/-!
# Parsing expressions

Assignment binds loosest, then come the layers of infix operators, each leaning left, then prefix
operators, calls and primary expressions.

Expressions stand inside each other at most `maxNesting` levels deep. Every layer is written over the
parsers `Nested` for what may stand inside it, one level deeper; `nested n` has `n` levels left, and with
none left these parsers stop at the first token.
-/

namespace SetScript

/-- The most levels that expressions may stand inside each other. -/
def maxNesting : Nat := 100

/-- The most items of an argument or parameter list. -/
def maxArguments : Nat := 255

/-- The parsers for what stands one level deeper: a full expression, and the operand of a prefix
operator. -/
structure Nested where
  expression : Parser Expr
  operand : Parser Expr

namespace Parser

/-- Items after the first one of a comma-separated list, which are put behind the ones before. -/
def moreItems {α : Type} (item : Parser α) (items : List α) : Parser (List α) :=
  iterate (lineIf .comma) (fun _ items => do return items ++ [← item]) items

/-- An item of a list of limited length: when the list is already full, this is reported once. -/
def limitedItem {α : Type} (item : Parser α) (items : List α) : Parser (List α) := do
  if items.length = maxArguments then
    reportHere (.tooManyArguments maxArguments)
  return items ++ [← item]

/-- At least one item, with commas between items. -/
def limitedItems {α : Type} (item : Parser α) : Parser (List α) := do
  let first ← limitedItem item []
  iterate (lineIf .comma) (fun _ => limitedItem item) first

/-- Items between commas up to a closing token, and that token. -/
def listUntil {α : Type} (item : Parser α) (closing : Kind) (expected : String) :
    Parser (List α × Token) := do
  let next? ← peek?
  let items ← if next?.any (·.kind == closing) then pure [] else limitedItems item
  let token ← expect closing expected
  return (items, token)

/-- What follows the bar of a comprehension: the variable, its domain and the filter. -/
def comprehensionTail (inner : Nested) (result : Expr) : Parser Expr := do
  let bound ← expect .identifier "Expect variable name after '|'"
  let _ ← expect .inWord "Expect 'in' after comprehension variable"
  let domain ← inner.expression
  let filter? ← match ← accept? (lineIf .comma) with
    | some _ => some <$> inner.expression
    | none => pure none
  let _ ← expect .rightBrace "Expect '\x7d' after set comprehension"
  return .comprehension result bound domain filter?

/-- What follows the opening brace of a set: the first expression decides nothing, the token behind it
tells a comprehension from a roster. -/
def setTail (inner : Nested) : Parser Expr := do
  match ← accept? (lineIf .rightBrace) with
  | some _ => return .roster []
  | none =>
    let first ← inner.expression
    match ← accept? (lineIf .pipe) with
    | some _ => comprehensionTail inner first
    | none =>
      let elements ← moreItems inner.expression [first]
      let _ ← expect .rightBrace "Expect '\x7d' after set literal"
      return .roster elements

/-- A literal, a variable, or an expression in parentheses, bars or braces. -/
def primary (inner : Nested) : Parser Expr := do
  match ← peek? with
  | none => unexpected "Expect expression"
  | some token =>
    match token.kind with
    | .number | .string | .trueWord | .falseWord =>
      match token.literal? with
      | none => unexpected "Expect literal value"
      | some value => skip; return .literal value
    | .identifier => skip; return .variable token
    | .leftParen =>
      skip
      let e ← inner.expression
      let _ ← expect .rightParen "Expect ')' after expression"
      return .group e
    | .pipe =>
      skip
      let e ← inner.expression
      let _ ← expect .pipe "Expect '|' after cardinality operand"
      return .cardinality token e
    | .leftBrace => skip; setTail inner
    | _ => unexpected "Expect expression"

/-- A primary expression and the argument lists behind it. -/
def call (inner : Nested) : Parser Expr := do
  let callee ← primary inner
  iterate (lineIf .leftParen)
    (fun _ callee => do
      let (arguments, closing) ←
        listUntil inner.expression .rightParen "Expect ')' after arguments"
      return .call closing callee arguments)
    callee

/-- A prefix operator with its operand, or a call. -/
def unary (inner : Nested) : Parser Expr := do
  match ← accept? (fun token => (UnaryOp.ofKind? token.kind).map (·, token)) with
  | some (op, operator) => return .unary op operator (← inner.operand)
  | none => call inner

/-- The operator that a token spells, if the layer has it, and the token. -/
def layerOp (ops : List BinaryOp) (token : Token) : Option (BinaryOp × Token) :=
  ((BinaryOp.ofKind? token.kind).filter (· ∈ ops)).map (·, token)

/-- A layer of infix operators over the operands of the next tighter one. -/
def leftAssoc (ops : List BinaryOp) (operand : Parser Expr) : Parser Expr := do
  let first ← operand
  iterate (layerOp ops)
    (fun (op, operator) left => do
      let right ← operand
      return .binary op operator left right)
    first

def factor (inner : Nested) : Parser Expr := leftAssoc [.mul, .div, .rem] (unary inner)

def term (inner : Nested) : Parser Expr := leftAssoc [.add, .sub] (factor inner)

/-- A layer for `-` alone. The layer of sums below it takes every `-` there is. -/
def difference (inner : Nested) : Parser Expr := leftAssoc [.sub] (term inner)

def intersection (inner : Nested) : Parser Expr := leftAssoc [.intersect] (difference inner)

def union (inner : Nested) : Parser Expr := leftAssoc [.union] (intersection inner)

def membership (inner : Nested) : Parser Expr := leftAssoc [.member] (union inner)

def comparison (inner : Nested) : Parser Expr :=
  leftAssoc [.subseteq, .greater, .greaterEqual, .less, .lessEqual] (membership inner)

def equality (inner : Nested) : Parser Expr := leftAssoc [.equal, .notEqual] (comparison inner)

/-- An expression, and behind `=` the value that it gets if it is a variable. Another target is reported,
and stands without its value. -/
def assignment (inner : Nested) : Parser Expr := do
  let target ← equality inner
  match ← accept? (lineIf .equal) with
  | none => return target
  | some line =>
    let value ← inner.expression
    match target with
    | .variable name => return .assign name value
    | target =>
      report ⟨.invalidAssignmentTarget, line⟩
      return target

/-- The parsers for what may still stand `n` levels deep. -/
def nested : Nat → Nested
  | 0 => ⟨fail (.nestingTooDeep maxNesting), fail (.nestingTooDeep maxNesting)⟩
  | n + 1 => ⟨assignment (nested n), unary (nested n)⟩

/-- A full expression. -/
def expression : Parser Expr := (nested maxNesting).expression

end Parser

end SetScript
