import SetScript.Parser.Program
import SetScript.Syntax.Printer
/-!
# Lines moved

A program text that is moved down a page, or read from another layout, has the same tokens on other
lines. `mapLine f` puts a thing that was on line `n` on line `f n`: a token, an expression, a statement,
an error. Nothing else changes, and in particular not the written form (`Statement.text_mapLine`).
-/

namespace SetScript

def Token.mapLine (f : Nat → Nat) (token : Token) : Token := { token with line := f token.line }

def SyntaxError.mapLine (f : Nat → Nat) (error : SyntaxError) : SyntaxError :=
  { error with line := f error.line }

mutual

/-- An expression with its lines moved. -/
def Expr.mapLine (f : Nat → Nat) : Expr → Expr
  | .literal value => .literal value
  | .variable name => .variable (name.mapLine f)
  | .group inner => .group (inner.mapLine f)
  | .unary op operator operand => .unary op (operator.mapLine f) (operand.mapLine f)
  | .binary op operator left right => .binary op (operator.mapLine f) (left.mapLine f) (right.mapLine f)
  | .roster elements => .roster (Expr.mapLines f elements)
  | .comprehension result bound domain filter? =>
    .comprehension (result.mapLine f) (bound.mapLine f) (domain.mapLine f) (Expr.mapLine? f filter?)
  | .cardinality pipe operand => .cardinality (pipe.mapLine f) (operand.mapLine f)
  | .call paren callee arguments => .call (paren.mapLine f) (callee.mapLine f) (Expr.mapLines f arguments)
  | .assign name value => .assign (name.mapLine f) (value.mapLine f)

def Expr.mapLines (f : Nat → Nat) : List Expr → List Expr
  | [] => []
  | e :: es => e.mapLine f :: Expr.mapLines f es

def Expr.mapLine? (f : Nat → Nat) : Option Expr → Option Expr
  | none => none
  | some e => some (e.mapLine f)

end

@[simp]
theorem Expr.mapLines_eq_map (f : Nat → Nat) (es : List Expr) : Expr.mapLines f es = es.map (mapLine f) := by
  induction es with
  | nil => rfl
  | cons e es ih => simp [mapLines, ih]

@[simp]
theorem Expr.mapLine?_eq_map (f : Nat → Nat) (e? : Option Expr) : Expr.mapLine? f e? = e?.map (mapLine f) := by
  cases e? <;> rfl

/-- A statement with its lines moved. -/
def Statement.mapLine (f : Nat → Nat) : Statement → Statement
  | .print value => .print (value.mapLine f)
  | .let name value => .let (name.mapLine f) (value.mapLine f)
  | .function name parameters body =>
    .function (name.mapLine f) (parameters.map (Token.mapLine f)) (body.mapLine f)
  | .expression value => .expression (value.mapLine f)

def Program.mapLine (f : Nat → Nat) (program : Program) : Program :=
  ⟨program.statements.map (Statement.mapLine f), program.errors.map (SyntaxError.mapLine f)⟩

/-! ## Lines that stay -/

theorem Token.mapLine_id : Token.mapLine id = id := rfl

mutual

theorem Expr.mapLine_id_apply (e : Expr) : e.mapLine id = e := by
  cases e <;> simp only [mapLine, id, Token.mapLine_id, mapLine_id_apply, mapLines_id, mapLine?_id]

theorem Expr.mapLines_id (es : List Expr) : Expr.mapLines id es = es := by
  cases es <;> simp only [mapLines, mapLine_id_apply, mapLines_id]

theorem Expr.mapLine?_id (e? : Option Expr) : Expr.mapLine? id e? = e? := by
  cases e? <;> simp only [mapLine?, mapLine_id_apply]

end

theorem Expr.mapLine_id : Expr.mapLine id = id := funext Expr.mapLine_id_apply

theorem Statement.mapLine_id : Statement.mapLine id = id := by
  funext statement
  cases statement <;> simp [mapLine, Expr.mapLine_id, Token.mapLine_id]

/-! ## The written form has no lines -/

mutual

theorem Expr.text_mapLine (f : Nat → Nat) (e : Expr) : (e.mapLine f).text = e.text := by
  cases e <;> simp only [mapLine, text, Token.mapLine, text_mapLine, texts_mapLines, filterText_mapLine?]

theorem Expr.texts_mapLines (f : Nat → Nat) (es : List Expr) :
    Expr.texts (Expr.mapLines f es) = Expr.texts es := by
  cases es <;> simp only [mapLines, texts, text_mapLine, texts_mapLines]

theorem Expr.filterText_mapLine? (f : Nat → Nat) (e? : Option Expr) :
    Expr.filterText (Expr.mapLine? f e?) = Expr.filterText e? := by
  cases e? <;> simp only [mapLine?, filterText, text_mapLine]

end

theorem Statement.text_mapLine (f : Nat → Nat) (statement : Statement) :
    (statement.mapLine f).text = statement.text := by
  cases statement <;> simp [mapLine, text, Expr.text_mapLine, Token.mapLine, Function.comp_def]

theorem programText_mapLine (f : Nat → Nat) (statements : List Statement) :
    programText (statements.map (Statement.mapLine f)) = programText statements := by
  simp [programText, Function.comp_def, Statement.text_mapLine]

end SetScript
