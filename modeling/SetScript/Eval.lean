import SetScript.Builtin
import SetScript.Environment
/-!
# Evaluation

An expression has a value in an environment and may change it: by assignments, and by comprehensions,
whose variable stays bound to the last member it stood for. A fault stops evaluation and leaves the
environment as it was at that point. Operands, elements and arguments are evaluated from left to right.
-/

namespace SetScript

/-- A computation that reads and changes the environment and may end with a fault. -/
abbrev Eval := ExceptT Fault (StateM Environment)

namespace Eval

/-- A result that does not depend on the environment. -/
def ofExcept {α : Type} (result : Except Fault α) : Eval α := fun env => (result, env)

/-- The value of a name. -/
def read (name : Token) : Eval Value := fun env => (env.get name, env)

/-- Binds a name. -/
def define (name : String) (value : Value) : Eval Unit := fun env => (.ok (), env.define name value)

/-- Gives a bound name a new value. -/
def assign (name : Token) (value : Value) : Eval Unit := fun env =>
  match env.assign name value with
  | .ok env' => (.ok (), env')
  | .error fault => (.error fault, env)

/-- For each value in turn, binds the name to it and, if the test holds then, collects the result. -/
def collect (name : String) (test : Eval Bool) (result : Eval Value) : List Value → Eval (List Value)
  | [] => pure []
  | v :: vs => do
    define name v
    if ← test then
      let first ← result
      let others ← collect name test result vs
      return first :: others
    else
      collect name test result vs

end Eval

/-- The value of a literal. -/
def Literal.value : Literal → Value
  | .number x => .number x
  | .bool b => .bool b
  | .string s => .string s

/-- The value of a call. -/
def Value.call (callee : Value) (args : List Value) (line : Nat) : Except Fault Value :=
  match callee with
  | .builtin f => f.call args line
  | _ => .error ⟨.notCallable, line⟩

mutual

/-- Evaluates an expression. -/
def Expr.eval : Expr → Eval Value
  | .literal value => return value.value
  | .variable name => Eval.read name
  | .group inner => inner.eval
  | .unary op operator operand => do
    let v ← operand.eval
    Eval.ofExcept (op.apply v operator.line)
  | .binary op operator left right => do
    let a ← left.eval
    let b ← right.eval
    Eval.ofExcept (op.apply a b operator.line)
  | .roster elements => do
    let values ← Expr.evalAll elements
    return .set (Members.ofList values)
  | .comprehension result bound domain filter? => do
    let d ← domain.eval
    let members ← Eval.ofExcept (d.expectSet "Right operand of 'in' must be a set." bound.line)
    let values ← Eval.collect bound.lexeme (Expr.passes filter?) result.eval members.elements
    return .set (Members.ofList values)
  | .cardinality pipe operand => do
    let v ← operand.eval
    let members ← Eval.ofExcept (v.expectSet "Operand must be a set for cardinality." pipe.line)
    Eval.ofExcept (countValue members.length pipe.line)
  | .call paren callee arguments => do
    let f ← callee.eval
    let args ← Expr.evalAll arguments
    Eval.ofExcept (f.call args paren.line)
  | .assign name value => do
    let v ← value.eval
    Eval.assign name v
    return v

/-- Evaluates expressions from left to right. -/
def Expr.evalAll : List Expr → Eval (List Value)
  | [] => return []
  | e :: es => do
    let v ← e.eval
    let vs ← Expr.evalAll es
    return v :: vs

/-- Whether a filter is true; a filter that is not there is. -/
def Expr.passes : Option Expr → Eval Bool
  | none => return true
  | some filter => do
    let v ← filter.eval
    return v.isTruthy

end

/-- Executes a statement and gives the text it prints, if it prints one. -/
def Statement.execute : Statement → Eval (Option String)
  | .print value => do
    let v ← value.eval
    return some v.text
  | .let name value => do
    let v ← value.eval
    Eval.define name.lexeme v
    return none
  | .function name _ _ =>
    Eval.ofExcept (.error
      ⟨.unsupported s!"Function declarations are not supported: '{name.lexeme}'.", name.line⟩)
  | .expression value => do
    let _ ← value.eval
    return none

end SetScript
