import SetScript.Eval
import SetScript.Proofs.Lines
/-!
# Lines in evaluation

Lines have no part in what a program does. On other lines an expression has the same value and the same effects,
and a fault differs in its line alone (`Expr.eval_mapLine`, `Statement.execute_mapLine`).
-/

namespace SetScript

def Fault.mapLine (f : Nat → Nat) (fault : Fault) : Fault := { fault with line := f fault.line }

variable {α β : Type} (f : Nat → Nat)

/-! ## Operators and functions -/

/-- A result with the line of its fault moved. -/
def moved (result : Except Fault α) : Except Fault α := result.mapError (Fault.mapLine f)

theorem moved_bind (result : Except Fault α) (k : α → Except Fault β) :
    moved f (result >>= k) = moved f result >>= fun a => moved f (k a) := by
  cases result <;> rfl

variable (line : Nat)

namespace Value

theorem expectNumber_line (v : Value) (details : String) :
    v.expectNumber details (f line) = moved f (v.expectNumber details line) := by
  cases v <;> rfl

theorem expectSet_line (v : Value) (details : String) :
    v.expectSet details (f line) = moved f (v.expectSet details line) := by
  cases v <;> rfl

theorem expectNumbers_line (a b : Value) : a.expectNumbers b (f line) = moved f (a.expectNumbers b line) := by
  cases a <;> cases b <;> rfl

end Value

theorem UnaryOp.apply_line (op : UnaryOp) (v : Value) : op.apply v (f line) = moved f (op.apply v line) := by
  cases op <;> cases v <;> rfl

namespace BinaryOp

theorem applyArithmetic_line (op : BinaryOp) (a b : Value) :
    op.applyArithmetic a b (f line) = moved f (op.applyArithmetic a b line) := by
  unfold applyArithmetic
  rw [Value.expectNumbers_line, moved_bind]
  congr 1
  funext ⟨x, y⟩
  cases op.arithmetic? <;> rfl

theorem applyOrdering_line (op : BinaryOp) (a b : Value) :
    op.applyOrdering a b (f line) = moved f (op.applyOrdering a b line) := by
  unfold applyOrdering
  rw [Value.expectNumbers_line, moved_bind]
  congr 1
  funext ⟨x, y⟩
  cases op.ordering? <;> rfl

theorem applySetAlgebra_line (op : BinaryOp) (a b : Value) :
    op.applySetAlgebra a b (f line) = moved f (op.applySetAlgebra a b line) := by
  unfold applySetAlgebra
  rw [Value.expectSet_line, Value.expectSet_line, moved_bind]
  congr 1
  funext as
  rw [moved_bind]
  congr 1
  funext bs
  cases op.setAlgebra? <;> rfl

theorem apply_line (op : BinaryOp) (a b : Value) : op.apply a b (f line) = moved f (op.apply a b line) := by
  cases op with
  | add | sub | mul | div | rem => rw [apply, apply, applyArithmetic_line]
  | less | lessEqual | greater | greaterEqual => rw [apply, apply, applyOrdering_line]
  | equal | notEqual => rfl
  | union | intersect | subseteq => rw [apply, apply, applySetAlgebra_line]
  | member => cases b <;> rfl

end BinaryOp

theorem countValue_line (n : Nat) : countValue n (f line) = moved f (countValue n line) := by
  unfold countValue
  cases Number.ofCount? n <;> rfl

namespace Builtin

theorem onNumber_line (b : Builtin) (op : Float → Float) (args : List Value) :
    b.onNumber op args (f line) = moved f (b.onNumber op args line) := by
  unfold onNumber
  split
  · rw [Value.expectNumber_line, moved_bind]
    rfl
  · rfl

theorem numbers_line (b : Builtin) (members : Members) :
    b.numbers members (f line) = moved f (b.numbers members line) := by
  unfold numbers
  induction members.elements with
  | nil => rfl
  | cons v vs ih =>
    rw [List.mapM_cons, List.mapM_cons, moved_bind, Value.expectNumber_line, ih]
    congr 1
    funext x
    rw [moved_bind]
    rfl

theorem extremum_line (b : Builtin) (pick : Float → Float → Float) (args : List Value) :
    b.extremum pick args (f line) = moved f (b.extremum pick args line) := by
  unfold extremum
  split
  · rw [Value.expectNumbers_line, moved_bind]
    rfl
  · rw [Value.expectSet_line, moved_bind]
    congr 1
    funext members
    rw [numbers_line, moved_bind]
    congr 1
    funext xs
    cases xs <;> rfl
  · rfl

theorem total_line (b : Builtin) (args : List Value) : b.total args (f line) = moved f (b.total args line) := by
  unfold total
  split
  · rw [Value.expectSet_line, moved_bind]
    congr 1
    funext members
    rw [numbers_line, moved_bind]
    rfl
  · rfl

theorem check_line (b : Builtin) (args : List Value) : b.check args (f line) = moved f (b.check args line) := by
  unfold check
  split
  · split <;> rfl
  · rfl

theorem call_line (b : Builtin) (args : List Value) : b.call args (f line) = moved f (b.call args line) := by
  unfold call
  split
  · cases b with
    | sqrt | abs | floor | ceil => exact onNumber_line f line _ _ args
    | min | max => exact extremum_line f line _ _ args
    | sum => exact total_line f line _ args
    | assert => exact check_line f line _ args
  · rfl

end Builtin

theorem Value.call_line (callee : Value) (args : List Value) :
    callee.call args (f line) = moved f (callee.call args line) := by
  cases callee with
  | builtin b => exact b.call_line f line args
  | _ => rfl

/-! ## Expressions -/

namespace Eval

/-- A computation with the line of its fault moved. -/
def mapLine (m : Eval α) : Eval α := fun env => (moved f (m env).1, (m env).2)

theorem mapLine_bind (m : Eval α) (k : α → Eval β) :
    mapLine f (m >>= k) = mapLine f m >>= fun a => mapLine f (k a) := by
  funext env
  obtain ⟨result, env', h⟩ : ∃ result env', m env = (result, env') := ⟨_, _, rfl⟩
  cases result <;> simp [mapLine, bind, ExceptT.bind, ExceptT.mk, ExceptT.bindCont, StateT.bind, h] <;> rfl

theorem ofExcept_moved (result : Except Fault α) : ofExcept (moved f result) = mapLine f (ofExcept result) := rfl

theorem read_mapLine (name : Token) : read (name.mapLine f) = mapLine f (read name) := by
  funext env
  unfold read Eval.mapLine Environment.get Token.mapLine
  dsimp only
  cases env.get? name.lexeme <;> rfl

theorem assign_mapLine (name : Token) (v : Value) : assign (name.mapLine f) v = mapLine f (assign name v) := by
  funext env
  unfold assign Eval.mapLine Environment.assign Token.mapLine
  dsimp only
  cases env.contains name.lexeme <;> rfl

theorem collect_mapLine (name : String) (test : Eval Bool) (result : Eval Value) (vs : List Value) :
    collect name (mapLine f test) (mapLine f result) vs = mapLine f (collect name test result vs) := by
  induction vs with
  | nil => rfl
  | cons v vs ih =>
    rw [collect, collect, mapLine_bind]
    congr 1
    funext _
    rw [mapLine_bind]
    congr 1
    funext holds
    cases holds with
    | false => exact ih
    | true =>
      simp only [if_true, mapLine_bind, ih]
      rfl

end Eval

mutual

/-- On other lines an expression has the same value and effects, and its fault is moved. -/
theorem Expr.eval_mapLine (e : Expr) : (e.mapLine f).eval = Eval.mapLine f e.eval := by
  cases e with
  | literal value => rfl
  | «variable» name =>
    rw [mapLine, eval, eval]
    exact Eval.read_mapLine f name
  | group inner =>
    rw [mapLine, eval, eval]
    exact eval_mapLine inner
  | unary op operator operand =>
    rw [mapLine, eval, eval, eval_mapLine operand, Eval.mapLine_bind]
    simp only [Token.mapLine, UnaryOp.apply_line, Eval.ofExcept_moved]
  | binary op operator left right =>
    rw [mapLine, eval, eval, eval_mapLine left, eval_mapLine right]
    simp only [Token.mapLine, BinaryOp.apply_line, Eval.ofExcept_moved, Eval.mapLine_bind]
  | roster elements =>
    rw [mapLine, eval, eval, evalAll_mapLines elements, Eval.mapLine_bind]
    rfl
  | comprehension result bound domain filter? =>
    rw [mapLine, eval, eval, eval_mapLine result, eval_mapLine domain, passes_mapLine? filter?]
    simp only [Token.mapLine, Value.expectSet_line, Eval.ofExcept_moved, Eval.collect_mapLine, Eval.mapLine_bind]
    rfl
  | cardinality pipe operand =>
    rw [mapLine, eval, eval, eval_mapLine operand]
    simp only [Token.mapLine, Value.expectSet_line, countValue_line, Eval.ofExcept_moved, Eval.mapLine_bind]
  | call paren callee arguments =>
    rw [mapLine, eval, eval, eval_mapLine callee, evalAll_mapLines arguments]
    simp only [Token.mapLine, Value.call_line, Eval.ofExcept_moved, Eval.mapLine_bind]
  | assign name value =>
    rw [mapLine, eval, eval, eval_mapLine value]
    simp only [Eval.assign_mapLine, Eval.mapLine_bind]
    rfl

theorem Expr.evalAll_mapLines (es : List Expr) : evalAll (mapLines f es) = Eval.mapLine f (evalAll es) := by
  cases es with
  | nil => rfl
  | cons e es =>
    rw [mapLines, evalAll, evalAll, eval_mapLine e, evalAll_mapLines es]
    simp only [Eval.mapLine_bind]
    rfl

theorem Expr.passes_mapLine? (e? : Option Expr) : passes (mapLine? f e?) = Eval.mapLine f (passes e?) := by
  cases e? with
  | none => rfl
  | some e =>
    rw [mapLine?, passes, passes, eval_mapLine e, Eval.mapLine_bind]
    rfl

end

theorem Statement.execute_mapLine (statement : Statement) :
    (statement.mapLine f).execute = Eval.mapLine f statement.execute := by
  cases statement with
  | print value =>
    rw [mapLine, execute, execute, Expr.eval_mapLine, Eval.mapLine_bind]
    rfl
  | «let» name value =>
    rw [mapLine, execute, execute, Expr.eval_mapLine, Eval.mapLine_bind]
    rfl
  | function name parameters body => rfl
  | expression value =>
    rw [mapLine, execute, execute, Expr.eval_mapLine, Eval.mapLine_bind]
    rfl

end SetScript
