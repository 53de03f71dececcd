import SetScript.Eval
/-!
# Steps of a computation

A computation behind another one starts where the first one ends, and does not start at all behind a fault
(`Eval.bind_of_ok`, `Eval.bind_of_error`). Evaluation of an expression goes down into its parts; `Expr.Enters` says
which part is evaluated when, and in which environment.
-/

namespace SetScript

namespace Eval

variable {α β : Type} {m : Eval α} {env env' : Environment}

theorem eq_error_or_eq_ok (m : Eval α) (env : Environment) :
    (∃ fault env', m env = (.error fault, env')) ∨ ∃ a env', m env = (.ok a, env') := by
  obtain ⟨result, env', h⟩ : ∃ result env', m env = (result, env') := ⟨_, _, rfl⟩
  cases result with
  | error fault => exact .inl ⟨fault, env', h⟩
  | ok a => exact .inr ⟨a, env', h⟩

theorem bind_of_ok {a : α} (h : m env = (.ok a, env')) (k : α → Eval β) : (m >>= k) env = k a env' := by
  simp [bind, ExceptT.bind, ExceptT.mk, ExceptT.bindCont, StateT.bind, h]

theorem bind_of_error {fault : Fault} (h : m env = (.error fault, env')) (k : α → Eval β) :
    (m >>= k) env = (.error fault, env') := by
  simp [bind, ExceptT.bind, ExceptT.mk, ExceptT.bindCont, StateT.bind, h]
  rfl

/-- How a computation behind another one ends. -/
theorem bind_cases (m : Eval α) (k : α → Eval β) (env : Environment) :
    (∃ fault, (m env).1 = .error fault ∧ (m >>= k) env = (.error fault, (m env).2)) ∨
      ∃ a, (m env).1 = .ok a ∧ (m >>= k) env = k a (m env).2 := by
  obtain ⟨result, env', h⟩ : ∃ result env', m env = (result, env') := ⟨_, _, rfl⟩
  cases result with
  | error fault => exact .inl ⟨fault, by rw [h], by rw [bind_of_error h, h]⟩
  | ok a => exact .inr ⟨a, by rw [h], by rw [bind_of_ok h, h]⟩

/-- Behind computations that end alike, two others both start with one result or both do not start. -/
theorem bind_cases_of_same {m' : Eval α} (same : (m env).1 = (m' env').1) (k k' : α → Eval β) :
    (∃ fault, (m >>= k) env = (.error fault, (m env).2) ∧ (m' >>= k') env' = (.error fault, (m' env').2)) ∨
      ∃ a, (m >>= k) env = k a (m env).2 ∧ (m' >>= k') env' = k' a (m' env').2 := by
  rcases eq_error_or_eq_ok m env with ⟨fault, after, h⟩ | ⟨a, after, h⟩
  · have h' : m' env' = (.error fault, (m' env').2) := Prod.ext (by rw [← same, h]) rfl
    exact .inl ⟨fault, by rw [bind_of_error h, h], bind_of_error h' k'⟩
  · have h' : m' env' = (.ok a, (m' env').2) := Prod.ext (by rw [← same, h]) rfl
    exact .inr ⟨a, by rw [bind_of_ok h, h], bind_of_ok h' k'⟩

end Eval

/-! ## Comprehensions -/

section Comprehensions

variable {domain : Expr} {env env' : Environment}

/-- Once its domain is known to be a set, a comprehension is a loop over the elements of this set. -/
theorem Expr.eval_comprehension_of_set {s : Members} (ranges : domain.eval env = (.ok (.set s), env')) (result : Expr)
    (bound : Token) (filter? : Option Expr) :
    (comprehension result bound domain filter?).eval env =
      (do
        let values ← Eval.collect bound.lexeme (passes filter?) result.eval s.elements
        return .set (.ofList values) : Eval Value) env' := by
  have isSet : Eval.ofExcept (.ok s) env' = (.ok s, env') := rfl
  rw [eval, Eval.bind_of_ok ranges, Value.expectSet, Eval.bind_of_ok isSet]

theorem Expr.eval_comprehension_of_empty {s : Members} (ranges : domain.eval env = (.ok (.set s), env'))
    (empty : s.elements = []) (result : Expr) (bound : Token) (filter? : Option Expr) :
    (comprehension result bound domain filter?).eval env = (.ok (.set (.ofList [])), env') := by
  rw [eval_comprehension_of_set ranges, empty]
  rfl

theorem Expr.eval_comprehension_of_noSet {v : Value} (value : domain.eval env = (.ok v, env')) (noSet : ∀ s, v ≠ .set s)
    (result : Expr) (bound : Token) (filter? : Option Expr) :
    (comprehension result bound domain filter?).eval env =
      (.error ⟨.typeMismatch "Right operand of 'in' must be a set.", bound.line⟩, env') := by
  have mismatch : v.expectSet "Right operand of 'in' must be a set." bound.line =
      .error ⟨.typeMismatch "Right operand of 'in' must be a set.", bound.line⟩ := by
    cases v with
    | set s => exact absurd rfl (noSet s)
    | _ => rfl
  rw [eval, Eval.bind_of_ok value, mismatch]
  exact Eval.bind_of_error rfl _

theorem Expr.eval_comprehension_of_error {fault : Fault} (failed : domain.eval env = (.error fault, env'))
    (result : Expr) (bound : Token) (filter? : Option Expr) :
    (comprehension result bound domain filter?).eval env = (.error fault, env') := by
  rw [eval, Eval.bind_of_error failed]

end Comprehensions

/-! ## Parts -/

/-- Evaluating an expression in an environment comes directly to evaluating a part of it in an environment. -/
inductive Expr.Enters : Expr → Environment → Expr → Environment → Prop where
  | group {inner : Expr} {env : Environment} : Enters (.group inner) env inner env
  | operand {op : UnaryOp} {operator : Token} {operand : Expr} {env : Environment} :
    Enters (.unary op operator operand) env operand env
  | left {op : BinaryOp} {operator : Token} {left right : Expr} {env : Environment} :
    Enters (.binary op operator left right) env left env
  | right {op : BinaryOp} {operator : Token} {left right : Expr} {env env' : Environment} {a : Value}
    (before : left.eval env = (.ok a, env')) : Enters (.binary op operator left right) env right env'
  | element {earlier later : List Expr} {e : Expr} {env env' : Environment} {vs : List Value}
    (before : Expr.evalAll earlier env = (.ok vs, env')) : Enters (.roster (earlier ++ e :: later)) env e env'
  | domain {result domain : Expr} {bound : Token} {filter? : Option Expr} {env : Environment} :
    Enters (.comprehension result bound domain filter?) env domain env
  /-- The filter is evaluated for each element, behind what was done for the elements before it. -/
  | filter {result domain filter : Expr} {bound : Token} {env env' env'' : Environment} {s : Members}
    {earlier later vs : List Value} {v : Value} (ranges : domain.eval env = (.ok (.set s), env'))
    (split : s.elements = earlier ++ v :: later)
    (before : Eval.collect bound.lexeme (Expr.passes (some filter)) result.eval earlier env' = (.ok vs, env'')) :
    Enters (.comprehension result bound domain (some filter)) env filter (env''.define bound.lexeme v)
  /-- The result is evaluated for each element that passes. -/
  | result {result domain : Expr} {bound : Token} {filter? : Option Expr} {env env' env'' env''' : Environment}
    {s : Members} {earlier later vs : List Value} {v : Value} (ranges : domain.eval env = (.ok (.set s), env'))
    (split : s.elements = earlier ++ v :: later)
    (before : Eval.collect bound.lexeme (Expr.passes filter?) result.eval earlier env' = (.ok vs, env''))
    (passed : Expr.passes filter? (env''.define bound.lexeme v) = (.ok true, env''')) :
    Enters (.comprehension result bound domain filter?) env result env'''
  | counted {pipe : Token} {operand : Expr} {env : Environment} : Enters (.cardinality pipe operand) env operand env
  | callee {paren : Token} {callee : Expr} {arguments : List Expr} {env : Environment} :
    Enters (.call paren callee arguments) env callee env
  | argument {paren : Token} {callee e : Expr} {earlier later : List Expr} {env env' env'' : Environment} {f : Value}
    {vs : List Value} (called : callee.eval env = (.ok f, env'))
    (before : Expr.evalAll earlier env' = (.ok vs, env'')) :
    Enters (.call paren callee (earlier ++ e :: later)) env e env''
  | assigned {name : Token} {value : Expr} {env : Environment} : Enters (.assign name value) env value env

end SetScript
