import SetScript.Proofs.Evaluation.Leftover
/-!
# Where faults come from

Evaluation goes down into the parts of an expression, and a fault comes up again from one of them. So a fault of an
expression is the fault of one of its parts, at some depth, all of whose own parts have had values: this part reads or
assigns a name that is not bound, applies an operator or calls a function (`Expr.exists_raises`). `Expr.Raises` says how
a part comes to a fault of its own.
-/

namespace SetScript

/-! ## Computations -/

namespace Eval

variable {α β : Type} {env final : Environment} {fault : Fault}

/-- A computation behind another one fails where the first one does, or behind its result. -/
theorem bind_eq_error {m : Eval α} {k : α → Eval β} (h : (m >>= k) env = (.error fault, final)) :
    m env = (.error fault, final) ∨ ∃ a between, m env = (.ok a, between) ∧ k a between = (.error fault, final) := by
  rcases eq_error_or_eq_ok m env with ⟨other, after, failed⟩ | ⟨a, between, first⟩
  · rw [bind_of_error failed] at h
    cases h
    exact .inl failed
  · rw [bind_of_ok first] at h
    exact .inr ⟨a, between, first, h⟩

theorem ofExcept_eq_error {result : Except Fault α} (h : ofExcept result env = (.error fault, final)) :
    result = .error fault ∧ env = final := Prod.mk.inj h

theorem expectSet_eq_ok {v : Value} {details : String} {line : Nat} {s : Members}
    (h : ofExcept (v.expectSet details line) env = (.ok s, final)) : v = .set s ∧ env = final := by
  obtain ⟨isSet, rfl⟩ := Prod.mk.inj h
  cases v with
  | set members =>
    cases isSet
    exact ⟨rfl, rfl⟩
  | _ => cases isSet

theorem assign_eq_error {name : Token} {v : Value} (h : assign name v env = (.error fault, final)) :
    env.assign name v = .error fault ∧ env = final := by
  unfold assign at h
  cases unbound : env.assign name v with
  | ok env' =>
    rw [unbound] at h
    cases h
  | error other =>
    rw [unbound] at h
    cases h
    exact ⟨rfl, rfl⟩

theorem round_eq_error {name : String} {test : Eval Bool} {result : Eval Value} {v : Value}
    (h : round name test result v env = (.error fault, final)) :
    test (env.define name v) = (.error fault, final) ∨
      ∃ inside, test (env.define name v) = (.ok true, inside) ∧ result inside = (.error fault, final) := by
  have bound : define name v env = (.ok (), env.define name v) := rfl
  rw [round, bind_of_ok bound] at h
  rcases bind_eq_error h with failed | ⟨holds, inside, tested, h⟩
  · exact .inl failed
  cases holds with
  | false => cases h
  | true =>
    rcases bind_eq_error h with failed | ⟨_, _, _, h⟩
    · exact .inr ⟨inside, tested, failed⟩
    · cases h

/-- A loop fails in a round behind others that have not failed. -/
theorem collect_eq_error {name : String} {test : Eval Bool} {result : Eval Value} {vs : List Value}
    (h : collect name test result vs env = (.error fault, final)) :
    ∃ earlier v later ws between, vs = earlier ++ v :: later ∧
      collect name test result earlier env = (.ok ws, between) ∧
      (test (between.define name v) = (.error fault, final) ∨
        ∃ inside, test (between.define name v) = (.ok true, inside) ∧ result inside = (.error fault, final)) := by
  induction vs generalizing env with
  | nil => cases h
  | cons v vs ih =>
    rw [collect_cons] at h
    rcases bind_eq_error h with failed | ⟨part, between, first, h⟩
    · exact ⟨[], v, vs, [], env, rfl, rfl, round_eq_error failed⟩
    rcases bind_eq_error h with h | ⟨_, _, _, h⟩
    · obtain ⟨earlier, d, later, ws, last, rfl, before, failed⟩ := ih h
      refine ⟨v :: earlier, d, later, part.toList ++ ws, last, rfl, ?_, failed⟩
      rw [collect_cons, bind_of_ok first, bind_of_ok before]
      rfl
    · cases h

end Eval

namespace Expr

variable {env final : Environment} {fault : Fault}

theorem evalAll_eq_error {es : List Expr} (h : evalAll es env = (.error fault, final)) :
    ∃ earlier e later vs between, es = earlier ++ e :: later ∧ evalAll earlier env = (.ok vs, between) ∧
      e.eval between = (.error fault, final) := by
  induction es generalizing env with
  | nil => cases h
  | cons e es ih =>
    rw [evalAll] at h
    rcases Eval.bind_eq_error h with failed | ⟨v, between, first, h⟩
    · exact ⟨[], e, es, [], env, rfl, rfl, failed⟩
    · rcases Eval.bind_eq_error h with h | ⟨vs, after, -, h⟩
      · obtain ⟨earlier, e', later, vs, last, rfl, before, failed⟩ := ih h
        refine ⟨e :: earlier, e', later, v :: vs, last, rfl, ?_, failed⟩
        rw [evalAll, Eval.bind_of_ok first, Eval.bind_of_ok before]
        rfl
      · cases h

/-- An expression whose parts have values comes to a fault of its own. -/
inductive Raises : Expr → Environment → Fault → Environment → Prop where
  | read {name : Token} {env : Environment} {fault : Fault} (unbound : env.get name = .error fault) :
    Raises (.variable name) env fault env
  | unary {op : UnaryOp} {operator : Token} {operand : Expr} {v : Value} {env env' : Environment} {fault : Fault}
    (value : operand.eval env = (.ok v, env')) (failed : op.apply v operator.line = .error fault) :
    Raises (.unary op operator operand) env fault env'
  | binary {op : BinaryOp} {operator : Token} {left right : Expr} {a b : Value} {env env' env'' : Environment}
    {fault : Fault} (first : left.eval env = (.ok a, env')) (second : right.eval env' = (.ok b, env''))
    (failed : op.apply a b operator.line = .error fault) : Raises (.binary op operator left right) env fault env''
  | range {result domain : Expr} {bound : Token} {filter? : Option Expr} {d : Value} {env env' : Environment}
    {fault : Fault} (value : domain.eval env = (.ok d, env'))
    (failed : d.expectSet "Right operand of 'in' must be a set." bound.line = .error fault) :
    Raises (.comprehension result bound domain filter?) env fault env'
  | counted {pipe : Token} {operand : Expr} {v : Value} {env env' : Environment} {fault : Fault}
    (value : operand.eval env = (.ok v, env'))
    (failed : (v.expectSet "Operand must be a set for cardinality." pipe.line >>= fun members =>
      countValue members.length pipe.line) = .error fault) :
    Raises (.cardinality pipe operand) env fault env'
  | call {paren : Token} {callee : Expr} {arguments : List Expr} {f : Value} {args : List Value}
    {env env' env'' : Environment} {fault : Fault} (called : callee.eval env = (.ok f, env'))
    (values : evalAll arguments env' = (.ok args, env'')) (failed : f.call args paren.line = .error fault) :
    Raises (.call paren callee arguments) env fault env''
  | assign {name : Token} {value : Expr} {v : Value} {env env' : Environment} {fault : Fault}
    (new : value.eval env = (.ok v, env')) (unbound : env'.assign name v = .error fault) :
    Raises (.assign name value) env fault env'

/-- The loop of a comprehension fails in the filter or in the result, at some element of its set. -/
theorem enters_of_collect {result domain : Expr} {bound : Token} {filter? : Option Expr} {s : Members}
    {between : Environment} (ranges : domain.eval env = (.ok (.set s), between))
    (h : Eval.collect bound.lexeme (passes filter?) result.eval s.elements between = (.error fault, final)) :
    ∃ part inside, (comprehension result bound domain filter?).Enters env part inside ∧
      part.eval inside = (.error fault, final) := by
  obtain ⟨earlier, v, later, ws, last, split, before, h⟩ := Eval.collect_eq_error h
  rcases h with h | ⟨inside, passed, h⟩
  · cases filter? with
    | none => cases h
    | some filter =>
      rw [passes] at h
      rcases Eval.bind_eq_error h with h | ⟨_, _, _, h⟩
      · exact ⟨filter, last.define bound.lexeme v, .filter ranges split before, h⟩
      · cases h
  · exact ⟨result, inside, .result ranges split before passed, h⟩

/-- A fault of an expression is its own, or that of a part that is evaluated directly for it. -/
theorem raises_or_enters {e : Expr} (h : e.eval env = (.error fault, final)) :
    e.Raises env fault final ∨ ∃ part inside, e.Enters env part inside ∧ part.eval inside = (.error fault, final) := by
  cases e with
  | literal value =>
    rw [eval] at h
    cases h
  | «variable» name =>
    rw [eval] at h
    obtain ⟨unbound, rfl⟩ := Prod.mk.inj h
    exact .inl (.read unbound)
  | group inner =>
    rw [eval] at h
    exact .inr ⟨inner, env, .group, h⟩
  | unary op operator operand =>
    rw [eval] at h
    rcases Eval.bind_eq_error h with h | ⟨v, between, value, h⟩
    · exact .inr ⟨operand, env, .operand, h⟩
    · obtain ⟨failed, rfl⟩ := Eval.ofExcept_eq_error h
      exact .inl (.unary value failed)
  | binary op operator left right =>
    rw [eval] at h
    rcases Eval.bind_eq_error h with h | ⟨a, between, first, h⟩
    · exact .inr ⟨left, env, .left, h⟩
    rcases Eval.bind_eq_error h with h | ⟨b, after, second, h⟩
    · exact .inr ⟨right, between, .right first, h⟩
    obtain ⟨failed, rfl⟩ := Eval.ofExcept_eq_error h
    exact .inl (.binary first second failed)
  | roster elements =>
    rw [eval] at h
    rcases Eval.bind_eq_error h with h | ⟨vs, between, -, h⟩
    · obtain ⟨earlier, e, later, vs, between, rfl, before, h⟩ := evalAll_eq_error h
      exact .inr ⟨e, between, .element before, h⟩
    · cases h
  | comprehension result bound domain filter? =>
    rw [eval] at h
    rcases Eval.bind_eq_error h with h | ⟨d, between, value, h⟩
    · exact .inr ⟨domain, env, .domain, h⟩
    rcases Eval.bind_eq_error h with h | ⟨s, between', isSet, h⟩
    · obtain ⟨failed, rfl⟩ := Eval.ofExcept_eq_error h
      exact .inl (.range value failed)
    obtain ⟨rfl, rfl⟩ := Eval.expectSet_eq_ok isSet
    rcases Eval.bind_eq_error h with h | ⟨_, _, _, h⟩
    · exact .inr (enters_of_collect value h)
    · cases h
  | cardinality pipe operand =>
    rw [eval] at h
    rcases Eval.bind_eq_error h with h | ⟨v, between, value, h⟩
    · exact .inr ⟨operand, env, .counted, h⟩
    rcases Eval.bind_eq_error h with h | ⟨s, between', isSet, h⟩
    · obtain ⟨failed, rfl⟩ := Eval.ofExcept_eq_error h
      exact .inl (.counted value (by rw [failed]; rfl))
    · obtain ⟨rfl, rfl⟩ := Eval.expectSet_eq_ok isSet
      obtain ⟨failed, rfl⟩ := Eval.ofExcept_eq_error h
      exact .inl (.counted value failed)
  | call paren callee arguments =>
    rw [eval] at h
    rcases Eval.bind_eq_error h with h | ⟨f, between, called, h⟩
    · exact .inr ⟨callee, env, .callee, h⟩
    rcases Eval.bind_eq_error h with h | ⟨args, after, values, h⟩
    · obtain ⟨earlier, e, later, vs, inside, rfl, before, h⟩ := evalAll_eq_error h
      exact .inr ⟨e, inside, .argument called before, h⟩
    obtain ⟨failed, rfl⟩ := Eval.ofExcept_eq_error h
    exact .inl (.call called values failed)
  | assign name value =>
    rw [eval] at h
    rcases Eval.bind_eq_error h with h | ⟨v, between, new, h⟩
    · exact .inr ⟨value, env, .assigned, h⟩
    rcases Eval.bind_eq_error h with h | ⟨_, _, _, h⟩
    · obtain ⟨unbound, rfl⟩ := Eval.assign_eq_error h
      exact .inl (.assign new unbound)
    · cases h

/-- Evaluating an expression in an environment comes, at some depth, to evaluating a part of it in an environment. -/
inductive Reaches : Expr → Environment → Expr → Environment → Prop where
  | self (e : Expr) (env : Environment) : Reaches e env e env
  | into {e part inner : Expr} {env inside deep : Environment} (enters : e.Enters env part inside)
    (further : Reaches part inside inner deep) : Reaches e env inner deep

/-- A part is smaller than the whole. -/
theorem Enters.sizeOf_lt {e part : Expr} {env inside : Environment} (h : e.Enters env part inside) :
    sizeOf part < sizeOf e := by
  cases h with
  | @element earlier later | @argument _ _ _ earlier later =>
    have smaller : sizeOf part < sizeOf (earlier ++ part :: later) := List.sizeOf_lt_of_mem List.mem_append_cons_self
    simp only [roster.sizeOf_spec, call.sizeOf_spec]
    omega
  | _ => simp +arith

/-- Every fault comes from a part that raises it, and nothing is evaluated behind that. -/
theorem exists_raises {e : Expr} {env final : Environment} {fault : Fault} (h : e.eval env = (.error fault, final)) :
    ∃ part inside, e.Reaches env part inside ∧ part.Raises inside fault final := by
  rcases raises_or_enters h with own | ⟨part, inside, enters, failed⟩
  · exact ⟨e, env, .self e env, own⟩
  · have smaller := enters.sizeOf_lt
    obtain ⟨inner, deep, reaches, raises⟩ := exists_raises failed
    exact ⟨inner, deep, .into enters reaches, raises⟩
  termination_by sizeOf e

end Expr

end SetScript
