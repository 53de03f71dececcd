import SetScript.Proofs.Evaluation.Computation
import SetScript.Proofs.Value.Construction
/-!
# Evaluation keeps values well formed

In an environment whose values are well formed, evaluation yields well-formed values and leaves such an environment,
whether it ends well or with a fault (`Expr.eval_keeps`, `Statement.execute_keeps`).
-/

namespace SetScript

variable {α β : Type} {p : α → Prop} {q : β → Prop}

/-! ## Operators and functions -/

/-- If there is a result, it has the property. -/
def Yields (p : α → Prop) (result : Except Fault α) : Prop := ∀ a, result = .ok a → p a

namespace Yields

theorem ok {a : α} (h : p a) : Yields p (.ok a) := by
  rintro b hb
  cases hb
  exact h

theorem error (fault : Fault) : Yields p (.error fault) := fun _ h => nomatch h

theorem bind {result : Except Fault α} {k : α → Except Fault β} (h : Yields p result) (hk : ∀ a, p a → Yields q (k a)) :
    Yields q (result >>= k) := by
  cases result with
  | error fault => exact error fault
  | ok a => exact hk a (h a rfl)

theorem anything (result : Except Fault α) : Yields (fun _ => True) result := fun _ _ => trivial

end Yields

namespace Value

variable {a b : Value}

theorem expectSet_yields (ha : a.WellFormed) (details : String) (line : Nat) :
    Yields Members.WellFormed (a.expectSet details line) := by
  cases a with
  | set s => exact .ok (wellFormed_set.mp ha)
  | _ => exact .error _

end Value

theorem UnaryOp.apply_yields (op : UnaryOp) (v : Value) (line : Nat) : Yields Value.WellFormed (op.apply v line) := by
  cases op with
  | negate => exact (Yields.anything _).bind fun x _ => .ok (Value.wellFormed_number (-x))
  | not => exact .ok (Value.wellFormed_bool _)

namespace BinaryOp

variable {a b : Value}

theorem applyArithmetic_yields (op : BinaryOp) (a b : Value) (line : Nat) :
    Yields Value.WellFormed (op.applyArithmetic a b line) := by
  refine (Yields.anything _).bind fun (x, y) _ => ?_
  cases op.arithmetic? with
  | some f => exact .ok (Value.wellFormed_number (f x y))
  | none => exact .error _

theorem applyOrdering_yields (op : BinaryOp) (a b : Value) (line : Nat) :
    Yields Value.WellFormed (op.applyOrdering a b line) := by
  refine (Yields.anything _).bind fun (x, y) _ => ?_
  cases op.ordering? with
  | some r => exact .ok (Value.wellFormed_bool (r x y))
  | none => exact .error _

theorem setAlgebra?_wellFormed {op : BinaryOp} {f : Members → Members → Value} (h : op.setAlgebra? = some f)
    {s t : Members} (hs : s.WellFormed) (ht : t.WellFormed) : (f s t).WellFormed := by
  cases op with
  | union => cases h; exact Value.wellFormed_set.mpr (hs.union ht)
  | intersect => cases h; exact Value.wellFormed_set.mpr (hs.inter t)
  | subseteq => cases h; exact Value.wellFormed_bool _
  | _ => cases h

theorem applySetAlgebra_yields (op : BinaryOp) (ha : a.WellFormed) (hb : b.WellFormed) (line : Nat) :
    Yields Value.WellFormed (op.applySetAlgebra a b line) := by
  refine (Value.expectSet_yields ha _ line).bind fun s hs => (Value.expectSet_yields hb _ line).bind fun t ht => ?_
  cases h : op.setAlgebra? with
  | some f => exact .ok (setAlgebra?_wellFormed h hs ht)
  | none => exact .error _

theorem applyMembership_yields (v set : Value) (line : Nat) :
    Yields Value.WellFormed (applyMembership v set line) :=
  (Yields.anything _).bind fun _ _ => .ok (Value.wellFormed_bool _)

theorem apply_yields (op : BinaryOp) (ha : a.WellFormed) (hb : b.WellFormed) (line : Nat) :
    Yields Value.WellFormed (op.apply a b line) := by
  cases op with
  | add | sub | mul | div | rem => rw [apply]; exact applyArithmetic_yields _ a b line
  | less | lessEqual | greater | greaterEqual => rw [apply]; exact applyOrdering_yields _ a b line
  | equal | notEqual => exact .ok (Value.wellFormed_bool _)
  | union | intersect | subseteq => rw [apply]; exact applySetAlgebra_yields _ ha hb line
  | member => exact applyMembership_yields a b line

end BinaryOp

theorem countValue_yields (n line : Nat) : Yields Value.WellFormed (countValue n line) := by
  unfold countValue
  cases Number.ofCount? n with
  | some x => exact .ok (Value.wellFormed_number x)
  | none => exact .error _

namespace Builtin

variable (f : Builtin) (args : List Value) (line : Nat)

theorem onNumber_yields (op : Float → Float) : Yields Value.WellFormed (f.onNumber op args line) := by
  unfold onNumber
  split
  · exact (Yields.anything _).bind fun x _ => .ok (Value.wellFormed_number (op x))
  · exact .error _

theorem extremum_yields (pick : Float → Float → Float) : Yields Value.WellFormed (f.extremum pick args line) := by
  unfold extremum
  split
  · exact (Yields.anything _).bind fun (x, y) _ => .ok (Value.wellFormed_number (pick x y))
  · refine (Yields.anything _).bind fun s _ => (Yields.anything _).bind fun xs _ => ?_
    cases xs with
    | nil => exact .error _
    | cons x xs => exact .ok (Value.wellFormed_number (xs.foldl pick x))
  · exact .error _

theorem total_yields : Yields Value.WellFormed (f.total args line) := by
  unfold total
  split
  · exact (Yields.anything _).bind fun s _ => (Yields.anything _).bind fun xs _ => .ok (Value.wellFormed_number _)
  · exact .error _

theorem check_yields : Yields Value.WellFormed (f.check args line) := by
  unfold check
  split
  · split
    · exact .ok Value.wellFormed_nil
    · exact .error _
  · exact .error _

theorem call_yields : Yields Value.WellFormed (f.call args line) := by
  unfold call
  split
  · cases f with
    | sqrt | abs | floor | ceil => exact onNumber_yields _ args line _
    | min | max => exact extremum_yields _ args line _
    | sum => exact total_yields _ args line
    | assert => exact check_yields _ args line
  · exact .error _

end Builtin

theorem Value.call_yields (callee : Value) (args : List Value) (line : Nat) :
    Yields Value.WellFormed (callee.call args line) := by
  cases callee with
  | builtin f => exact f.call_yields args line
  | _ => exact .error _

theorem Literal.value_wellFormed (literal : Literal) : literal.value.WellFormed := by
  cases literal with
  | number x => exact Value.wellFormed_number x
  | bool b => exact Value.wellFormed_bool b
  | string s => exact Value.wellFormed_string s

/-! ## Environments -/

/-- Every name is bound to a well-formed value. -/
def Environment.WellFormed (env : Environment) : Prop := ∀ name v, env.get? name = some v → v.WellFormed

theorem Environment.WellFormed.define {env : Environment} (h : env.WellFormed) (name : String) {v : Value}
    (hv : v.WellFormed) : (env.define name v).WellFormed := by
  intro other w hw
  rw [get?_define] at hw
  split at hw
  · cases hw
    exact hv
  · exact h other w hw

theorem Environment.wellFormed_initial : Environment.initial.WellFormed := by
  intro name v h
  obtain ⟨front, back, split, -⟩ := List.lookup_eq_some_iff.mp h
  have bound : (name, v) ∈ Environment.initial.bindings := by simp [split]
  obtain ⟨f, -, hf⟩ := List.mem_map.mp bound
  cases hf
  exact Value.wellFormed_builtin f

/-! ## Expressions -/

/-- From a well-formed environment a computation leads to a well-formed one, also where it ends with a fault, and its
result has the property. -/
def Eval.Keeps (p : α → Prop) (m : Eval α) : Prop :=
  ∀ env : Environment, env.WellFormed → (m env).2.WellFormed ∧ Yields p (m env).1

namespace Eval.Keeps

theorem after {m : Eval α} (hm : Keeps p m) {env env' : Environment} (henv : env.WellFormed) {result : Except Fault α}
    (h : m env = (result, env')) : env'.WellFormed := by
  have := (hm env henv).1
  rwa [h] at this

theorem result {m : Eval α} (hm : Keeps p m) {env env' : Environment} (henv : env.WellFormed) {a : α}
    (h : m env = (.ok a, env')) : p a :=
  (hm env henv).2 a (by rw [h])

theorem pure {a : α} (h : p a) : Keeps p (Pure.pure a : Eval α) := fun _ henv => ⟨henv, .ok h⟩

theorem ofExcept {result : Except Fault α} (h : Yields p result) : Keeps p (Eval.ofExcept result) :=
  fun _ henv => ⟨henv, h⟩

theorem bind {m : Eval α} {k : α → Eval β} (hm : Keeps p m) (hk : ∀ a, p a → Keeps q (k a)) : Keeps q (m >>= k) := by
  intro env henv
  obtain ⟨hafter, hresult⟩ := hm env henv
  rcases bind_cases m k env with ⟨fault, -, h⟩ | ⟨a, ha, h⟩
  · rw [h]
    exact ⟨hafter, .error fault⟩
  · rw [h]
    exact hk a (hresult a ha) _ hafter

theorem read (name : Token) : Keeps Value.WellFormed (Eval.read name) := by
  intro env henv
  refine ⟨henv, ?_⟩
  unfold Eval.read Environment.get
  cases h : env.get? name.lexeme with
  | some v => exact .ok (henv _ v h)
  | none => exact .error _

theorem define (name : String) {v : Value} (hv : v.WellFormed) : Keeps (fun _ => True) (Eval.define name v) :=
  fun _ henv => ⟨henv.define name hv, .anything _⟩

theorem assign (name : Token) {v : Value} (hv : v.WellFormed) : Keeps (fun _ => True) (Eval.assign name v) := by
  intro env henv
  refine ⟨?_, .anything _⟩
  unfold Eval.assign Environment.assign
  split
  · next h =>
    split at h <;> cases h
    exact henv.define name.lexeme hv
  · exact henv

theorem collect (name : String) {test : Eval Bool} {result : Eval Value} (ht : Keeps (fun _ => True) test)
    (hr : Keeps Value.WellFormed result) {vs : List Value} (hvs : ∀ v ∈ vs, v.WellFormed) :
    Keeps (fun ws => ∀ w ∈ ws, w.WellFormed) (Eval.collect name test result vs) := by
  induction vs with
  | nil => exact .pure (by simp)
  | cons v vs ih =>
    rw [List.forall_mem_cons] at hvs
    refine (define name hvs.1).bind fun _ _ => ht.bind fun holds _ => ?_
    cases holds with
    | true =>
      exact hr.bind fun first hf => (ih hvs.2).bind fun others ho => .pure (List.forall_mem_cons.mpr ⟨hf, ho⟩)
    | false => exact ih hvs.2

end Eval.Keeps

open Eval (Keeps)

mutual

/-- Evaluation yields well-formed values and leaves well-formed environments. -/
theorem Expr.eval_keeps (e : Expr) : Keeps Value.WellFormed e.eval := by
  cases e with
  | literal value => exact .pure value.value_wellFormed
  | «variable» name => exact .read name
  | group inner =>
    rw [eval]
    exact eval_keeps inner
  | unary op operator operand =>
    rw [eval]
    exact (eval_keeps operand).bind fun v _ => .ofExcept (op.apply_yields v operator.line)
  | binary op operator left right =>
    rw [eval]
    exact (eval_keeps left).bind fun a ha => (eval_keeps right).bind fun b hb =>
      .ofExcept (op.apply_yields ha hb operator.line)
  | roster elements =>
    rw [eval]
    exact (evalAll_keeps elements).bind fun vs hvs =>
      .pure (Value.wellFormed_set.mpr (Members.wellFormed_ofList hvs))
  | comprehension result bound domain filter? =>
    rw [eval]
    refine (eval_keeps domain).bind fun d hd => (Keeps.ofExcept (d.expectSet_yields hd _ _)).bind fun s hs => ?_
    exact (Keeps.collect bound.lexeme (passes_keeps filter?) (eval_keeps result) hs.elements).bind fun vs hvs =>
      .pure (Value.wellFormed_set.mpr (Members.wellFormed_ofList hvs))
  | cardinality pipe operand =>
    rw [eval]
    exact (eval_keeps operand).bind fun v _ => (Keeps.ofExcept (Yields.anything _)).bind fun s _ =>
      .ofExcept (countValue_yields _ pipe.line)
  | call paren callee arguments =>
    rw [eval]
    exact (eval_keeps callee).bind fun f _ => (evalAll_keeps arguments).bind fun args _ =>
      .ofExcept (f.call_yields args paren.line)
  | assign name value =>
    rw [eval]
    exact (eval_keeps value).bind fun v hv => (Keeps.assign name hv).bind fun _ _ => .pure hv

theorem Expr.evalAll_keeps (es : List Expr) : Keeps (fun vs => ∀ v ∈ vs, v.WellFormed) (evalAll es) := by
  cases es with
  | nil => exact .pure (by simp)
  | cons e es =>
    rw [evalAll]
    exact (eval_keeps e).bind fun v hv => (evalAll_keeps es).bind fun vs hvs =>
      .pure (List.forall_mem_cons.mpr ⟨hv, hvs⟩)

theorem Expr.passes_keeps (e? : Option Expr) : Keeps (fun _ => True) (passes e?) := by
  cases e? with
  | none => exact .pure trivial
  | some e =>
    rw [passes]
    exact (eval_keeps e).bind fun _ _ => .pure trivial

end

/-- The environment in which a part of an expression comes to be evaluated is well formed. -/
theorem Expr.Enters.wellFormed {e part : Expr} {env inside : Environment} (h : e.Enters env part inside)
    (henv : env.WellFormed) : inside.WellFormed := by
  -- The loop has gone over the elements in front, which are well formed as all of the domain is.
  have loop : ∀ {result domain : Expr} {filter? : Option Expr} {bound : Token} {env' env'' : Environment} {s : Members}
      {earlier later vs : List Value} {v : Value}, domain.eval env = (.ok (.set s), env') →
      s.elements = earlier ++ v :: later →
      Eval.collect bound.lexeme (passes filter?) result.eval earlier env' = (.ok vs, env'') →
      (env''.define bound.lexeme v).WellFormed := by
    intro result domain filter? bound env' env'' s earlier later vs v ranges split before
    have hs := Value.wellFormed_set.mp ((eval_keeps domain).result henv ranges)
    have front : ∀ w ∈ earlier, w.WellFormed := fun w hw => hs.elements w (by simp [split, hw])
    have henv' := (eval_keeps domain).after henv ranges
    have henv'' := (Keeps.collect _ (passes_keeps filter?) (eval_keeps result) front).after henv' before
    exact henv''.define bound.lexeme (hs.elements v (by simp [split]))
  cases h with
  | group | operand | left | domain | counted | callee | assigned => exact henv
  | right before => exact (eval_keeps _).after henv before
  | element before => exact (evalAll_keeps _).after henv before
  | filter ranges split before => exact loop ranges split before
  | result ranges split before passed => exact (passes_keeps _).after (loop ranges split before) passed
  | argument called before => exact (evalAll_keeps _).after ((eval_keeps _).after henv called) before

theorem Statement.execute_keeps (statement : Statement) : Keeps (fun _ => True) statement.execute := by
  cases statement with
  | print value => exact value.eval_keeps.bind fun _ _ => .pure trivial
  | «let» name value =>
    exact value.eval_keeps.bind fun v hv => (Keeps.define name.lexeme hv).bind fun _ _ => .pure trivial
  | function name parameters body => exact .ofExcept (.error _)
  | expression value => exact value.eval_keeps.bind fun _ _ => .pure trivial

end SetScript
