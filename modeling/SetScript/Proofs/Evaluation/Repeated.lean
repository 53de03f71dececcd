import SetScript.Proofs.Evaluation.Frame
import SetScript.Proofs.Evaluation.FreeNames
/-!
# Evaluating again changes nothing

Evaluation leaves the variables of its comprehensions bound, so it changes the environment even without an assignment.
Where none of these variables is free in the expression, a second evaluation does not see what the first one left, and
binds the same names to the same values once more (`Expr.eval_again`). The table is then the same, not only its values:
it changes by definitions alone (`Expr.eval_redefines`), and definitions that change no value change nothing.
-/

namespace SetScript

/-! ## Definitions one after another -/

namespace Environment

/-- A table of bindings after some updates. -/
def replaceAll (updates bindings : List (String × Value)) : List (String × Value) :=
  updates.foldl (fun table update => replace update.1 update.2 table) bindings

/-- An environment after some definitions. -/
def defineAll (env : Environment) (updates : List (String × Value)) : Environment :=
  ⟨replaceAll updates env.bindings⟩

theorem defineAll_defineAll (env : Environment) (updates more : List (String × Value)) :
    (env.defineAll updates).defineAll more = env.defineAll (updates ++ more) :=
  congrArg Environment.mk List.foldl_append.symm

theorem lookup_replaceAll_of_forall_ne {updates : List (String × Value)} {name : String}
    (h : ∀ update ∈ updates, update.1 ≠ name) (bindings : List (String × Value)) :
    (replaceAll updates bindings).lookup name = bindings.lookup name := by
  induction updates generalizing bindings with
  | nil => rfl
  | cons update updates ih =>
    obtain ⟨other, later⟩ := List.forall_mem_cons.mp h
    exact (ih later _).trans ((lookup_replace ..).trans (if_neg other.symm))

/-- Updates for the name of the first binding stop there, and the others go on to the bindings behind it. -/
theorem exists_replaceAll_cons (updates : List (String × Value)) (name : String) (old : Value)
    (rest : List (String × Value)) :
    ∃ value, replaceAll updates ((name, old) :: rest) =
      (name, value) :: replaceAll (updates.filter (·.1 ≠ name)) rest := by
  induction updates generalizing old rest with
  | nil => exact ⟨old, rfl⟩
  | cons update updates ih =>
    by_cases h : update.1 = name
    · obtain ⟨value, hv⟩ := ih update.2 rest
      refine ⟨value, ?_⟩
      rw [List.filter_cons_of_neg (by simpa using h), ← hv, replaceAll, List.foldl_cons, replace,
        if_pos (by simpa using h)]
      rfl
    · obtain ⟨value, hv⟩ := ih old (replace update.1 update.2 rest)
      refine ⟨value, ?_⟩
      rw [List.filter_cons_of_pos (by simpa using h), replaceAll, List.foldl_cons, replace, if_neg (by simpa using h)]
      exact hv

/-- Updates that leave every value as it was leave the table as it was. -/
theorem replaceAll_eq_self {updates bindings : List (String × Value)}
    (h : ∀ name, (replaceAll updates bindings).lookup name = bindings.lookup name) :
    replaceAll updates bindings = bindings := by
  induction bindings generalizing updates with
  | nil =>
    cases updates with
    | nil => rfl
    | cons update updates =>
      obtain ⟨value, hv⟩ := exists_replaceAll_cons updates update.1 update.2 []
      have new := h update.1
      rw [replaceAll, List.foldl_cons, replace, ← replaceAll, hv, List.lookup_cons_self] at new
      cases new
  | cons binding rest ih =>
    obtain ⟨name, old⟩ := binding
    obtain ⟨value, hv⟩ := exists_replaceAll_cons updates name old rest
    rw [hv] at h ⊢
    have first : value = old := by simpa using h name
    rw [first, ih fun other => ?_]
    by_cases ho : other = name
    · exact lookup_replaceAll_of_forall_ne (by simp [ho]) rest
    · have same := h other
      rwa [List.lookup_cons, List.lookup_cons, beq_false_of_ne ho] at same

theorem eq_of_defineAll {env after : Environment} {updates : List (String × Value)} (h : after = env.defineAll updates)
    (same : ∀ name, after.get? name = env.get? name) : after = env := by
  subst h
  exact congrArg Environment.mk (replaceAll_eq_self same)

end Environment

/-! ## Computations -/

namespace Eval

variable {α β : Type}

/-- A computation changes the environment by definitions alone. -/
def Redefines (m : Eval α) : Prop := ∀ env, ∃ updates, (m env).2 = env.defineAll updates

namespace Redefines

theorem ofExcept (result : Except Fault α) : Redefines (Eval.ofExcept result) := fun _ => ⟨[], rfl⟩

theorem pure (a : α) : Redefines (Pure.pure a : Eval α) := ofExcept (.ok a)

theorem read (name : Token) : Redefines (Eval.read name) := fun _ => ⟨[], rfl⟩

theorem define (name : String) (v : Value) : Redefines (Eval.define name v) := fun _ => ⟨[(name, v)], rfl⟩

theorem assign (name : Token) (v : Value) : Redefines (Eval.assign name v) := by
  intro env
  unfold Eval.assign Environment.assign
  cases env.contains name.lexeme with
  | true => exact ⟨[(name.lexeme, v)], rfl⟩
  | false => exact ⟨[], rfl⟩

theorem bind {m : Eval α} {k : α → Eval β} (hm : Redefines m) (hk : ∀ a, Redefines (k a)) : Redefines (m >>= k) := by
  intro env
  obtain ⟨updates, first⟩ := hm env
  rcases bind_cases m k env with ⟨fault, -, h⟩ | ⟨a, -, h⟩
  · exact ⟨updates, by rw [h, first]⟩
  · obtain ⟨more, second⟩ := hk a (m env).2
    exact ⟨updates ++ more, by rw [h, second, first, Environment.defineAll_defineAll]⟩

theorem collect {test : Eval Bool} {result : Eval Value} (ht : Redefines test) (hr : Redefines result) (name : String)
    (vs : List Value) : Redefines (Eval.collect name test result vs) := by
  induction vs with
  | nil => exact pure []
  | cons v vs ih =>
    refine (define name v).bind fun _ => ht.bind fun holds => ?_
    cases holds with
    | true => exact hr.bind fun first => ih.bind fun others => pure (first :: others)
    | false => exact ih

end Redefines

end Eval

/-! ## Expressions -/

open Eval (Redefines)

mutual

theorem Expr.eval_redefines (e : Expr) : Redefines e.eval := by
  cases e with
  | literal value => exact .pure value.value
  | «variable» name => exact .read name
  | group inner =>
    rw [eval]
    exact eval_redefines inner
  | unary op operator operand =>
    rw [eval]
    exact (eval_redefines operand).bind fun v => .ofExcept _
  | binary op operator left right =>
    rw [eval]
    exact (eval_redefines left).bind fun a => (eval_redefines right).bind fun b => .ofExcept _
  | roster elements =>
    rw [eval]
    exact (evalAll_redefines elements).bind fun vs => .pure _
  | comprehension result bound domain filter? =>
    rw [eval]
    refine (eval_redefines domain).bind fun d => Redefines.bind (.ofExcept _) fun s => ?_
    exact (Redefines.collect (passes_redefines filter?) (eval_redefines result) _ _).bind fun vs => .pure _
  | cardinality pipe operand =>
    rw [eval]
    exact (eval_redefines operand).bind fun v => Redefines.bind (.ofExcept _) fun s => .ofExcept _
  | call paren callee arguments =>
    rw [eval]
    exact (eval_redefines callee).bind fun f => (evalAll_redefines arguments).bind fun args => .ofExcept _
  | assign name value =>
    rw [eval]
    exact (eval_redefines value).bind fun v => (Redefines.assign name v).bind fun _ => .pure v

theorem Expr.evalAll_redefines (es : List Expr) : Redefines (evalAll es) := by
  cases es with
  | nil => exact .pure []
  | cons e es =>
    rw [evalAll]
    exact (eval_redefines e).bind fun v => (evalAll_redefines es).bind fun vs => .pure _

theorem Expr.passes_redefines (e? : Option Expr) : Redefines (passes e?) := by
  cases e? with
  | none => exact .pure true
  | some e =>
    rw [passes]
    exact (eval_redefines e).bind fun v => .pure _

end

/-- An expression without assignments, in which no comprehension ranges over a free name, can be evaluated twice: where
the first evaluation ends, a second one has the same outcome and leaves the environment as it is. -/
theorem Expr.eval_again (e : Expr) (env : Environment) (unassigned : ∀ name, .assigns name ∉ e.effects)
    (apart : ∀ name, .ranges name ∈ e.effects → name ∉ e.free) : e.eval (e.eval env).2 = e.eval env := by
  -- The first evaluation spares the free names, so the second one goes the same way.
  have agree : ∀ name ∈ e.free, env.get? name = (e.eval env).2.get? name := fun name hn =>
    ((e.eval_framed env).unchanged name (unassigned name) fun hm => apart name hm hn).symm
  obtain ⟨outcome, changed⟩ := e.eval_dependsOn env _ agree
  obtain ⟨updates, defined⟩ := e.eval_redefines (e.eval env).2
  refine Prod.ext outcome.symm (Environment.eq_of_defineAll defined fun name => ?_)
  rcases changed name with ⟨-, kept⟩ | ⟨v, first, second⟩
  · exact kept
  · rw [first, second]

/-- `{ -y | y in d, {x | x in {y}} == {y} }` -/
def opposites : Expr :=
  .comprehension (.unary .negate ⟨.minus, "-", none, 1⟩ (.variable (.identifier "y" 1))) (.identifier "y" 1)
    (.variable (.identifier "d" 1))
    (some (.binary .equal ⟨.equalEqual, "==", none, 1⟩
      (.comprehension (.variable (.identifier "x" 1)) (.identifier "x" 1)
        (.roster [.variable (.identifier "y" 1)]) none)
      (.roster [.variable (.identifier "y" 1)])))

/-- The second element of `d` has no opposite. Both variables are left bound to it, also by the second evaluation. -/
theorem Expr.eval_again_opposites :
    let env := Environment.initial.define "d" (.set (.ofList [.number 1.0, .string "s"]))
    (∀ name, .assigns name ∉ opposites.effects) ∧ (∀ name, .ranges name ∈ opposites.effects → name ∉ opposites.free) ∧
      (opposites.eval env).1 = .error ⟨.typeMismatch "Operand must be a number.", 1⟩ ∧
      (opposites.eval env).2 = (env.define "y" (.string "s")).define "x" (.string "s") ∧
      opposites.eval (opposites.eval env).2 = opposites.eval env := by
  intro env
  have effects : opposites.effects = [.ranges "y", .ranges "x"] := rfl
  have names : opposites.free = ["d"] := by decide +kernel
  have unassigned : ∀ name, .assigns name ∉ opposites.effects := by simp [effects]
  have apart : ∀ name, .ranges name ∈ opposites.effects → name ∉ opposites.free := by simp [effects, names]
  exact ⟨unassigned, apart, rfl, rfl, opposites.eval_again env unassigned apart⟩

end SetScript
