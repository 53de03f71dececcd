import SetScript.Proofs.Evaluation.Computation
/-!
# Evaluation depends only on the free names

All names are in one table, and the variables of comprehensions stay in it. Still the outcome of an expression depends
on its free names alone, and whatever it leaves bound is the same wherever these are the same (`Expr.eval_free`): what
is not free is written before it is read.
-/

namespace SetScript

mutual

/-- The names that an expression reads or assigns. The variable of a comprehension is not free in the result and in the
filter. -/
def Expr.free : Expr → List String
  | .literal _ => []
  | .variable name => [name.lexeme]
  | .group inner => inner.free
  | .unary _ _ operand => operand.free
  | .binary _ _ left right => left.free ++ right.free
  | .roster elements => Expr.frees elements
  | .comprehension result bound domain filter? =>
    domain.free ++ (result.free ++ Expr.free? filter?).filter (· ≠ bound.lexeme)
  | .cardinality _ operand => operand.free
  | .call _ callee arguments => callee.free ++ Expr.frees arguments
  | .assign name value => name.lexeme :: value.free

/-- The free names of some expressions. -/
def Expr.frees : List Expr → List String
  | [] => []
  | e :: es => e.free ++ Expr.frees es

/-- The free names of an expression that may not be there. -/
def Expr.free? : Option Expr → List String
  | none => []
  | some e => e.free

end

/-! ## Two environments -/

namespace Environment

/-- Two environments bind some names alike, or both do not bind them. -/
def AgreeOn (names : List String) (env env' : Environment) : Prop := ∀ name ∈ names, env.get? name = env'.get? name

/-- Two environments have changed alike: each name is bound in both as it was before, or in both to one value. -/
def ChangedAlike (env env' after after' : Environment) : Prop :=
  ∀ name, (after.get? name = env.get? name ∧ after'.get? name = env'.get? name) ∨
    ∃ v, after.get? name = some v ∧ after'.get? name = some v

variable {names : List String} {env env' after after' later later' : Environment}

theorem AgreeOn.mono {fewer : List String} (h : AgreeOn names env env') (sub : fewer ⊆ names) :
    AgreeOn fewer env env' :=
  fun name hn => h name (sub hn)

theorem AgreeOn.changed (h : AgreeOn names env env') (changed : ChangedAlike env env' after after') :
    AgreeOn names after after' := by
  intro name hn
  rcases changed name with ⟨kept, kept'⟩ | ⟨v, bound, bound'⟩
  · rw [kept, kept', h name hn]
  · rw [bound, bound']

theorem AgreeOn.define (h : AgreeOn names env env') (name : String) (v : Value) :
    AgreeOn (name :: names) (env.define name v) (env'.define name v) := by
  intro other ho
  rw [get?_define, get?_define]
  split
  · rfl
  · next differ => exact h other ((List.mem_cons.mp ho).resolve_left differ)

theorem ChangedAlike.refl (env env' : Environment) : ChangedAlike env env' env env' := fun _ => .inl ⟨rfl, rfl⟩

theorem ChangedAlike.trans (first : ChangedAlike env env' after after')
    (second : ChangedAlike after after' later later') : ChangedAlike env env' later later' := by
  intro name
  rcases second name with ⟨kept, kept'⟩ | bound
  · rw [kept, kept']
    exact first name
  · exact .inr bound

theorem ChangedAlike.define (env env' : Environment) (name : String) (v : Value) :
    ChangedAlike env env' (env.define name v) (env'.define name v) := by
  intro other
  rw [get?_define, get?_define]
  split
  · exact .inr ⟨v, rfl, rfl⟩
  · exact .inl ⟨rfl, rfl⟩

end Environment

open Environment (AgreeOn ChangedAlike)

/-! ## Computations -/

variable {α β : Type} {names : List String}

/-- In environments that agree on some names, a computation ends alike and changes them alike. -/
def Eval.DependsOn (names : List String) (m : Eval α) : Prop :=
  ∀ env env' : Environment, AgreeOn names env env' →
    (m env).1 = (m env').1 ∧ ChangedAlike env env' (m env).2 (m env').2

namespace Eval.DependsOn

theorem mono {m : Eval α} {more : List String} (h : DependsOn names m) (sub : names ⊆ more) : DependsOn more m :=
  fun env env' agree => h env env' (agree.mono sub)

theorem ofExcept (result : Except Fault α) : DependsOn names (Eval.ofExcept result) :=
  fun env env' _ => ⟨rfl, .refl env env'⟩

theorem pure (a : α) : DependsOn names (Pure.pure a : Eval α) := ofExcept (.ok a)

/-- What a computation leaves agrees on the names again, so the next one can depend on the same. -/
theorem bind {m : Eval α} {k : α → Eval β} (hm : DependsOn names m) (hk : ∀ a, DependsOn names (k a)) :
    DependsOn names (m >>= k) := by
  intro env env' agree
  obtain ⟨same, changed⟩ := hm env env' agree
  rcases bind_cases_of_same same k k with ⟨fault, first, second⟩ | ⟨a, first, second⟩ <;> rw [first, second]
  · exact ⟨rfl, changed⟩
  · obtain ⟨same, changed'⟩ := hk a _ _ (agree.changed changed)
    exact ⟨same, changed.trans changed'⟩

theorem read (name : Token) : DependsOn [name.lexeme] (Eval.read name) := by
  intro env env' agree
  refine ⟨?_, .refl env env'⟩
  simp only [Eval.read, Environment.get, agree name.lexeme (List.mem_singleton.mpr rfl)]

theorem assign (name : Token) (v : Value) : DependsOn [name.lexeme] (Eval.assign name v) := by
  intro env env' agree
  have same : env.contains name.lexeme = env'.contains name.lexeme := by
    rw [Environment.contains, Environment.contains, agree name.lexeme (List.mem_singleton.mpr rfl)]
  simp only [Eval.assign, Environment.assign, same]
  cases env'.contains name.lexeme with
  | true => exact ⟨rfl, .define env env' name.lexeme v⟩
  | false => exact ⟨rfl, .refl env env'⟩

/-- A name that is bound first may be depended on. -/
theorem define_bind {m : Eval α} {name : String} (hm : DependsOn (name :: names) m) (v : Value) :
    DependsOn names (Eval.define name v >>= fun _ => m) := by
  intro env env' agree
  obtain ⟨same, changed⟩ := hm _ _ (agree.define name v)
  exact ⟨same, (ChangedAlike.define env env' name v).trans changed⟩

theorem collect {name : String} {test : Eval Bool} {result : Eval Value} (ht : DependsOn (name :: names) test)
    (hr : DependsOn (name :: names) result) (vs : List Value) : DependsOn names (Eval.collect name test result vs) := by
  induction vs with
  | nil => exact pure []
  | cons v vs ih =>
    have ih := ih.mono (List.subset_cons_self name names)
    refine define_bind (ht.bind fun holds => ?_) v
    cases holds with
    | true => exact hr.bind fun first => ih.bind fun others => pure (first :: others)
    | false => exact ih

end Eval.DependsOn

/-! ## Expressions -/

open Eval (DependsOn)

/-- The names of an inner expression, without the variable, are enough once the variable is bound. -/
theorem subset_cons_filter (name : String) {inner names : List String} (sub : inner ⊆ names) :
    inner ⊆ name :: names.filter (· ≠ name) := by
  intro other ho
  by_cases h : other = name
  · exact h ▸ List.mem_cons_self
  · exact List.mem_cons_of_mem _ (List.mem_filter.mpr ⟨sub ho, by simpa using h⟩)

mutual

theorem Expr.eval_dependsOn (e : Expr) : DependsOn e.free e.eval := by
  cases e with
  | literal value => exact .pure value.value
  | «variable» name => exact .read name
  | group inner =>
    rw [eval, free]
    exact eval_dependsOn inner
  | unary op operator operand =>
    rw [eval, free]
    exact (eval_dependsOn operand).bind fun v => .ofExcept _
  | binary op operator left right =>
    rw [eval, free]
    have hl := (eval_dependsOn left).mono (List.subset_append_left left.free right.free)
    have hr := (eval_dependsOn right).mono (List.subset_append_right left.free right.free)
    exact hl.bind fun a => hr.bind fun b => .ofExcept _
  | roster elements =>
    rw [eval, free]
    exact (evalAll_dependsOn elements).bind fun vs => .pure _
  | comprehension result bound domain filter? =>
    rw [eval, free]
    have hd := (eval_dependsOn domain).mono
      (List.subset_append_left domain.free ((result.free ++ free? filter?).filter (· ≠ bound.lexeme)))
    have hr := (eval_dependsOn result).mono
      (subset_cons_filter bound.lexeme (List.subset_append_left result.free (free? filter?)))
    have hf := (passes_dependsOn filter?).mono
      (subset_cons_filter bound.lexeme (List.subset_append_right result.free (free? filter?)))
    refine hd.bind fun d => DependsOn.bind (.ofExcept _) fun s => ?_
    exact ((DependsOn.collect hf hr s.elements).mono (List.subset_append_right _ _)).bind fun vs => .pure _
  | cardinality pipe operand =>
    rw [eval, free]
    exact (eval_dependsOn operand).bind fun v => DependsOn.bind (.ofExcept _) fun s => .ofExcept _
  | call paren callee arguments =>
    rw [eval, free]
    have hc := (eval_dependsOn callee).mono (List.subset_append_left callee.free (frees arguments))
    have ha := (evalAll_dependsOn arguments).mono (List.subset_append_right callee.free (frees arguments))
    exact hc.bind fun f => ha.bind fun args => .ofExcept _
  | assign name value =>
    rw [eval, free]
    have hv := (eval_dependsOn value).mono (List.subset_cons_self name.lexeme value.free)
    have target : [name.lexeme] ⊆ name.lexeme :: value.free := List.cons_subset_cons _ (List.nil_subset _)
    exact hv.bind fun v => ((DependsOn.assign name v).mono target).bind fun _ => .pure v

theorem Expr.evalAll_dependsOn (es : List Expr) : DependsOn (frees es) (evalAll es) := by
  cases es with
  | nil => exact .pure []
  | cons e es =>
    rw [evalAll, frees]
    have he := (eval_dependsOn e).mono (List.subset_append_left e.free (frees es))
    have hes := (evalAll_dependsOn es).mono (List.subset_append_right e.free (frees es))
    exact he.bind fun v => hes.bind fun vs => .pure _

theorem Expr.passes_dependsOn (e? : Option Expr) : DependsOn (free? e?) (passes e?) := by
  cases e? with
  | none => exact .pure true
  | some e =>
    rw [passes, free?]
    exact (eval_dependsOn e).bind fun v => .pure _

end

/-- In two environments that agree on the free names of an expression, its evaluation ends with the same value or the
same fault, and afterwards each name is bound in both as it was before, or in both to the same value. -/
theorem Expr.eval_free (e : Expr) {env env' : Environment} (agree : ∀ name ∈ e.free, env.get? name = env'.get? name) :
    (e.eval env).1 = (e.eval env').1 ∧
      ∀ name,
        ((e.eval env).2.get? name = env.get? name ∧ (e.eval env').2.get? name = env'.get? name) ∨
          ∃ v, (e.eval env).2.get? name = some v ∧ (e.eval env').2.get? name = some v :=
  e.eval_dependsOn env env' agree

/-- The greater of each element and zero, for elements of which the second is no number. -/
def clampedElements : Expr :=
  .comprehension
    (.call ⟨.rightParen, ")", none, 1⟩ (.variable (.identifier "max" 1))
      [.variable (.identifier "x" 1), .literal (.number 0.0)])
    (.identifier "x" 1)
    (.roster [.literal (.number 1.0), .literal (.bool true)]) none

theorem Expr.eval_free_clampedElements :
    let env := Environment.initial.define "x" (.string "old")
    let env' := Environment.initial.define "n" .nil
    (∀ name ∈ clampedElements.free, env.get? name = env'.get? name) ∧
      (clampedElements.eval env).1 = .error ⟨.typeMismatch "Operands must be numbers.", 1⟩ ∧
      (clampedElements.eval env').1 = .error ⟨.typeMismatch "Operands must be numbers.", 1⟩ ∧
      ∃ v, (clampedElements.eval env).2.get? "x" = some v ∧ (clampedElements.eval env').2.get? "x" = some v := by
  intro env env'
  have names : clampedElements.free = ["max"] := by decide +kernel
  have agree : ∀ name ∈ clampedElements.free, env.get? name = env'.get? name := by
    intro name hn
    rw [names, List.mem_singleton] at hn
    subst hn
    rfl
  obtain ⟨same, changed⟩ := clampedElements.eval_free agree
  have fault : (clampedElements.eval env').1 = .error ⟨.typeMismatch "Operands must be numbers.", 1⟩ := rfl
  refine ⟨agree, same.trans fault, fault, ?_⟩
  rcases changed "x" with ⟨-, kept⟩ | bound
  · have : ((clampedElements.eval env').2.get? "x").isSome = true := rfl
    rw [kept] at this
    cases this
  · exact bound

end SetScript
