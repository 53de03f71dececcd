import SetScript.Proofs.Evaluation.Computation
/-!
# What evaluation leaves alone

Wherever evaluation of an expression ends, the names that were bound are still bound, the only ones with another value
are those that the expression assigns or a comprehension in it ranges over, and the only new ones are of the latter
kind (`Expr.eval_framed`). An assignment needs a name that is bound already.
-/

namespace SetScript

/-- A way in which an expression can change the table of names. -/
inductive Effect where
  /-- A bound name gets a new value. -/
  | assigns (name : String)
  /-- A name is bound to the elements that a comprehension ranges over. -/
  | ranges (name : String)
  deriving DecidableEq

mutual

/-- The effects that an expression can have, in any of its parts. -/
def Expr.effects : Expr → List Effect
  | .literal _ | .variable _ => []
  | .group inner => inner.effects
  | .unary _ _ operand => operand.effects
  | .binary _ _ left right => left.effects ++ right.effects
  | .roster elements => Expr.effectsAll elements
  | .comprehension result bound domain filter? =>
    domain.effects ++ .ranges bound.lexeme :: (Expr.effects? filter? ++ result.effects)
  | .cardinality _ operand => operand.effects
  | .call _ callee arguments => callee.effects ++ Expr.effectsAll arguments
  | .assign name value => .assigns name.lexeme :: value.effects

/-- The effects of some expressions. -/
def Expr.effectsAll : List Expr → List Effect
  | [] => []
  | e :: es => e.effects ++ Expr.effectsAll es

/-- The effects of an expression that may not be there. -/
def Expr.effects? : Option Expr → List Effect
  | none => []
  | some e => e.effects

end

/-! ## Environments -/

namespace Environment

/-- One environment comes from another by no more than some effects: what was bound is still bound, names without an
effect are as they were, and a new name is one that a comprehension ranges over. -/
structure Framed (effects : List Effect) (env after : Environment) : Prop where
  kept : ∀ name, env.contains name = true → after.contains name = true
  unchanged : ∀ name, .assigns name ∉ effects → .ranges name ∉ effects → after.get? name = env.get? name
  new : ∀ name, env.contains name = false → after.contains name = true → .ranges name ∈ effects

variable {effects : List Effect} {env after later : Environment}

theorem contains_define (env : Environment) (name : String) (v : Value) (other : String) :
    (env.define name v).contains other = (other == name || env.contains other) := by
  rw [contains, contains, get?_define]
  by_cases h : other = name <;> simp [h]

theorem Framed.refl (effects : List Effect) (env : Environment) : Framed effects env env where
  kept _ h := h
  unchanged _ _ _ := rfl
  new _ h h' := by simp [h] at h'

theorem Framed.trans (first : Framed effects env after) (second : Framed effects after later) :
    Framed effects env later where
  kept name h := second.kept name (first.kept name h)
  unchanged name ha hr := (second.unchanged name ha hr).trans (first.unchanged name ha hr)
  new name h h' := by
    cases hm : after.contains name with
    | true => exact first.new name h hm
    | false => exact second.new name hm h'

theorem Framed.mono {more : List Effect} (h : Framed effects env after) (sub : effects ⊆ more) :
    Framed more env after where
  kept := h.kept
  unchanged name ha hr := h.unchanged name (fun hm => ha (sub hm)) fun hm => hr (sub hm)
  new name hn hb := sub (h.new name hn hb)

theorem framed_define (env : Environment) (name : String) (v : Value) :
    Framed [.ranges name] env (env.define name v) where
  kept other h := by rw [contains_define, h, Bool.or_true]
  unchanged other _ hr := by
    rw [get?_define, if_neg]
    simpa using hr
  new other h h' := by
    rw [contains_define, h, Bool.or_false, beq_iff_eq] at h'
    simp [h']

/-- A new value for a bound name brings in no name. -/
theorem framed_define_of_contains {name : String} (h : env.contains name = true) (v : Value) :
    Framed [.assigns name] env (env.define name v) where
  kept := (framed_define env name v).kept
  unchanged other ha _ := by
    rw [get?_define, if_neg]
    simpa using ha
  new other hn hb := by
    rw [contains_define, hn, Bool.or_false, beq_iff_eq] at hb
    rw [hb, h] at hn
    cases hn

end Environment

/-! ## Computations -/

namespace Eval

variable {α β : Type} {effects : List Effect}

/-- From any environment a computation has no more than some effects, also where it ends with a fault. -/
def Framed (effects : List Effect) (m : Eval α) : Prop := ∀ env : Environment, env.Framed effects (m env).2

theorem Framed.mono {m : Eval α} {more : List Effect} (h : Framed effects m) (sub : effects ⊆ more) :
    Framed more m :=
  fun env => (h env).mono sub

theorem Framed.ofExcept (result : Except Fault α) : Framed effects (Eval.ofExcept result) :=
  fun env => .refl effects env

theorem Framed.pure (a : α) : Framed effects (Pure.pure a : Eval α) := .ofExcept (.ok a)

theorem Framed.read (name : Token) : Framed effects (Eval.read name) := fun env => .refl effects env

theorem Framed.bind {m : Eval α} {k : α → Eval β} (hm : Framed effects m) (hk : ∀ a, Framed effects (k a)) :
    Framed effects (m >>= k) := by
  intro env
  rcases bind_cases m k env with ⟨fault, -, h⟩ | ⟨a, -, h⟩
  · rw [h]
    exact hm env
  · rw [h]
    exact (hm env).trans (hk a _)

theorem Framed.assign (name : Token) (v : Value) : Framed [.assigns name.lexeme] (Eval.assign name v) := by
  intro env
  unfold Eval.assign Environment.assign
  cases h : env.contains name.lexeme with
  | true => exact Environment.framed_define_of_contains h v
  | false => exact .refl _ env

theorem Framed.collect {name : String} {test : Eval Bool} {result : Eval Value} (ht : Framed effects test)
    (hr : Framed effects result) (bound : .ranges name ∈ effects) (vs : List Value) :
    Framed effects (Eval.collect name test result vs) := by
  induction vs with
  | nil => exact .pure []
  | cons v vs ih =>
    have define : Framed effects (Eval.define name v) := fun env =>
      (env.framed_define name v).mono (List.cons_subset.mpr ⟨bound, List.nil_subset _⟩)
    refine define.bind fun _ => ht.bind fun holds => ?_
    cases holds with
    | true => exact hr.bind fun first => ih.bind fun others => .pure (first :: others)
    | false => exact ih

end Eval

/-! ## Expressions -/

open Eval (Framed)

mutual

/-- Evaluation has the effects that stand in the expression and no others. -/
theorem Expr.eval_framed (e : Expr) : Framed e.effects e.eval := by
  cases e with
  | literal value => exact .pure value.value
  | «variable» name => exact .read name
  | group inner =>
    rw [eval, effects]
    exact eval_framed inner
  | unary op operator operand =>
    rw [eval, effects]
    exact (eval_framed operand).bind fun v => .ofExcept _
  | binary op operator left right =>
    rw [eval, effects]
    have hl := (eval_framed left).mono (List.subset_append_left left.effects right.effects)
    have hr := (eval_framed right).mono (List.subset_append_right left.effects right.effects)
    exact hl.bind fun a => hr.bind fun b => .ofExcept _
  | roster elements =>
    rw [eval, effects]
    exact (evalAll_framed elements).bind fun vs => .pure _
  | comprehension result bound domain filter? =>
    rw [eval, effects]
    have hd := (eval_framed domain).mono (List.subset_append_left domain.effects
      (.ranges bound.lexeme :: (effects? filter? ++ result.effects)))
    have hf := (passes_framed filter?).mono (List.subset_append_left (effects? filter?) result.effects)
    have hr := (eval_framed result).mono (List.subset_append_right (effects? filter?) result.effects)
    refine hd.bind fun d => Framed.bind (.ofExcept _) fun s => Framed.bind ?_ fun vs => .pure _
    have loop := Framed.collect (hf.mono (List.subset_cons_self (.ranges bound.lexeme) _))
      (hr.mono (List.subset_cons_self _ _)) List.mem_cons_self s.elements
    exact loop.mono (List.subset_append_right _ _)
  | cardinality pipe operand =>
    rw [eval, effects]
    exact (eval_framed operand).bind fun v => Framed.bind (.ofExcept _) fun s => .ofExcept _
  | call paren callee arguments =>
    rw [eval, effects]
    have hc := (eval_framed callee).mono (List.subset_append_left callee.effects (effectsAll arguments))
    have ha := (evalAll_framed arguments).mono (List.subset_append_right callee.effects (effectsAll arguments))
    exact hc.bind fun f => ha.bind fun args => .ofExcept _
  | assign name value =>
    rw [eval, effects]
    have hv := (eval_framed value).mono (List.subset_cons_self (.assigns name.lexeme) value.effects)
    have target : [.assigns name.lexeme] ⊆ .assigns name.lexeme :: value.effects :=
      List.cons_subset_cons _ (List.nil_subset _)
    exact hv.bind fun v => ((Framed.assign name v).mono target).bind fun _ => .pure v

theorem Expr.evalAll_framed (es : List Expr) : Framed (effectsAll es) (evalAll es) := by
  cases es with
  | nil => exact .pure []
  | cons e es =>
    rw [evalAll, effectsAll]
    have he := (eval_framed e).mono (List.subset_append_left e.effects (effectsAll es))
    have hes := (evalAll_framed es).mono (List.subset_append_right e.effects (effectsAll es))
    exact he.bind fun v => hes.bind fun vs => .pure _

theorem Expr.passes_framed (e? : Option Expr) : Framed (effects? e?) (passes e?) := by
  cases e? with
  | none => exact .pure true
  | some e =>
    rw [passes, effects?]
    exact (eval_framed e).bind fun v => .pure _

end

end SetScript
