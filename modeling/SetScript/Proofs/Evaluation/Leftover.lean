import Mathlib.Data.List.ReduceOption
import SetScript.Proofs.Evaluation.Frame
/-!
# What a comprehension leaves behind

A comprehension binds its variable in the one table of names, and the variable stays bound. It goes through the elements
that its domain had at the start, round by round (`Eval.collect_cases`), whatever the rounds assign. If they spare the
variable, then where evaluation ends it is bound to the element of the last round, also when this round has failed
(`Expr.eval_comprehension_leftover`).
-/

namespace SetScript

/-! ## Rounds -/

namespace Eval

variable {name : String} {test : Eval Bool} {result : Eval Value} {effects : List Effect} {env after : Environment}

/-- One round of a loop: the name is bound to a value and, if the test holds then, the result is evaluated. -/
def round (name : String) (test : Eval Bool) (result : Eval Value) (v : Value) : Eval (Option Value) := do
  define name v
  if ← test then return some (← result) else return none

/-- Rounds for some values that all give something, each in the environment that the one before has left. -/
inductive Runs (round : Value → Eval (Option Value)) :
    Environment → List Value → List (Option Value) → Environment → Prop where
  | nil (env : Environment) : Runs round env [] [] env
  | cons {env between after : Environment} {v : Value} {vs : List Value} {part : Option Value}
    {parts : List (Option Value)} (first : round v env = (.ok part, between))
    (others : Runs round between vs parts after) :
    Runs round env (v :: vs) (part :: parts) after

theorem collect_cons (name : String) (test : Eval Bool) (result : Eval Value) (v : Value) (vs : List Value) :
    collect name test result (v :: vs) = do
      let part ← round name test result v
      return part.toList ++ (← collect name test result vs) := by
  simp only [collect, round, bind_assoc]
  refine bind_congr fun _ => bind_congr fun holds => ?_
  cases holds <;> simp

/-- A loop comes to the end of its values, or to the first round that fails. -/
theorem collect_cases (name : String) (test : Eval Bool) (result : Eval Value) (vs : List Value) (env : Environment) :
    (∃ parts after, Runs (round name test result) env vs parts after ∧
        collect name test result vs env = (.ok parts.reduceOption, after)) ∨
      ∃ earlier v later parts between fault after, vs = earlier ++ v :: later ∧
        Runs (round name test result) env earlier parts between ∧
        round name test result v between = (.error fault, after) ∧
        collect name test result vs env = (.error fault, after) := by
  induction vs generalizing env with
  | nil => exact .inl ⟨[], env, .nil env, rfl⟩
  | cons v vs ih =>
    rw [collect_cons]
    rcases eq_error_or_eq_ok (round name test result v) env with ⟨fault, after, failed⟩ | ⟨part, between, first⟩
    · exact .inr ⟨[], v, vs, [], env, fault, after, rfl, .nil env, failed, bind_of_error failed _⟩
    · rw [bind_of_ok first]
      rcases ih between with
        ⟨parts, after, runs, hc⟩ | ⟨earlier, d, later, parts, last, fault, after, rfl, runs, failed, hc⟩
      · refine .inl ⟨part :: parts, after, .cons first runs, ?_⟩
        rw [bind_of_ok hc]
        cases part <;> rfl
      · exact .inr ⟨v :: earlier, d, later, part :: parts, last, fault, after, rfl, .cons first runs, failed,
          bind_of_error hc _⟩

/-! ## The variable -/

section Variable

variable (ht : Framed effects test) (hr : Framed effects result) (unassigned : .assigns name ∉ effects)
  (unranged : .ranges name ∉ effects)
include ht hr unassigned unranged

/-- However a round ends, the name is still bound to its value. -/
theorem get?_round (v : Value) (env : Environment) : ((round name test result v) env).2.get? name = some v := by
  have bound : define name v env = (.ok (), env.define name v) := rfl
  have rest : Framed effects (do if ← test then return some (← result) else return none : Eval (Option Value)) :=
    ht.bind fun holds => by
      cases holds with
      | true => exact hr.bind fun value => .pure (some value)
      | false => exact .pure none
  rw [round, bind_of_ok bound, (rest _).unchanged name unassigned unranged, Environment.get?_define, if_pos rfl]

theorem Runs.get?_getLast {vs : List Value} {parts : List (Option Value)}
    (runs : Runs (round name test result) env vs parts after) : ∀ last ∈ vs.getLast?, after.get? name = some last := by
  induction runs with
  | nil => simp
  | @cons env between after v vs part parts first others ih =>
    cases others with
    | nil =>
      have kept := get?_round ht hr unassigned unranged v env
      rw [first] at kept
      simpa using kept
    | cons => exact ih

end Variable

end Eval

/-! ## Comprehensions -/

/-- What evaluation of a comprehension leaves behind, when nothing in the result and the filter assigns its variable or
ranges over it. If the domain fails, is no set or is the empty set, this is what the domain left, and no round takes
place. Otherwise there is a round for each element that the domain had at the start. When all of them give something,
the variable is bound to the last element; when one of them fails, the variable is bound to the element of this
round. -/
theorem Expr.eval_comprehension_leftover (result : Expr) (bound : Token) (domain : Expr) (filter? : Option Expr)
    (env : Environment) (unassigned : .assigns bound.lexeme ∉ effects? filter? ++ result.effects)
    (unranged : .ranges bound.lexeme ∉ effects? filter? ++ result.effects) :
    let final := (comprehension result bound domain filter?).eval env
    let round := Eval.round bound.lexeme (passes filter?) result.eval
    (∀ fault after, domain.eval env = (.error fault, after) → final = (.error fault, after)) ∧
      (∀ v after, domain.eval env = (.ok v, after) → (∀ s, v ≠ .set s) →
        final = (.error ⟨.typeMismatch "Right operand of 'in' must be a set.", bound.line⟩, after)) ∧
      (∀ s after, domain.eval env = (.ok (.set s), after) → s.elements = [] →
        final = (.ok (.set (.ofList [])), after)) ∧
      ∀ s after, domain.eval env = (.ok (.set s), after) → s.elements ≠ [] →
        (∃ parts, Eval.Runs round after s.elements parts final.2 ∧ final.1 = .ok (.set (.ofList parts.reduceOption)) ∧
          ∃ last ∈ s.elements.getLast?, final.2.get? bound.lexeme = some last) ∨
        ∃ earlier d later parts between fault, s.elements = earlier ++ d :: later ∧
          Eval.Runs round after earlier parts between ∧ round d between = (.error fault, final.2) ∧
          final.1 = .error fault ∧ final.2.get? bound.lexeme = some d := by
  intro final round
  refine ⟨fun fault after failed => eval_comprehension_of_error failed .., fun v after value noSet =>
    eval_comprehension_of_noSet value noSet .., fun s after ranges empty => eval_comprehension_of_empty ranges empty ..,
    fun s after ranges nonempty => ?_⟩
  have ft := (passes_framed filter?).mono (List.subset_append_left (effects? filter?) result.effects)
  have fr := (eval_framed result).mono (List.subset_append_right (effects? filter?) result.effects)
  have loop : final = _ := eval_comprehension_of_set ranges result bound filter?
  rcases Eval.collect_cases bound.lexeme (passes filter?) result.eval s.elements after with
    ⟨parts, last, runs, hc⟩ | ⟨earlier, d, later, parts, between, fault, last, split, runs, failed, hc⟩
  · rw [Eval.bind_of_ok hc] at loop
    have kept := runs.get?_getLast ft fr unassigned unranged _ (List.getLast?_eq_some_getLast nonempty)
    rw [loop]
    exact .inl ⟨parts, runs, rfl, _, List.getLast?_eq_some_getLast nonempty, kept⟩
  · rw [Eval.bind_of_error hc] at loop
    have kept := Eval.get?_round ft fr unassigned unranged d between
    rw [failed] at kept
    rw [loop]
    exact .inr ⟨earlier, d, later, parts, between, fault, split, runs, failed, rfl, kept⟩

/-- For `{d = {x} | x in d}`: the first round gives `d` another value, and the loop still goes to the second element. -/
theorem Expr.eval_comprehension_leftover_singletons :
    let d : Members := .ofList [.bool true, .string "s"]
    let env := (Environment.initial.define "d" (.set d)).define "x" .nil
    let result : Expr := .assign (.identifier "d" 1) (.roster [.variable (.identifier "x" 1)])
    let final := (Expr.comprehension result (.identifier "x" 1) (.variable (.identifier "d" 1)) none).eval env
    .assigns "x" ∉ effects? none ++ result.effects ∧ .ranges "x" ∉ effects? none ++ result.effects ∧
      (Expr.variable (.identifier "d" 1)).eval env = (.ok (.set d), env) ∧ d.elements = [.bool true, .string "s"] ∧
      (∃ parts, Eval.Runs (Eval.round "x" (passes none) result.eval) env d.elements parts final.2) ∧
      final.2.get? "d" = some (.set (.ofList [.string "s"])) ∧ final.2.get? "x" = some (.string "s") := by
  intro d env result final
  have unassigned : .assigns "x" ∉ effects? none ++ result.effects := by decide
  have unranged : .ranges "x" ∉ effects? none ++ result.effects := by decide
  have ranges : (Expr.variable (.identifier "d" 1)).eval env = (.ok (.set d), env) := rfl
  have elements : d.elements = [.bool true, .string "s"] := rfl
  obtain ⟨-, -, -, rounds⟩ :=
    eval_comprehension_leftover result (.identifier "x" 1) (.variable (.identifier "d" 1)) none env unassigned unranged
  rcases rounds d env ranges (by simp [elements]) with
    ⟨parts, runs, -, last, hl, kept⟩ | ⟨_, _, _, _, _, _, -, -, -, failed, -⟩
  · rw [elements] at hl
    cases hl
    exact ⟨unassigned, unranged, ranges, elements, ⟨parts, runs⟩, rfl, kept⟩
  · cases failed

end SetScript
