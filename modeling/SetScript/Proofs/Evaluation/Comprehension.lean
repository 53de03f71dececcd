import SetScript.Proofs.Evaluation.Frame
import SetScript.Proofs.Evaluation.FreeNames
import SetScript.Proofs.Value.Order
/-!
# The reading of comprehensions

A comprehension goes through its domain in one environment that every iteration changes. If nothing in the result and
the filter writes to a name that these read, then no iteration sees what another one left: the comprehension has the
value, or the fault, that comes of taking each element on its own (`Expr.eval_comprehension_reading`).
-/

namespace SetScript

open Environment (AgreeOn)

/-! ## Environments -/

/-- A change that spares some names keeps the agreement on them. -/
theorem Environment.AgreeOn.framed {names : List String} {effects : List Effect} {env env' after : Environment}
    (h : AgreeOn names env env') (framed : env'.Framed effects after)
    (spared : ∀ name ∈ names, .assigns name ∉ effects ∧ .ranges name ∉ effects) : AgreeOn names env after := by
  intro name hn
  obtain ⟨ha, hr⟩ := spared name hn
  rw [framed.unchanged name ha hr, h name hn]

/-- Once the variable is bound to one value in both, environments agree on it too. -/
theorem Environment.AgreeOn.define_of_others {names : List String} {env env' : Environment} {name : String}
    (h : ∀ other ∈ names, other ≠ name → env.get? other = env'.get? other) (v : Value) :
    AgreeOn names (env.define name v) (env'.define name v) := by
  intro other ho
  rw [get?_define, get?_define]
  split
  · rfl
  · next differ => exact h other ho differ

/-! ## First faults -/

section FirstFault

variable {α β : Type} {f : α → Except Fault β}

theorem mapM_eq_ok {xs : List α} {ys : List β} (h : xs.map f = ys.map .ok) : xs.mapM f = .ok ys := by
  induction xs generalizing ys with
  | nil =>
    obtain rfl := List.map_eq_nil_iff.mp h.symm
    rfl
  | cons x xs ih =>
    obtain ⟨y, ys, rfl, hy, hys⟩ := List.map_eq_cons_iff.mp h.symm
    rw [List.mapM_cons, ← hy, ih hys.symm]
    rfl

theorem mapM_eq_error {earlier later : List α} {x : α} {fault : Fault} (before : ∀ u ∈ earlier, ∃ y, f u = .ok y)
    (h : f x = .error fault) : (earlier ++ x :: later).mapM f = .error fault := by
  induction earlier with
  | nil =>
    rw [List.nil_append, List.mapM_cons, h]
    rfl
  | cons u earlier ih =>
    obtain ⟨⟨y, hy⟩, before⟩ := List.forall_mem_cons.mp before
    rw [List.cons_append, List.mapM_cons, hy, ih before]
    rfl

end FirstFault

/-! ## The loop -/

/-- What an environment gives: nothing if the test fails in it, and otherwise the result in it. -/
def Eval.reading (test : Eval Bool) (result : Eval Value) (env : Environment) : Except Fault (Option Value) :=
  match (test env).1 with
  | .error fault => .error fault
  | .ok false => .ok none
  | .ok true => (result env).1.map some

/-- The result of a computation behind another one. -/
theorem Eval.result_bind {α β : Type} (m : Eval α) (k : α → Eval β) (env : Environment) :
    ((m >>= k) env).1 = (m env).1 >>= fun a => (k a (m env).2).1 := by
  rcases bind_cases m k env with ⟨fault, hf, h⟩ | ⟨a, ha, h⟩
  · rw [h, hf]
    rfl
  · rw [h, ha]
    rfl

/-- The result of the loop, round by round. -/
theorem Eval.result_collect_cons (name : String) (test : Eval Bool) (result : Eval Value) (v : Value) (vs : List Value)
    (env : Environment) :
    (Eval.collect name test result (v :: vs) env).1 =
      (test (env.define name v)).1 >>= fun holds =>
        if holds then
          (result (test (env.define name v)).2).1 >>= fun first =>
            (Eval.collect name test result vs (result (test (env.define name v)).2).2).1.map (first :: ·)
        else (Eval.collect name test result vs (test (env.define name v)).2).1 := by
  have bound : Eval.define name v env = (.ok (), env.define name v) := rfl
  rw [collect, bind_of_ok bound, result_bind]
  refine congrArg ((test (env.define name v)).1 >>= ·) (funext fun holds => ?_)
  cases holds with
  | false => rfl
  | true =>
    simp only [if_true, result_bind]
    refine congrArg ((result (test (env.define name v)).2).1 >>= ·) (funext fun first => ?_)
    cases (Eval.collect name test result vs (result (test (env.define name v)).2).2).1 <;> rfl

section Loop

variable {names : List String} {effects : List Effect} {test : Eval Bool} {result : Eval Value}

/-- The loop gives what its rounds give on their own, all in the environment that it starts in. -/
theorem Eval.collect_reading (ht : DependsOn names test) (hr : DependsOn names result) (ft : Framed effects test)
    (fr : Framed effects result) (spared : ∀ name ∈ names, .assigns name ∉ effects ∧ .ranges name ∉ effects)
    (name : String) (vs : List Value) (start env : Environment)
    (agree : ∀ other ∈ names, other ≠ name → start.get? other = env.get? other) :
    (Eval.collect name test result vs env).1 =
      (vs.mapM fun v => reading test result (start.define name v)).map List.reduceOption := by
  -- The invariant is that the names which are read are as they were at the start, but for the variable.
  induction vs generalizing env with
  | nil => rfl
  | cons v vs ih =>
    have others : ∀ {after : Environment}, AgreeOn names (start.define name v) after →
        ∀ other ∈ names, other ≠ name → start.get? other = after.get? other := by
      intro after h other ho differ
      rw [← h other ho, Environment.get?_define, if_neg differ]
    have here : AgreeOn names (start.define name v) (env.define name v) := .define_of_others agree v
    have tested : AgreeOn names (start.define name v) (test (env.define name v)).2 := here.framed (ft _) spared
    have done := tested.framed (fr _) spared
    rw [result_collect_cons, ih _ (others tested), ih _ (others done), List.mapM_cons, reading, (ht _ _ here).1,
      (hr _ _ tested).1]
    generalize (vs.mapM fun v => reading test result (start.define name v)) = readings
    cases (test (env.define name v)).1 with
    | error fault => rfl
    | ok holds =>
      cases holds with
      | false => cases readings <;> rfl
      | true => cases (result (test (env.define name v)).2).1 <;> cases readings <;> rfl

end Loop

/-! ## Comprehensions -/

/-- What an element of a domain comes to on its own, in an environment where the variable is bound to it: the fault of
the filter, nothing where the value of the filter is not true, and otherwise what the result comes to. -/
def Expr.reading (result : Expr) (filter? : Option Expr) (env : Environment) : Except Fault (Option Value) :=
  match filter? with
  | none => (result.eval env).1.map some
  | some filter =>
    match (filter.eval env).1 with
    | .error fault => .error fault
    | .ok v => if v.isTruthy then (result.eval env).1.map some else .ok none

theorem Expr.reading_passes (result : Expr) (filter? : Option Expr) (env : Environment) :
    Eval.reading (passes filter?) result.eval env = result.reading filter? env := by
  cases filter? with
  | none => rfl
  | some filter =>
    have test : (passes (some filter) env).1 = (filter.eval env).1.map Value.isTruthy := by
      rw [passes, Eval.result_bind]
      cases (filter.eval env).1 <;> rfl
    rw [Eval.reading, test, reading]
    cases (filter.eval env).1 with
    | error fault => rfl
    | ok v =>
      simp only [Except.map]
      cases v.isTruthy <;> rfl

section Comprehensions

variable {result domain : Expr} {filter? : Option Expr} {env after : Environment} {s : Members} (bound : Token)

theorem Expr.eval_comprehension_eq_mapM (ranges : domain.eval env = (.ok (.set s), after))
    (unassigned : ∀ name, .assigns name ∉ effects? filter? ++ result.effects)
    (apart : ∀ name, .ranges name ∈ effects? filter? ++ result.effects → name ∉ result.free ++ free? filter?) :
    ((comprehension result bound domain filter?).eval env).1 =
      (s.elements.mapM fun v => result.reading filter? (after.define bound.lexeme v)).map
        fun parts => .set (.ofList parts.reduceOption) := by
  have ht := (passes_dependsOn filter?).mono (List.subset_append_right result.free (free? filter?))
  have hr := (eval_dependsOn result).mono (List.subset_append_left result.free (free? filter?))
  have ft := (passes_framed filter?).mono (List.subset_append_left (effects? filter?) result.effects)
  have fr := (eval_framed result).mono (List.subset_append_right (effects? filter?) result.effects)
  have loop := Eval.collect_reading ht hr ft fr (fun name hn => ⟨unassigned name, fun hm => apart name hm hn⟩)
    bound.lexeme s.elements after after fun _ _ _ => rfl
  simp only [reading_passes] at loop
  rw [eval_comprehension_of_set ranges, Eval.result_bind, loop]
  cases s.elements.mapM fun v => result.reading filter? (after.define bound.lexeme v) <;> rfl

/-- Where nothing in the result and the filter assigns, and no comprehension in them ranges over a name that they read,
a comprehension has its mathematical reading. Each element is taken on its own in the environment that the domain
leaves, with the variable bound to it: the filter is evaluated there and, if its value is true, the result. If all of
these have values, these are the elements of the set, in order and each once; and the first element for which one of
them fails is the one whose fault the comprehension ends with. -/
theorem Expr.eval_comprehension_reading (ranges : domain.eval env = (.ok (.set s), after))
    (unassigned : ∀ name, .assigns name ∉ effects? filter? ++ result.effects)
    (apart : ∀ name, .ranges name ∈ effects? filter? ++ result.effects → name ∉ result.free ++ free? filter?) :
    let outcome := ((comprehension result bound domain filter?).eval env).1
    let reading := fun v => result.reading filter? (after.define bound.lexeme v)
    (∀ parts : List (Option Value), s.elements.map reading = parts.map .ok →
        ∃ t : Members, outcome = .ok (.set t) ∧ t = .ofList parts.reduceOption ∧
          t.elements = parts.reduceOption.eraseDupsBy Value.same) ∧
      ∀ earlier v later fault, s.elements = earlier ++ v :: later → (∀ u ∈ earlier, ∃ part, reading u = .ok part) →
        reading v = .error fault → outcome = .error fault := by
  intro outcome reading
  have eq : outcome = (s.elements.mapM reading).map fun parts => .set (.ofList parts.reduceOption) :=
    eval_comprehension_eq_mapM bound ranges unassigned apart
  constructor
  · intro parts all
    rw [mapM_eq_ok all] at eq
    exact ⟨_, eq, rfl, Members.elements_ofList _⟩
  · intro earlier v later fault split before failed
    rw [split, mapM_eq_error before failed] at eq
    exact eq

end Comprehensions

/-- `{y | y in x}` -/
def eachIn : Expr :=
  .comprehension (.variable (.identifier "y" 1)) (.identifier "y" 2) (.variable (.identifier "x" 1)) none

/-- `{ {y | y in x} | x in d, x }` for two values of `d`. False values and the empty set are no elements for the filter,
and with them the result is not tried, which fails for what is no set. So the first `d` gives a set of one set, and the
second one gives the fault for its third element. -/
theorem Expr.eval_comprehension_reading_eachIn :
    let filter? := some (Expr.variable (.identifier "x" 1))
    let each (d : Members) : Except Fault Value :=
      ((Expr.comprehension eachIn (.identifier "x" 1) (.variable (.identifier "d" 1)) filter?).eval
        (Environment.initial.define "d" (.set d))).1
    (∀ name, .assigns name ∉ effects? filter? ++ eachIn.effects) ∧
      (∀ name, .ranges name ∈ effects? filter? ++ eachIn.effects → name ∉ eachIn.free ++ free? filter?) ∧
      (∃ t : Members, each (.ofList [.bool false, .set .empty, .set (.ofList [.nil])]) = .ok (.set t) ∧
        t.elements = [.set (.ofList [.nil])]) ∧
      each (.ofList [.bool false, .set (.ofList [.nil]), .bool true, .nil]) =
        .error ⟨.typeMismatch "Right operand of 'in' must be a set.", 2⟩ := by
  intro filter? each
  have effects : effects? filter? ++ eachIn.effects = [.ranges "y"] := rfl
  have names : eachIn.free ++ free? filter? = ["x", "x"] := by decide +kernel
  have unassigned : ∀ name, .assigns name ∉ effects? filter? ++ eachIn.effects := by simp [effects]
  have apart : ∀ name, .ranges name ∈ effects? filter? ++ eachIn.effects → name ∉ eachIn.free ++ free? filter? := by
    simp [effects, names]
  have ranges (d : Members) : (Expr.variable (.identifier "d" 1)).eval (Environment.initial.define "d" (.set d)) =
      (.ok (.set d), Environment.initial.define "d" (.set d)) := rfl
  have readings (d : Members) := eval_comprehension_reading (.identifier "x" 1) (ranges d) unassigned apart
  refine ⟨unassigned, apart, ?_, ?_⟩
  · obtain ⟨t, value, -, elements⟩ := (readings (.ofList [.bool false, .set .empty, .set (.ofList [.nil])])).1
      [none, none, some (.set (.ofList [.nil]))] rfl
    exact ⟨t, value, elements⟩
  · refine (readings (.ofList [.bool false, .set (.ofList [.nil]), .bool true, .nil])).2
      [.bool false, .set (.ofList [.nil])] (.bool true) [.nil] _ rfl ?_ rfl
    simp only [List.forall_mem_cons]
    exact ⟨⟨none, rfl⟩, ⟨some (.set (.ofList [.nil])), rfl⟩, nofun⟩

end SetScript
