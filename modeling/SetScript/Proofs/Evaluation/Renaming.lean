import SetScript.Proofs.Evaluation.Computation
/-!
# Renaming the variable of a comprehension

There are no scopes, so another variable for a comprehension means another name in the one table. Still it makes no
difference but for these two names, whatever they were bound to before (`Expr.eval_comprehension_rename`). With the
variable bound under the one name or under the other, evaluation goes the same way (`Expr.eval_rename`).
-/

namespace SetScript

/-! ## Names in expressions -/

/-- A name with `y` for `x`. -/
def Token.rename (x y : String) (name : Token) : Token :=
  { name with lexeme := if name.lexeme = x then y else name.lexeme }

theorem Token.rename_self {x y : String} {name : Token} (h : name.lexeme = x) : (name.rename x y).lexeme = y := if_pos h

theorem Token.rename_of_ne {x y : String} {name : Token} (h : name.lexeme ≠ x) : name.rename x y = name := by
  rw [rename, if_neg h]

mutual

/-- An expression with `y` for `x`, wherever it reads the name, assigns it or ranges over it. -/
def Expr.rename (x y : String) : Expr → Expr
  | .literal value => .literal value
  | .variable name => .variable (name.rename x y)
  | .group inner => .group (inner.rename x y)
  | .unary op operator operand => .unary op operator (operand.rename x y)
  | .binary op operator left right => .binary op operator (left.rename x y) (right.rename x y)
  | .roster elements => .roster (Expr.renames x y elements)
  | .comprehension result bound domain filter? =>
    .comprehension (result.rename x y) (bound.rename x y) (domain.rename x y) (Expr.rename? x y filter?)
  | .cardinality pipe operand => .cardinality pipe (operand.rename x y)
  | .call paren callee arguments => .call paren (callee.rename x y) (Expr.renames x y arguments)
  | .assign name value => .assign (name.rename x y) (value.rename x y)

def Expr.renames (x y : String) : List Expr → List Expr
  | [] => []
  | e :: es => e.rename x y :: Expr.renames x y es

def Expr.rename? (x y : String) : Option Expr → Option Expr
  | none => none
  | some e => some (e.rename x y)

end

mutual

/-- The names that occur in an expression. -/
def Expr.names : Expr → List String
  | .literal _ => []
  | .variable name => [name.lexeme]
  | .group inner => inner.names
  | .unary _ _ operand => operand.names
  | .binary _ _ left right => left.names ++ right.names
  | .roster elements => Expr.namesOfAll elements
  | .comprehension result bound domain filter? =>
    result.names ++ bound.lexeme :: (domain.names ++ Expr.namesOf? filter?)
  | .cardinality _ operand => operand.names
  | .call _ callee arguments => callee.names ++ Expr.namesOfAll arguments
  | .assign name value => name.lexeme :: value.names

def Expr.namesOfAll : List Expr → List String
  | [] => []
  | e :: es => e.names ++ Expr.namesOfAll es

def Expr.namesOf? : Option Expr → List String
  | none => []
  | some e => e.names

end

/-! ## Environments -/

namespace Environment

/-- Two environments bind alike what is neither `x` nor `y`. -/
def SameBut (x y : String) (env env' : Environment) : Prop :=
  ∀ name, name ≠ x → name ≠ y → env.get? name = env'.get? name

/-- And what the one binds to `x`, the other one binds to `y`. -/
structure Renamed (x y : String) (env env' : Environment) : Prop where
  bound : ∃ v, env.get? x = some v ∧ env'.get? y = some v
  others : SameBut x y env env'

variable {x y : String} {env env' : Environment}

theorem SameBut.define (h : SameBut x y env env') (v : Value) : Renamed x y (env.define x v) (env'.define y v) where
  bound := ⟨v, by rw [get?_define, if_pos rfl], by rw [get?_define, if_pos rfl]⟩
  others name hx hy := by rw [get?_define, get?_define, if_neg hx, if_neg hy, h name hx hy]

theorem Renamed.define (h : Renamed x y env env') {name : Token} (fresh : name.lexeme ≠ y) (v : Value) :
    Renamed x y (env.define name.lexeme v) (env'.define (name.rename x y).lexeme v) := by
  by_cases hx : name.lexeme = x
  · rw [Token.rename_self hx, hx]
    exact h.others.define v
  · rw [Token.rename_of_ne hx]
    obtain ⟨w, first, second⟩ := h.bound
    refine ⟨⟨w, ?_, ?_⟩, fun other ho ho' => ?_⟩
    · rw [get?_define, if_neg (Ne.symm hx), first]
    · rw [get?_define, if_neg (Ne.symm fresh), second]
    · rw [get?_define, get?_define, h.others other ho ho']

/-- Under its new name, a name is bound to what it was bound to. -/
theorem Renamed.get?_rename (h : Renamed x y env env') {name : Token} (fresh : name.lexeme ≠ y) :
    env'.get? (name.rename x y).lexeme = env.get? name.lexeme := by
  by_cases hx : name.lexeme = x
  · obtain ⟨v, first, second⟩ := h.bound
    rw [Token.rename_self hx, hx, first, second]
  · rw [Token.rename_of_ne hx, h.others name.lexeme hx fresh]

/-- A name that is not bound is not renamed, so the fault for it is the same. -/
theorem Renamed.rename_of_unbound (h : Renamed x y env env') {name : Token}
    (unbound : env.contains name.lexeme = false) :
    name.rename x y = name := by
  refine Token.rename_of_ne fun hx => ?_
  obtain ⟨v, first, -⟩ := h.bound
  rw [contains, hx, first] at unbound
  cases unbound

end Environment

open Environment (SameBut Renamed)

/-! ## Computations -/

namespace Eval

variable {α β : Type} {R S : Environment → Environment → Prop}

/-- From environments in one relation, two computations end alike and leave environments in another one. -/
def Simulates (R S : Environment → Environment → Prop) (m m' : Eval α) : Prop :=
  ∀ env env', R env env' → (m env).1 = (m' env').1 ∧ S (m env).2 (m' env').2

namespace Simulates

theorem ofExcept (result : Except Fault α) : Simulates R R (Eval.ofExcept result) (Eval.ofExcept result) :=
  fun _ _ h => ⟨rfl, h⟩

theorem pure (a : α) : Simulates R R (Pure.pure a : Eval α) (Pure.pure a) := ofExcept (.ok a)

theorem bind {m m' : Eval α} {k k' : α → Eval β} (hm : Simulates R S m m') (hk : ∀ a, Simulates S S (k a) (k' a)) :
    Simulates R S (m >>= k) (m' >>= k') := by
  intro env env' h
  obtain ⟨same, after⟩ := hm env env' h
  rcases bind_cases_of_same same k k' with ⟨fault, first, second⟩ | ⟨a, first, second⟩ <;> rw [first, second]
  · exact ⟨rfl, after⟩
  · exact hk a _ _ after

section Collect

variable {name name' : String} {test test' : Eval Bool} {result result' : Eval Value}

theorem collect_cons {v : Value} {vs : List Value} (hd : Simulates R S (define name v) (define name' v))
    (ht : Simulates S S test test') (hr : Simulates S S result result')
    (later : Simulates S S (Eval.collect name test result vs) (Eval.collect name' test' result' vs)) :
    Simulates R S (Eval.collect name test result (v :: vs)) (Eval.collect name' test' result' (v :: vs)) :=
  hd.bind fun _ => ht.bind fun holds => by
    cases holds with
    | true => exact hr.bind fun first => later.bind fun others => pure (first :: others)
    | false => exact later

theorem collect (hd : ∀ v, Simulates S S (define name v) (define name' v)) (ht : Simulates S S test test')
    (hr : Simulates S S result result') (vs : List Value) :
    Simulates S S (Eval.collect name test result vs) (Eval.collect name' test' result' vs) := by
  induction vs with
  | nil => exact pure []
  | cons v vs ih => exact collect_cons (hd v) ht hr ih

end Collect

section Names

variable {x y : String} {name : Token} (fresh : name.lexeme ≠ y)
include fresh

theorem read : Simulates (Renamed x y) (Renamed x y) (Eval.read name) (Eval.read (name.rename x y)) := by
  intro env env' h
  refine ⟨?_, h⟩
  simp only [Eval.read, Environment.get, h.get?_rename fresh]
  cases hn : env.get? name.lexeme with
  | some v => rfl
  | none => rw [h.rename_of_unbound (by rw [Environment.contains, hn]; rfl)]

theorem define (v : Value) :
    Simulates (Renamed x y) (Renamed x y) (Eval.define name.lexeme v) (Eval.define (name.rename x y).lexeme v) :=
  fun _ _ h => ⟨rfl, h.define fresh v⟩

theorem assign (v : Value) :
    Simulates (Renamed x y) (Renamed x y) (Eval.assign name v) (Eval.assign (name.rename x y) v) := by
  intro env env' h
  have same : env'.contains (name.rename x y).lexeme = env.contains name.lexeme := by
    rw [Environment.contains, Environment.contains, h.get?_rename fresh]
  simp only [Eval.assign, Environment.assign, same]
  cases hc : env.contains name.lexeme with
  | true => exact ⟨rfl, h.define fresh v⟩
  | false =>
    rw [h.rename_of_unbound hc]
    exact ⟨rfl, h⟩

end Names

end Simulates

end Eval

/-! ## Expressions -/

open Eval (Simulates)

section Expressions

variable {x y : String}

mutual

theorem Expr.eval_rename (e : Expr) (fresh : y ∉ e.names) :
    Simulates (Renamed x y) (Renamed x y) e.eval (e.rename x y).eval := by
  cases e with
  | literal value => exact .pure value.value
  | «variable» name => exact .read (List.ne_of_not_mem_cons fresh).symm
  | group inner =>
    rw [rename, eval, eval]
    exact eval_rename inner fresh
  | unary op operator operand =>
    rw [rename, eval, eval]
    exact (eval_rename operand fresh).bind fun v => .ofExcept _
  | binary op operator left right =>
    simp only [names, List.mem_append, not_or] at fresh
    obtain ⟨freshl, freshr⟩ := fresh
    rw [rename, eval, eval]
    exact (eval_rename left freshl).bind fun a => (eval_rename right freshr).bind fun b => .ofExcept _
  | roster elements =>
    rw [rename, eval, eval]
    exact (evalAll_rename elements fresh).bind fun vs => .pure _
  | comprehension result bound domain filter? =>
    simp only [names, List.mem_append, List.mem_cons, not_or] at fresh
    obtain ⟨freshr, freshb, freshd, freshf⟩ := fresh
    rw [rename, eval, eval]
    refine (eval_rename domain freshd).bind fun d => Simulates.bind (.ofExcept _) fun s => ?_
    refine Simulates.bind ?_ fun vs => .pure _
    exact .collect (.define (Ne.symm freshb)) (passes_rename filter? freshf) (eval_rename result freshr) s.elements
  | cardinality pipe operand =>
    rw [rename, eval, eval]
    exact (eval_rename operand fresh).bind fun v => Simulates.bind (.ofExcept _) fun s => .ofExcept _
  | call paren callee arguments =>
    simp only [names, List.mem_append, not_or] at fresh
    obtain ⟨freshc, fresha⟩ := fresh
    rw [rename, eval, eval]
    exact (eval_rename callee freshc).bind fun f => (evalAll_rename arguments fresha).bind fun args => .ofExcept _
  | assign name value =>
    rw [rename, eval, eval]
    refine (eval_rename value (List.not_mem_of_not_mem_cons fresh)).bind fun v => ?_
    exact (Simulates.assign (List.ne_of_not_mem_cons fresh).symm v).bind fun _ => .pure v

theorem Expr.evalAll_rename (es : List Expr) (fresh : y ∉ namesOfAll es) :
    Simulates (Renamed x y) (Renamed x y) (evalAll es) (evalAll (renames x y es)) := by
  cases es with
  | nil => exact .pure []
  | cons e es =>
    simp only [namesOfAll, List.mem_append, not_or] at fresh
    obtain ⟨freshe, freshes⟩ := fresh
    rw [renames, evalAll, evalAll]
    exact (eval_rename e freshe).bind fun v => (evalAll_rename es freshes).bind fun vs => .pure _

theorem Expr.passes_rename (e? : Option Expr) (fresh : y ∉ namesOf? e?) :
    Simulates (Renamed x y) (Renamed x y) (passes e?) (passes (rename? x y e?)) := by
  cases e? with
  | none => exact .pure true
  | some e =>
    rw [rename?, passes, passes]
    exact (eval_rename e fresh).bind fun v => .pure _

end

end Expressions

/-! ## Comprehensions -/

section Comprehensions

variable {result : Expr} {bound : Token} {domain : Expr} {filter? : Option Expr} {y : String}

/-- A loop binds the variable before anything else. From then on one name stands for the other. -/
theorem Expr.eval_comprehension_renamed {env after : Environment} {s : Members} (freshr : y ∉ result.names)
    (freshf : y ∉ namesOf? filter?) (ranges : domain.eval env = (.ok (.set s), after)) (nonempty : s.elements ≠ []) :
    let original := (comprehension result bound domain filter?).eval env
    let renamed := (comprehension (result.rename bound.lexeme y) { bound with lexeme := y } domain
      (rename? bound.lexeme y filter?)).eval env
    original.1 = renamed.1 ∧ Renamed bound.lexeme y original.2 renamed.2 := by
  dsimp only
  rw [eval_comprehension_of_set ranges, eval_comprehension_of_set ranges]
  obtain ⟨v, vs, hs⟩ := List.exists_cons_of_ne_nil nonempty
  have first : Simulates (SameBut bound.lexeme y) (Renamed bound.lexeme y) (Eval.define bound.lexeme v)
      (Eval.define y v) :=
    fun _ _ same => ⟨rfl, same.define v⟩
  have again : ∀ w, Simulates (Renamed bound.lexeme y) (Renamed bound.lexeme y) (Eval.define bound.lexeme w)
      (Eval.define y w) := fun w _ _ h => ⟨rfl, h.others.define w⟩
  have ht := passes_rename (x := bound.lexeme) filter? freshf
  have hr := eval_rename (x := bound.lexeme) result freshr
  rw [hs]
  exact (Simulates.collect_cons first ht hr (.collect again ht hr vs)).bind (fun _ => .pure _) after after
    fun _ _ _ => rfl

/-- Another name for the variable of a comprehension, if it occurs in neither the result nor the filter, makes no
difference to its value or fault. Names other than these two are left as they would be otherwise, and if there was an
element to go through, the new variable is left with the value that the old one would have. -/
theorem Expr.eval_comprehension_rename (result : Expr) (bound : Token) (domain : Expr) (filter? : Option Expr)
    (y : String) (fresh : y ∉ result.names ++ namesOf? filter?) (env : Environment) :
    let original := (comprehension result bound domain filter?).eval env
    let renamed := (comprehension (result.rename bound.lexeme y) { bound with lexeme := y } domain
      (rename? bound.lexeme y filter?)).eval env
    renamed.1 = original.1 ∧
      (∀ name, name ≠ bound.lexeme → name ≠ y → renamed.2.get? name = original.2.get? name) ∧
      ∀ s after, domain.eval env = (.ok (.set s), after) → s.elements ≠ [] →
        ∃ v, original.2.get? bound.lexeme = some v ∧ renamed.2.get? y = some v := by
  intro original renamed
  obtain ⟨freshr, freshf⟩ := not_or.mp (mt List.mem_append.mpr fresh)
  -- Without a round nothing is different, and with one the two names stand for each other.
  have loop : ∀ s after, domain.eval env = (.ok (.set s), after) → s.elements ≠ [] →
      original.1 = renamed.1 ∧ Renamed bound.lexeme y original.2 renamed.2 :=
    fun s after ranges nonempty => eval_comprehension_renamed freshr freshf ranges nonempty
  have cases : original = renamed ∨ original.1 = renamed.1 ∧ Renamed bound.lexeme y original.2 renamed.2 := by
    rcases Eval.eq_error_or_eq_ok domain.eval env with ⟨fault, after, failed⟩ | ⟨v, after, value⟩
    · exact .inl ((eval_comprehension_of_error failed ..).trans (eval_comprehension_of_error failed ..).symm)
    · by_cases isSet : ∃ s, v = .set s
      · obtain ⟨s, rfl⟩ := isSet
        by_cases empty : s.elements = []
        · exact .inl ((eval_comprehension_of_empty value empty ..).trans
            (eval_comprehension_of_empty value empty ..).symm)
        · exact .inr (loop s after value empty)
      · have noSet := not_exists.mp isSet
        exact .inl ((eval_comprehension_of_noSet value noSet ..).trans
          (eval_comprehension_of_noSet value noSet _ { bound with lexeme := y } _).symm)
  refine ⟨?_, fun name hx hy => ?_, fun s after ranges nonempty => (loop s after ranges nonempty).2.bound⟩
  · rcases cases with same | ⟨same, -⟩ <;> rw [same]
  · rcases cases with same | ⟨-, after⟩
    · rw [same]
    · exact (after.others name hx hy).symm

end Comprehensions

/-- `{x = {x} | x in x, {x | x in {x}} == {x}}` with `y` for `x`: the domain still reads `x`. -/
theorem Expr.eval_comprehension_rename_everywhere :
    let d : Members := .ofList [.bool true, .string "s"]
    let env := (Environment.initial.define "x" (.set d)).define "y" .nil
    let read (x : String) : Expr := .variable (.identifier x 1)
    let result : Expr := .assign (.identifier "x" 1) (.roster [read "x"])
    let filter : Expr :=
      .binary .equal ⟨.equalEqual, "==", none, 1⟩
        (.comprehension (read "x") (.identifier "x" 1) (.roster [read "x"]) none) (.roster [read "x"])
    let result' : Expr := .assign (.identifier "y" 1) (.roster [read "y"])
    let filter' : Expr :=
      .binary .equal ⟨.equalEqual, "==", none, 1⟩
        (.comprehension (read "y") (.identifier "y" 1) (.roster [read "y"]) none) (.roster [read "y"])
    let original := (Expr.comprehension result (.identifier "x" 1) (read "x") (some filter)).eval env
    let renamed := (Expr.comprehension result' (.identifier "y" 1) (read "x") (some filter')).eval env
    "y" ∉ result.names ++ namesOf? (some filter) ∧ renamed.1 = original.1 ∧
      renamed.2.get? "x" = some (.set d) ∧ original.2.get? "y" = some .nil ∧
      ∃ v, original.2.get? "x" = some v ∧ renamed.2.get? "y" = some v := by
  intro d env read result filter result' filter' original renamed
  have fresh : "y" ∉ result.names ++ namesOf? (some filter) := by decide
  have ranges : (read "x").eval env = (.ok (.set d), env) := rfl
  obtain ⟨outcome, -, last⟩ :=
    eval_comprehension_rename result (.identifier "x" 1) (read "x") (some filter) "y" fresh env
  exact ⟨fresh, outcome, rfl, rfl, last d env ranges (by decide)⟩

end SetScript
