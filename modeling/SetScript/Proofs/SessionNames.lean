import SetScript.Proofs.Evaluation.Frame
import SetScript.Proofs.SessionValues
/-!
# The names of a session

No name that is bound is ever lost, and a new name comes in as the variable of a comprehension or by a `let` that is
carried out, however the runs of a session end (`bindings_frame`). Evaluation alone never brings in a name by an
assignment, and it changes no name but those that are assigned or ranged over.
-/

namespace SetScript

/-- A name may come in with a statement: a `let` binds it, whose value is there, or a comprehension ranges over it. -/
def Statement.Introduces (statement : Statement) (env : Environment) (name : String) : Prop :=
  (∃ x value v, statement = .let x value ∧ x.lexeme = name ∧ (value.eval env).1 = .ok v) ∨
    ∃ e, statement.expression? = some e ∧ .ranges name ∈ e.effects

/-- A name may come in with a statement that is reached when statements are executed in order. -/
def Introduced (env : Environment) (statements : List Statement) (name : String) : Prop :=
  ∃ before statement behind, statements = before ++ statement :: behind ∧ (executeAll env before).fault? = none ∧
    statement.Introduces (executeAll env before).environment name

/-- The environment that sources leave when they are run one after another. -/
def environmentAfter (env : Environment) (sources : List String) : Environment :=
  sources.foldl (fun env source => (run env source).environment) env

/-- A name may come in with an accepted source when sources are run one after another. -/
def IntroducedIn (env : Environment) (sources : List String) (name : String) : Prop :=
  ∃ earlier source later, sources = earlier ++ source :: later ∧ (parseSource source).errors = [] ∧
    Introduced (environmentAfter env earlier) (parseSource source).statements name

variable {env env' : Environment} {name : String}

/-! ## Statements -/

theorem Statement.execute_kept (statement : Statement) (h : env.contains name = true) :
    (statement.execute env).2.contains name = true := by
  cases statement with
  | print value | expression value =>
    rw [execute]
    exact ((value.eval_framed.bind fun _ => Eval.Framed.pure _) env).kept name h
  | «let» x value =>
    have after := (value.eval_framed env).kept name h
    rw [execute]
    rcases Eval.bind_cases value.eval _ env with ⟨fault, -, hb⟩ | ⟨v, -, hb⟩ <;> rw [hb]
    · exact after
    · exact ((Environment.framed_define _ x.lexeme v).kept name after)
  | function x parameters body => exact h

theorem Statement.execute_new (statement : Statement) (hn : env.contains name = false)
    (hb : (statement.execute env).2.contains name = true) : statement.Introduces env name := by
  cases statement with
  | print value | expression value =>
    rw [execute] at hb
    exact .inr ⟨value, rfl, ((value.eval_framed.bind fun _ => Eval.Framed.pure _) env).new name hn hb⟩
  | «let» x value =>
    cases hv : (value.eval env).2.contains name with
    | true => exact .inr ⟨value, rfl, (value.eval_framed env).new name hn hv⟩
    | false =>
      rw [execute] at hb
      rcases Eval.bind_cases value.eval _ env with ⟨fault, -, he⟩ | ⟨v, ok, he⟩ <;> rw [he] at hb
      · rw [hv] at hb
        cases hb
      · have bound := (Environment.framed_define _ x.lexeme v).new name hv hb
        have same : name = x.lexeme := by simpa using bound
        exact .inl ⟨x, value, v, rfl, same.symm, ok⟩
  | function x parameters body =>
    rw [show env.contains name = true from hb] at hn
    cases hn

theorem executeAll_kept (statements : List Statement) (h : env.contains name = true) :
    (executeAll env statements).environment.contains name = true := by
  induction statements generalizing env with
  | nil => exact h
  | cons statement statements ih =>
    have after := statement.execute_kept h
    rcases Eval.eq_error_or_eq_ok statement.execute env with ⟨fault, env', hs⟩ | ⟨printed?, env', hs⟩ <;>
      rw [hs] at after <;> rw [executeAll, hs]
    · exact after
    · exact ih after

theorem executeAll_new (statements : List Statement) (hn : env.contains name = false)
    (hb : (executeAll env statements).environment.contains name = true) : Introduced env statements name := by
  induction statements generalizing env with
  | nil =>
    rw [show env.contains name = true from hb] at hn
    cases hn
  | cons statement statements ih =>
    have first : (statement.execute env).2.contains name = true → statement.Introduces env name :=
      statement.execute_new hn
    rcases Eval.eq_error_or_eq_ok statement.execute env with ⟨fault, env', hs⟩ | ⟨printed?, env', hs⟩ <;>
      rw [hs] at first <;> rw [executeAll, hs] at hb
    · exact ⟨[], statement, statements, rfl, rfl, first hb⟩
    · cases hv : env'.contains name with
      | true => exact ⟨[], statement, statements, rfl, rfl, first hv⟩
      | false =>
        obtain ⟨before, other, behind, rfl, reached, brings⟩ := ih hv hb
        refine ⟨statement :: before, other, behind, rfl, ?_, ?_⟩
        · rw [executeAll, hs]
          exact reached
        · rw [executeAll, hs]
          exact brings

/-! ## Runs -/

theorem run_kept (source : String) (h : env.contains name = true) :
    (run env source).environment.contains name = true := by
  unfold run
  dsimp only
  split
  · exact executeAll_kept _ h
  · exact h

theorem run_new (source : String) (hn : env.contains name = false)
    (hb : (run env source).environment.contains name = true) :
    (parseSource source).errors = [] ∧ Introduced env (parseSource source).statements name := by
  unfold run at hb
  dsimp only at hb
  split at hb
  · next accepted => exact ⟨List.isEmpty_iff.mp accepted, executeAll_new _ hn hb⟩
  · rw [show env.contains name = true from hb] at hn
    cases hn

theorem environmentAfter_kept (sources : List String) (h : env.contains name = true) :
    (environmentAfter env sources).contains name = true := by
  induction sources generalizing env with
  | nil => exact h
  | cons source sources ih => exact ih (run_kept source h)

theorem environmentAfter_new (sources : List String) (hn : env.contains name = false)
    (hb : (environmentAfter env sources).contains name = true) : IntroducedIn env sources name := by
  induction sources generalizing env with
  | nil =>
    rw [show env.contains name = true from hb] at hn
    cases hn
  | cons source sources ih =>
    cases hv : (run env source).environment.contains name with
    | true =>
      obtain ⟨accepted, brings⟩ := run_new source hn hv
      exact ⟨[], source, sources, rfl, accepted, brings⟩
    | false =>
      obtain ⟨earlier, other, later, rfl, rest⟩ := ih hv hb
      exact ⟨source :: earlier, other, later, rfl, rest⟩

/-! ## Main theorem -/

/-- Wherever evaluation ends, a bound name is still bound, a name that is neither assigned nor ranged over is as it
was, and a new name is the variable of a comprehension. So however runs end, none of them loses a name, and each new
name comes from a `let` that is carried out or from a comprehension. -/
theorem bindings_frame :
    (∀ (e : Expr) (env : Environment),
      (∀ name, env.contains name = true → (e.eval env).2.contains name = true) ∧
        (∀ name, .assigns name ∉ e.effects → .ranges name ∉ e.effects →
          (e.eval env).2.get? name = env.get? name) ∧
        ∀ name, env.contains name = false → (e.eval env).2.contains name = true → .ranges name ∈ e.effects) ∧
      ∀ (env : Environment) (earlier later : List String) (name : String),
        ((environmentAfter env earlier).contains name = true →
          (environmentAfter env (earlier ++ later)).contains name = true) ∧
          (env.contains name = false → (environmentAfter env (earlier ++ later)).contains name = true →
            IntroducedIn env (earlier ++ later) name) := by
  refine ⟨fun e env => ?_, fun env earlier later name => ⟨fun h => ?_, environmentAfter_new _⟩⟩
  · have framed := e.eval_framed env
    exact ⟨framed.kept, framed.unchanged, framed.new⟩
  · have behind := environmentAfter_kept later h
    rwa [environmentAfter, environmentAfter, ← List.foldl_append] at behind

/-- A sum for each of two elements, of which the second is no number, and its element is assigned before that. -/
def seenSums : Expr :=
  .comprehension
    (.binary .add ⟨.plus, "+", none, 1⟩
      (.group (.assign (.identifier "seen" 1) (.variable (.identifier "x" 1)))) (.literal (.number 1.0)))
    (.identifier "x" 1) (.roster [.literal (.number 1.0), .literal (.bool true)]) none

/-- The same in a session, behind a source that is rejected. -/
def seenSources : List String :=
  ["let seen = 0; let", "print \x7b(seen = x) + 1 | x in \x7b1, true\x7d\x7d; let late = 2;"]

theorem bindings_frame_seen :
    let env := Environment.initial.define "seen" .nil
    let after := (seenSums.eval env).2
    let early := environmentAfter .initial ["let seen = 0;"]
    (seenSums.eval env).1 = .error ⟨.typeMismatch "Operands must be numbers.", 1⟩ ∧
      (env.contains "seen" = true ∧ after.contains "seen" = true) ∧
      (.assigns "max" ∉ seenSums.effects ∧ .ranges "max" ∉ seenSums.effects ∧
        after.get? "max" = env.get? "max") ∧
      (env.contains "x" = false ∧ after.contains "x" = true ∧ .ranges "x" ∈ seenSums.effects) ∧
      (early.contains "seen" = true ∧ (environmentAfter early seenSources).contains "seen" = true) ∧
      (early.contains "x" = false ∧ (environmentAfter early seenSources).contains "x" = true ∧
        IntroducedIn early seenSources "x") := by
  intro env after early
  obtain ⟨kept, unchanged, new⟩ := bindings_frame.1 seenSums env
  have seen : env.contains "seen" = true := rfl
  have unassigned : .assigns "max" ∉ seenSums.effects := by decide
  have unranged : .ranges "max" ∉ seenSums.effects := by decide
  have fresh : env.contains "x" = false := rfl
  have bound : after.contains "x" = true := rfl
  have declared : early.contains "seen" = true := by decide +kernel
  have fresh' : early.contains "x" = false := by decide +kernel
  have bound' : (environmentAfter early seenSources).contains "x" = true := by decide +kernel
  refine ⟨rfl, ⟨seen, kept "seen" seen⟩, ⟨unassigned, unranged, unchanged "max" unassigned unranged⟩,
    ⟨fresh, bound, new "x" fresh bound⟩, ⟨declared, ?_⟩, ⟨fresh', bound', ?_⟩⟩
  · exact (bindings_frame.2 early [] seenSources "seen").1 declared
  · exact (bindings_frame.2 early [] seenSources "x").2 fresh' bound'

end SetScript
