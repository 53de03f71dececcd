import SetScript.Proofs.Cursor.Program
import SetScript.Proofs.Evaluation.Computation
import SetScript.Proofs.Session
import SetScript.Syntax.Equality
/-!
# How a run ends

What is told of a run says how it ended, and what it printed and left is what its statements do in order, up to and
including the first that a fault stops (`run_outcome`). A text that is not in the language is told of and does nothing.
Statements are followed one by one by `Executes`, which knows no statement that goes wrong; that is `Statement.Fails`.
-/

namespace SetScript

/-! ## Execution, step by step -/

/-- A statement prints some texts and leads to an environment, without a fault. -/
inductive Statement.Succeeds : Statement → Environment → List String → Environment → Prop where
  | print {value : Expr} {env after : Environment} {v : Value} (yields : value.eval env = (.ok v, after)) :
    Succeeds (.print value) env [v.text] after
  | let {x : Token} {value : Expr} {env after : Environment} {v : Value} (yields : value.eval env = (.ok v, after)) :
    Succeeds (.let x value) env [] (after.define x.lexeme v)
  | expression {value : Expr} {env after : Environment} {v : Value} (yields : value.eval env = (.ok v, after)) :
    Succeeds (.expression value) env [] after

/-- A statement is stopped by a fault and leaves what its expression has left: it prints nothing, and a `let` binds
nothing. -/
inductive Statement.Fails : Statement → Environment → Fault → Environment → Prop where
  | print {value : Expr} {env after : Environment} {fault : Fault} (stops : value.eval env = (.error fault, after)) :
    Fails (.print value) env fault after
  | let {x : Token} {value : Expr} {env after : Environment} {fault : Fault}
    (stops : value.eval env = (.error fault, after)) : Fails (.let x value) env fault after
  | expression {value : Expr} {env after : Environment} {fault : Fault}
    (stops : value.eval env = (.error fault, after)) : Fails (.expression value) env fault after
  | function {f : Token} {parameters : List Token} {body : Expr} {env : Environment} :
    Fails (.function f parameters body) env
      ⟨.unsupported s!"Function declarations are not supported: '{f.lexeme}'.", f.line⟩ env

/-- Statements print some texts and lead to an environment, one after another and none with a fault. -/
inductive Executes : Environment → List Statement → List String → Environment → Prop where
  | nil {env : Environment} : Executes env [] [] env
  | cons {env middle after : Environment} {statement : Statement} {others : List Statement}
    {printed output : List String} (first : statement.Succeeds env printed middle)
    (rest : Executes middle others output after) : Executes env (statement :: others) (printed ++ output) after

/-- The statement prints. -/
def Statement.isPrint : Statement → Bool
  | .print _ => true
  | _ => false

/-- Each `print` gives one text. -/
theorem Executes.length_output {env after : Environment} {statements : List Statement} {output : List String}
    (h : Executes env statements output after) : output.length = statements.countP Statement.isPrint := by
  induction h with
  | nil => rfl
  | cons first _ ih =>
    rw [List.length_append, ih, List.countP_cons]
    cases first <;> simp [Statement.isPrint, Nat.add_comm]

/-- How the execution of one statement ends. -/
theorem Statement.execute_cases (statement : Statement) (env : Environment) :
    (∃ fault after, statement.execute env = (.error fault, after) ∧ statement.Fails env fault after) ∨
      ∃ printed? after, statement.execute env = (.ok printed?, after) ∧
        statement.Succeeds env printed?.toList after := by
  cases statement with
  | print value =>
    rcases Eval.eq_error_or_eq_ok value.eval env with ⟨fault, after, h⟩ | ⟨v, after, h⟩
    · exact .inl ⟨fault, after, Eval.bind_of_error h _, .print h⟩
    · exact .inr ⟨some v.text, after, Eval.bind_of_ok h _, .print h⟩
  | «let» x value =>
    rcases Eval.eq_error_or_eq_ok value.eval env with ⟨fault, after, h⟩ | ⟨v, after, h⟩
    · exact .inl ⟨fault, after, Eval.bind_of_error h _, .let h⟩
    · exact .inr ⟨none, after.define x.lexeme v, Eval.bind_of_ok h _, .let h⟩
  | function f parameters body => exact .inl ⟨_, env, rfl, .function⟩
  | expression value =>
    rcases Eval.eq_error_or_eq_ok value.eval env with ⟨fault, after, h⟩ | ⟨v, after, h⟩
    · exact .inl ⟨fault, after, Eval.bind_of_error h _, .expression h⟩
    · exact .inr ⟨none, after, Eval.bind_of_ok h _, .expression h⟩

/-- Execution goes through all statements, or up to one that fails, whatever comes behind it. -/
theorem executeAll_cases (env : Environment) (statements : List Statement) :
    let execution := executeAll env statements
    (execution.fault? = none ∧ Executes env statements execution.output execution.environment) ∨
      ∃ before failing later middle fault, statements = before ++ failing :: later ∧
        execution.fault? = some fault ∧ Executes env before execution.output middle ∧
        failing.Fails middle fault execution.environment ∧
        ∀ others, executeAll env (before ++ failing :: others) = execution := by
  induction statements generalizing env with
  | nil => exact .inl ⟨rfl, .nil⟩
  | cons statement statements ih =>
    dsimp only
    rcases statement.execute_cases env with ⟨fault, after, hs, fails⟩ | ⟨printed?, after, hs, succeeds⟩
    · have stops : ∀ others, executeAll env (statement :: others) = ⟨[], some fault, after⟩ := by
        intro others
        rw [executeAll, hs]
      rw [stops]
      exact .inr ⟨[], statement, statements, env, fault, rfl, rfl, .nil, fails, stops⟩
    · have goesOn : ∀ others, executeAll env (statement :: others) =
          { executeAll after others with output := printed?.toList ++ (executeAll after others).output } := by
        intro others
        rw [executeAll, hs]
      rw [goesOn]
      rcases ih after with
        ⟨none, executes⟩ | ⟨before, failing, later, middle, fault, rfl, stopped, executes, fails, same⟩
      · exact .inl ⟨none, .cons succeeds executes⟩
      · refine .inr ⟨statement :: before, failing, later, middle, fault, rfl, stopped, .cons succeeds executes, fails,
          fun others => ?_⟩
        rw [List.cons_append, goesOn, same]

/-! ## Texts in the language -/

/-- Nothing is wrong with the pieces of a text, and its tokens are proper declarations of the grammar whose
expressions are at most 100 levels deep. -/
def InLanguage (source : String) : Prop :=
  textErrors source.toList = [] ∧ ∃ ds : List (Grammar.Derivation .declaration),
    (∀ d ∈ ds, d.Proper ∧ d.depth ≤ 100) ∧ ds.flatMap Grammar.Derivation.tokens = textTokens source.toList

theorem declarations_errors_eq_nil_iff (endLine : Nat) (tokens : List Token) :
    (declarations endLine tokens).errors = [] ↔ ∃ ds : List (Grammar.Derivation .declaration),
      (∀ d ∈ ds, d.Proper ∧ d.depth ≤ 100) ∧ ds.flatMap Grammar.Derivation.tokens = tokens := by
  constructor
  · intro h
    obtain ⟨ds, within, rfl⟩ := Grammar.derivations_of_declarations h
    rw [Grammar.declarations_flatMap within, List.flatMap_eq_nil_iff] at h
    exact ⟨ds, fun d hd => ⟨d.reports_eq_nil_iff.mp (h d hd), within d hd⟩, rfl⟩
  · rintro ⟨ds, proper, rfl⟩
    rw [Grammar.declarations_flatMap fun d hd => (proper d hd).2, List.flatMap_eq_nil_iff]
    exact fun d hd => d.reports_eq_nil_iff.mpr (proper d hd).1

theorem parseSource_errors_eq_nil_iff (source : String) : (parseSource source).errors = [] ↔ InLanguage source := by
  rw [parseSource_eq, List.append_eq_nil_iff, declarations_errors_eq_nil_iff]
  exact Iff.rfl

/-- The flag that reading a text leaves, when the machine has so much fuel: the scanner has found an error, or the
machine has reported one. -/
def hadSyntaxError (fuel : Nat) (source : String) : Bool :=
  !(scan source).errors.isEmpty || (Cursor.parse fuel (scan source).tokens).2.hadError

/-- The flag is raised just when something is reported. -/
theorem hadSyntaxError_eq {source : String} {fuel : Nat} (enough : max (scan source).tokens.length maxNesting < fuel) :
    hadSyntaxError fuel source = !(parseSource source).errors.isEmpty := by
  obtain ⟨-, starts, final, run, ends⟩ := Cursor.parse_ends (scan source).tokens enough
  rw [hadSyntaxError, run, ends.flag, parseSource]
  cases (scan source).errors <;> rfl

theorem hadSyntaxError_iff {source : String} {fuel : Nat} (enough : max (scan source).tokens.length maxNesting < fuel) :
    hadSyntaxError fuel source = true ↔ ¬ InLanguage source := by
  rw [hadSyntaxError_eq enough, Bool.not_eq_true', List.isEmpty_eq_false_iff, ne_eq, parseSource_errors_eq_nil_iff]

/-! ## Main theorem -/

/-- The ways in which a run can end. -/
inductive Ends (env : Environment) (source : String) : Run → Prop where
  | rejected {diagnostics : List Diagnostic} (outside : ¬ InLanguage source) (some : diagnostics ≠ [])
    (reading : ∀ told ∈ diagnostics, told.phase = .reading) :
    Ends env source ⟨.syntaxError, [], diagnostics, env⟩
  | completed {output : List String} {after : Environment} (inside : InLanguage source)
    (executes : Executes env (parseSource source).statements output after) :
    Ends env source ⟨.ok, output, [], after⟩
  | stopped {output : List String} {middle after : Environment} {before later : List Statement} {failing : Statement}
    {fault : Fault} (inside : InLanguage source)
    (split : (parseSource source).statements = before ++ failing :: later)
    (executes : Executes env before output middle) (fails : failing.Fails middle fault after)
    (alone : ∀ other, (parseSource other).errors = [] → before ++ [failing] <+: (parseSource other).statements →
      run env other = ⟨.runtimeError, output, [fault.diagnostic], after⟩) :
    Ends env source ⟨.runtimeError, output, [fault.diagnostic], after⟩

theorem Ends.syntaxError_iff {env : Environment} {source : String} {result : Run} (ends : Ends env source result) :
    result.status = .syntaxError ↔ ¬ InLanguage source := by
  cases ends with
  | rejected outside => exact iff_of_true rfl outside
  | completed inside => exact iff_of_false (by simp) fun outside => outside inside
  | stopped inside => exact iff_of_false (by simp) fun outside => outside inside

theorem run_ends (env : Environment) (source : String) : Ends env source (run env source) := by
  by_cases accepted : (parseSource source).errors = []
  · have inside := (parseSource_errors_eq_nil_iff source).mp accepted
    rw [run_accepted accepted]
    dsimp only
    rcases executeAll_cases env (parseSource source).statements with
      ⟨none, executes⟩ | ⟨before, failing, later, middle, fault, split, stopped, executes, fails, same⟩
    · rw [none]
      exact .completed inside executes
    · rw [stopped]
      refine .stopped inside split executes fails fun other accepted' ahead => ?_
      obtain ⟨others, hs⟩ := ahead
      rw [List.append_assoc, List.singleton_append] at hs
      rw [run_accepted accepted', ← hs, same]
      dsimp only
      rw [stopped]
      rfl
  · have outside := fun inside => accepted ((parseSource_errors_eq_nil_iff source).mpr inside)
    rw [run_rejected accepted]
    refine .rejected outside (by simpa using accepted) fun told ht => ?_
    obtain ⟨e, -, rfl⟩ := List.mem_map.mp ht
    rfl

/-- A run is told of by errors in its text exactly when the text is not in the language, and exactly when reading it
leaves the flag of an error raised; then it does nothing else. It is told of by nothing exactly when all its statements
are executed, and by one fault exactly when that fault stops one of them: then those before it are executed, this one
prints nothing and binds nothing by itself, and those behind it could as well be others. The texts printed are those of
the `print` statements executed, one for each. -/
theorem run_outcome (env : Environment) (source : String) :
    let result := run env source
    let statements := (parseSource source).statements
    (result.status = .syntaxError ↔ ∃ told ∈ result.diagnostics, told.phase = .reading) ∧
      (∀ fuel, max (scan source).tokens.length maxNesting < fuel →
        (result.status = .syntaxError ↔ hadSyntaxError fuel source = true)) ∧
      (result.status = .syntaxError ↔ ¬ InLanguage source) ∧
      (result.status = .syntaxError → result.environment = env ∧ result.output = [] ∧
        ∀ told ∈ result.diagnostics, told.phase = .reading) ∧
      (result.status = .ok ↔ result.diagnostics = []) ∧
      (result.status = .runtimeError ↔ ∃ told, result.diagnostics = [told] ∧ told.phase = .running) ∧
      (result.status = .ok → Executes env statements result.output result.environment ∧
        result.output.length = statements.countP Statement.isPrint) ∧
      (result.status = .runtimeError → ∃ before failing later middle fault,
        statements = before ++ failing :: later ∧ Executes env before result.output middle ∧
          result.output.length = before.countP Statement.isPrint ∧
          failing.Fails middle fault result.environment ∧ result.diagnostics = [fault.diagnostic] ∧
          ∀ other, (parseSource other).errors = [] → before ++ [failing] <+: (parseSource other).statements →
            run env other = result) := by
  intro result statements
  have ends : Ends env source result := run_ends env source
  have outside := ends.syntaxError_iff
  have flagged (fuel : Nat) (enough : max (scan source).tokens.length maxNesting < fuel) :
      result.status = .syntaxError ↔ hadSyntaxError fuel source = true :=
    outside.trans (hadSyntaxError_iff enough).symm
  clear_value result
  cases ends with
  | rejected _ some reading =>
    obtain ⟨told, ht⟩ := List.exists_mem_of_ne_nil _ some
    refine ⟨?_, flagged, outside, ?_, ?_, ?_, ?_, ?_⟩
    · exact iff_of_true rfl ⟨told, ht, reading told ht⟩
    · exact fun _ => ⟨rfl, rfl, reading⟩
    · exact iff_of_false (by simp) some
    · refine iff_of_false (by simp) ?_
      rintro ⟨other, rfl, running⟩
      rw [reading other (List.mem_singleton_self other)] at running
      cases running
    · simp
    · simp
  | completed _ executes =>
    refine ⟨?_, flagged, outside, ?_, ?_, ?_, ?_, ?_⟩
    · simp
    · simp
    · simp
    · simp
    · exact fun _ => ⟨executes, executes.length_output⟩
    · simp
  | stopped _ split executes fails alone =>
    refine ⟨?_, flagged, outside, ?_, ?_, ?_, ?_, fun _ => ?_⟩
    · simp [Fault.diagnostic]
    · simp
    · simp
    · simp [Fault.diagnostic]
    · simp
    · exact ⟨_, _, _, _, _, split, executes, executes.length_output, fails, rfl, alone⟩

/-- An error in the text behind a statement that prints. -/
def unreadSource : String := "print 1; let = 2;"

/-- A `let` that is stopped when its value has been assigned to the same name. -/
def faultySource : String := "let a = 2; print a; let a = (a = 3) + true; print 4;"

theorem run_outcome_faulty :
    ((run .initial unreadSource).status = .syntaxError ∧ hadSyntaxError 101 unreadSource = true ∧
        (run .initial unreadSource).environment = .initial ∧ (run .initial unreadSource).output = []) ∧
      ((run .initial "print 1; print 2;").status = .ok ∧ (run .initial "print 1; print 2;").output.length = 2) ∧
      (run .initial faultySource).status = .runtimeError ∧ (run .initial faultySource).output = ["2"] ∧
      run .initial (faultySource ++ "let b = a;") = run .initial faultySource := by
  have unread : (run .initial unreadSource).status = .syntaxError := by decide +kernel
  have completed : (run .initial "print 1; print 2;").status = .ok := by decide +kernel
  have stopped : (run .initial faultySource).status = .runtimeError := by decide +kernel
  have enough : max (scan unreadSource).tokens.length maxNesting < 101 := by decide +kernel
  obtain ⟨-, flag, -, rejected, -⟩ := run_outcome .initial unreadSource
  obtain ⟨-, -, -, -, -, -, executed, -⟩ := run_outcome .initial "print 1; print 2;"
  obtain ⟨-, -, -, -, -, -, -, failed⟩ := run_outcome .initial faultySource
  refine ⟨⟨unread, (flag 101 enough).mp unread, (rejected unread).1, (rejected unread).2.1⟩, ⟨completed, ?_⟩, stopped,
    by decide +kernel, ?_⟩
  · rw [(executed completed).2]
    decide +kernel
  · obtain ⟨before, failing, later, -, -, split, -, -, -, -, alone⟩ := failed stopped
    have longer : (parseSource (faultySource ++ "let b = a;")).statements =
        (parseSource faultySource).statements ++ [.let (.identifier "b" 1) (.variable (.identifier "a" 1))] := by
      decide +kernel
    have ahead : before ++ [failing] <+: before ++ failing :: later :=
      (List.prefix_append_right_inj before).mpr (List.prefix_append [failing] later)
    refine alone _ (by decide +kernel) ?_
    rw [longer, split]
    exact ahead.trans (List.prefix_append _ _)

end SetScript
