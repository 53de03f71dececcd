import SetScript.Proofs.Evaluation.Lines
import SetScript.Proofs.Grammar.Program
import SetScript.Proofs.Parser.Moved
import SetScript.Proofs.Scan.Newline
import SetScript.Session
/-!
# A session is one program

Running accepted sources one after another is the same as running them as one text, with line breaks between
them (`run_intercalate`). Scanning, reading and evaluation each come to the end of a source with nothing left over:
`textTokens_append_newline`, `declarations_append` and `executeAll_append` say so, and what comes behind only
stands on later lines.
-/

namespace SetScript

/-! ## Reading -/

/-- What is read without an error ends with a semicolon. -/
theorem closed_of_declarations {endLine : Nat} {tokens : List Token} (h : (declarations endLine tokens).errors = []) :
    Closed tokens := by
  obtain ⟨ds, -, rfl⟩ := Grammar.derivations_of_declarations h
  rcases List.eq_nil_or_concat ds with rfl | ⟨front, d, rfl⟩
  · exact fun last hl => nomatch hl
  · rw [List.concat_eq_append, List.flatMap_append, List.flatMap_singleton]
    exact d.closed_append _

theorem parse_endMarker {tokens : List Token} (h : ∀ token ∈ tokens, token.kind ≠ .eof) (line : Nat) :
    parse (tokens ++ [Token.endMarker line]) = declarations line tokens :=
  parse_marker h rfl

theorem parseSource_eq (source : String) :
    parseSource source =
      let program := declarations (1 + source.toList.count '\n') (textTokens source.toList)
      ⟨program.statements, textErrors source.toList ++ program.errors⟩ := by
  rw [parseSource, scan_eq, parse_endMarker (eofFree_textTokens _)]

theorem parseSource_empty : parseSource "" = ⟨[], []⟩ := by
  simp [parseSource_eq, textTokens, textErrors, locatedReadings, pieces, numbered, declarations]

/-- Behind an accepted source and a line break, a source is read as it is alone, on later lines. -/
theorem parseSource_newline {a : String} (ha : (parseSource a).errors = []) (b : String) :
    parseSource (a ++ "\n" ++ b) =
      ⟨(parseSource a).statements ++ (parseSource b).statements.map (Statement.mapLine (· + (a.toList.count '\n' + 1))),
        (parseSource b).errors.map (SyntaxError.mapLine (· + (a.toList.count '\n' + 1)))⟩ := by
  rw [parseSource_eq] at ha
  obtain ⟨hscan, hparse⟩ := List.append_eq_nil_iff.mp ha
  have text : (a ++ "\n" ++ b).toList = a.toList ++ '\n' :: b.toList := by simp
  have lines : 1 + (a ++ "\n" ++ b).toList.count '\n' =
      1 + b.toList.count '\n' + (a.toList.count '\n' + 1) := by
    rw [text, List.count_append, List.count_cons_self]
    omega
  have noOpen := noOpenString_of_textErrors hscan
  rw [parseSource_eq, parseSource_eq, parseSource_eq, lines, text, textTokens_append_newline noOpen,
    textErrors_append_newline noOpen,
    declarations_append _ (1 + a.toList.count '\n') _ (closed_of_declarations hparse)]
  have moved := declarations_mapLine (· + (a.toList.count '\n' + 1)) (1 + b.toList.count '\n') (textTokens b.toList)
  simp [moved, hscan, hparse, Program.mapLine]

/-! ## Execution -/

theorem executeAll_append (env : Environment) (first others : List Statement) :
    executeAll env (first ++ others) =
      let before := executeAll env first
      if before.fault?.isSome then before
      else
        let behind := executeAll before.environment others
        ⟨before.output ++ behind.output, behind.fault?, behind.environment⟩ := by
  induction first generalizing env with
  | nil => rfl
  | cons statement first ih =>
    rw [List.cons_append, executeAll, executeAll]
    obtain ⟨result, env', h⟩ : ∃ result env', statement.execute env = (result, env') := ⟨_, _, rfl⟩
    rw [h]
    cases result with
    | error fault => rfl
    | ok printed? =>
      simp only [ih]
      cases hf : (executeAll env' first).fault? <;> simp [hf]

/-- On other lines statements do the same, and a fault is moved. -/
theorem executeAll_mapLine (f : Nat → Nat) (env : Environment) (statements : List Statement) :
    executeAll env (statements.map (Statement.mapLine f)) =
      { executeAll env statements with fault? := (executeAll env statements).fault?.map (Fault.mapLine f) } := by
  induction statements generalizing env with
  | nil => rfl
  | cons statement statements ih =>
    rw [List.map_cons, executeAll, executeAll, Statement.execute_mapLine]
    obtain ⟨result, env', h⟩ : ∃ result env', statement.execute env = (result, env') := ⟨_, _, rfl⟩
    simp only [Eval.mapLine, h]
    cases result with
    | error fault => rfl
    | ok printed? => simp [moved, Except.mapError, ih]

/-! ## Runs -/

/-- A diagnostic some lines further down. -/
def Diagnostic.down (lines : Nat) (diagnostic : Diagnostic) : Diagnostic :=
  { diagnostic with line := diagnostic.line + lines }

theorem run_accepted {env : Environment} {source : String} (h : (parseSource source).errors = []) :
    run env source =
      let execution := executeAll env (parseSource source).statements
      { status := if execution.fault?.isSome then .runtimeError else .ok
        output := execution.output
        diagnostics := (execution.fault?.map Fault.diagnostic).toList
        environment := execution.environment } := by
  simp [run, h]

theorem run_rejected {env : Environment} {source : String} (h : (parseSource source).errors ≠ []) :
    run env source = ⟨.syntaxError, [], (parseSource source).errors.map SyntaxError.diagnostic, env⟩ := by
  simp [run, h]

/-- A source behind an accepted one runs in the environment that this one leaves, unless a fault has stopped it. -/
theorem run_newline {env : Environment} {a b : String} (ha : (parseSource a).errors = [])
    (hb : (parseSource b).errors = []) :
    run env (a ++ "\n" ++ b) =
      let first := run env a
      if first.status = .runtimeError then first
      else
        let second := run first.environment b
        ⟨second.status, first.output ++ second.output,
          first.diagnostics ++ second.diagnostics.map (Diagnostic.down (a.toList.count '\n' + 1)),
          second.environment⟩ := by
  have joined := parseSource_newline ha b
  rw [hb, List.map_nil] at joined
  rw [run_accepted (by rw [joined]), run_accepted ha, joined]
  simp only [executeAll_append, executeAll_mapLine]
  cases hf : (executeAll env (parseSource a).statements).fault? with
  | some fault => simp [hf]
  | none =>
    simp only [run_accepted hb]
    cases (executeAll (executeAll env (parseSource a).statements).environment (parseSource b).statements).fault?
      <;> simp [Fault.mapLine, Fault.diagnostic, Diagnostic.down]

/-- Runs sources one after another, each in the environment that the one before left, up to the first that a
fault stops. -/
def runEach (env : Environment) : List String → List Run
  | [] => []
  | source :: sources =>
    let first := run env source
    first :: if first.status = .runtimeError then [] else runEach first.environment sources

/-- What stands before the source with number `i` when sources are joined by line breaks. -/
def textBefore (sources : List String) (i : Nat) : String := String.join ((sources.take i).map (· ++ "\n"))

/-- How many line breaks stand before the source with number `i`. -/
def linesBefore (sources : List String) (i : Nat) : Nat := (textBefore sources i).toList.count '\n'

theorem linesBefore_zero (sources : List String) : linesBefore sources 0 = 0 := by
  simp [linesBefore, textBefore]

theorem linesBefore_succ (source : String) (sources : List String) (i : Nat) :
    linesBefore (source :: sources) (i + 1) = linesBefore sources i + (source.toList.count '\n' + 1) := by
  simp [linesBefore, textBefore]
  omega

theorem Diagnostic.down_zero (diagnostic : Diagnostic) : diagnostic.down 0 = diagnostic := rfl

theorem Diagnostic.down_comp_down (first second : Nat) :
    Diagnostic.down second ∘ Diagnostic.down first = Diagnostic.down (first + second) := by
  funext diagnostic
  simp [Diagnostic.down, Nat.add_assoc]

/-- The run that runs one after another amount to: what all of them print, the lines of what they tell counted from
the start of the joined text, and the end of the last. -/
def Run.joined (env : Environment) (sources : List String) (runs : List Run) : Run where
  status := (runs.getLast?.map (·.status)).getD .ok
  output := runs.flatMap (·.output)
  diagnostics := runs.zipIdx.flatMap fun (run, i) => run.diagnostics.map (Diagnostic.down (linesBefore sources i))
  environment := (runs.getLast?.map (·.environment)).getD env

theorem Run.joined_singleton (env : Environment) (sources : List String) (run : Run) :
    Run.joined env sources [run] = run := by
  have kept : Diagnostic.down 0 = id := funext Diagnostic.down_zero
  simp [Run.joined, linesBefore_zero, kept]

theorem Run.joined_cons (env : Environment) (source : String) (sources : List String) (first : Run)
    {runs : List Run} (h : runs ≠ []) :
    Run.joined env (source :: sources) (first :: runs) =
      let others := Run.joined first.environment sources runs
      ⟨others.status, first.output ++ others.output,
        first.diagnostics ++ others.diagnostics.map (Diagnostic.down (source.toList.count '\n' + 1)),
        others.environment⟩ := by
  obtain ⟨last, hl⟩ : ∃ last, runs.getLast? = some last := ⟨_, List.getLast?_eq_some_getLast h⟩
  have kept : Diagnostic.down 0 = id := funext Diagnostic.down_zero
  have behind : (first :: runs).getLast? = some last := by rw [List.getLast?_cons, hl, Option.getD_some]
  simp only [Run.joined, hl, behind, List.zipIdx_cons, List.flatMap_cons, linesBefore_zero, kept]
  simp [List.zipIdx_succ, List.flatMap_map, List.map_flatMap, linesBefore_succ, Diagnostic.down_comp_down]

/-- Accepted sources joined by line breaks are accepted, and one run of them is their runs one after another. -/
theorem run_intercalate (env : Environment) {sources : List String}
    (h : ∀ source ∈ sources, (parseSource source).errors = []) :
    (parseSource ("\n".intercalate sources)).errors = [] ∧
      run env ("\n".intercalate sources) = Run.joined env sources (runEach env sources) := by
  induction sources generalizing env with
  | nil =>
    rw [String.intercalate_nil]
    refine ⟨by rw [parseSource_empty], ?_⟩
    rw [run_accepted (by rw [parseSource_empty]), parseSource_empty]
    rfl
  | cons source sources ih =>
    have hs := h source (List.mem_cons_self ..)
    cases sources with
    | nil =>
      rw [String.intercalate_singleton]
      refine ⟨hs, ?_⟩
      simp [runEach, Run.joined_singleton]
    | cons next others =>
      -- The other sources run from the environment that the first one leaves, so the hypothesis is used at any.
      have ih := fun env => ih env fun s hm => h s (List.mem_cons_of_mem _ hm)
      rw [String.intercalate_cons_cons]
      refine ⟨by rw [parseSource_newline hs, (ih env).1, List.map_nil], ?_⟩
      rw [run_newline hs (ih env).1, runEach]
      by_cases stopped : (run env source).status = .runtimeError
      · simp [stopped, Run.joined_singleton]
      · have more : runEach (run env source).environment (next :: others) ≠ [] := by simp [runEach]
        simp only [stopped, if_false, (ih _).2]
        exact (Run.joined_cons env source _ _ more).symm

/-- Three sources, of which the second is stopped by a fault on its second line. -/
def stoppedSources : List String := ["let x = true; // kept", "print x;\nunknown;", "print x;"]

theorem run_intercalate_stopped :
    (∀ source ∈ stoppedSources, (parseSource source).errors = []) ∧
      (run .initial ("\n".intercalate stoppedSources)).output = ["true"] ∧
      (run .initial ("\n".intercalate stoppedSources)).diagnostics =
        [⟨.running, 3, "Undefined variable 'unknown'."⟩] := by
  have accepted : ∀ source ∈ stoppedSources, (parseSource source).errors = [] := by decide +kernel
  have run_joined := (run_intercalate .initial accepted).2
  refine ⟨accepted, ?_, ?_⟩
  · rw [run_joined]
    decide +kernel
  · rw [run_joined]
    decide +kernel

end SetScript
