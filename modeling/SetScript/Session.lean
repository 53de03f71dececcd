import SetScript.Eval
import SetScript.Parser.Program
import SetScript.Scan
/-!
# Sessions

A session runs sources one after another in one environment. A source with errors in its text is not
evaluated at all; otherwise its statements are executed in order up to the first fault. A run gives the
texts that were printed and a diagnostic for every error.
-/

namespace SetScript

/-- Reads a program from text. The errors of scanning come before those of parsing. -/
def parseSource (source : String) : Program :=
  let scanned := scan source
  let program := parse scanned.tokens
  ⟨program.statements, scanned.errors ++ program.errors⟩

/-- The part of the work that found an error. -/
inductive Phase where
  | reading | running
  deriving Repr, DecidableEq

/-- An error as it is told to the user. -/
structure Diagnostic where
  phase : Phase
  line : Nat
  message : String
  deriving Repr, DecidableEq

/-- What is told of an error in the text. -/
def SyntaxError.diagnostic (error : SyntaxError) : Diagnostic :=
  ⟨.reading, error.line, error.cause.message⟩

/-- What is told of a fault. -/
def Fault.diagnostic (fault : Fault) : Diagnostic := ⟨.running, fault.line, fault.cause.message⟩

/-- How the execution of statements ended: what they printed, the fault that stopped them if there was
one, and the environment they left. -/
structure Execution where
  output : List String
  fault? : Option Fault
  environment : Environment

/-- Executes statements in order, up to the first fault. -/
def executeAll (env : Environment) : List Statement → Execution
  | [] => ⟨[], none, env⟩
  | statement :: rest =>
    match statement.execute env with
    | (.error fault, env') => ⟨[], some fault, env'⟩
    | (.ok printed?, env') =>
      let others := executeAll env' rest
      ⟨printed?.toList ++ others.output, others.fault?, others.environment⟩

/-- How a run ended. -/
inductive Status where
  | ok | syntaxError | runtimeError
  deriving Repr, DecidableEq

/-- A run: how it ended, what it printed, what was told of it, and the environment it left. -/
structure Run where
  status : Status
  output : List String
  diagnostics : List Diagnostic
  environment : Environment

/-- Runs a source in an environment. -/
def run (env : Environment) (source : String) : Run :=
  let program := parseSource source
  if program.errors.isEmpty then
    let execution := executeAll env program.statements
    { status := if execution.fault?.isSome then .runtimeError else .ok
      output := execution.output
      diagnostics := (execution.fault?.map Fault.diagnostic).toList
      environment := execution.environment }
  else
    ⟨.syntaxError, [], program.errors.map SyntaxError.diagnostic, env⟩

end SetScript
