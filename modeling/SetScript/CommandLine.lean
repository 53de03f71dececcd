import SetScript.Session
import SetScript.Syntax.Printer
/-!
# The command line

A script is run, or its statements are listed. Without a script, lines are read from a prompt and each
is run in the environment that the ones before it left. What goes to the two output streams and the
exit code are computed here.
-/

namespace SetScript.CommandLine

/-- What a command writes and how it exits. -/
structure Completion where
  exitCode : Nat
  stdout : String
  stderr : String
  deriving Repr, DecidableEq

/-- Texts, each as a line. -/
def asLines (texts : List String) : String := String.join (texts.map (· ++ "\n"))

/-- A diagnostic as a text. -/
def diagnosticText (diagnostic : Diagnostic) : String :=
  s!"Error on line {diagnostic.line}: {diagnostic.message}"

/-- The exit code of a run. -/
def exitCode : Status → Nat
  | .ok => 0
  | .syntaxError => 65
  | .runtimeError => 70

/-- The exit code when the script cannot be read. -/
def unreadable : Nat := 66

/-- What a source does: it is listed or run. -/
def perform (list : Bool) (env : Environment) (source : String) : Run :=
  if list then
    let program := parseSource source
    { status := if program.errors.isEmpty then .ok else .syntaxError
      output := program.statements.map Statement.text
      diagnostics := program.errors.map SyntaxError.diagnostic
      environment := env }
  else
    run env source

/-- The command for a script, whose text is not there if it could not be read. -/
def script (list : Bool) (path : String) : Option String → Completion
  | none =>
    { exitCode := unreadable
      stdout := ""
      stderr := asLines
        [s!"Failed to read the input file '{path}'. Perhaps this file does not exist?"] }
  | some source =>
    let done := perform list .initial source
    { exitCode := exitCode done.status
      stdout := asLines done.output
      stderr := asLines (done.diagnostics.map diagnosticText) }

/-- What is written before a line is read. -/
def promptText : String := "> "

/-- Runs lines one after another, with a prompt before each of them and before the end. -/
def promptFrom (list : Bool) (env : Environment) : List String → Completion
  | [] => ⟨0, promptText, ""⟩
  | line :: rest =>
    let done := perform list env line
    let others := promptFrom list done.environment rest
    { exitCode := others.exitCode
      stdout := promptText ++ asLines done.output ++ others.stdout
      stderr := asLines (done.diagnostics.map diagnosticText) ++ others.stderr }

/-- The command without a script, for the lines that are read, without their line breaks. -/
def prompt (list : Bool) (lines : List String) : Completion := promptFrom list .initial lines

end SetScript.CommandLine
