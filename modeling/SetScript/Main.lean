import SetScript.CommandLine
/-!
# The program

With the name of a script the script is run, or its statements are listed if `--ast` is given. Without
one, lines are read from standard input until it ends.
-/

namespace SetScript.CommandLine

/-- The text of a script, if it can be read and is UTF-8. -/
def readScript? (path : String) : IO (Option String) := do
  try
    return String.fromUTF8? (← IO.FS.readBinFile path)
  catch _ =>
    return none

/-- A line of the input without the line break at its end. -/
def withoutBreak (line : String) : String :=
  (((line.dropSuffix? "\r\n").or (line.dropSuffix? '\n')).getD line.toSlice).copy

/-- Reads and performs lines until the input ends. -/
partial def promptLoop (list : Bool) (env : Environment) : IO Unit := do
  IO.print promptText
  (← IO.getStdout).flush
  let line ← (← IO.getStdin).getLine
  unless line.isEmpty do
    let done := perform list env (withoutBreak line)
    IO.print (asLines done.output)
    IO.eprint (asLines (done.diagnostics.map diagnosticText))
    promptLoop list done.environment

end SetScript.CommandLine

open SetScript.CommandLine in
def main (args : List String) : IO UInt32 := do
  let list := args.contains "--ast"
  match args.find? (· != "--ast") with
  | some path =>
    let done := script list path (← readScript? path)
    IO.print done.stdout
    IO.eprint done.stderr
    return UInt32.ofNat done.exitCode
  | none =>
    promptLoop list .initial
    return 0
