import SetScript.Operation
/-!
# Built-in functions

`call` looks at the number of arguments and then runs the function on them. The functions of a set go
through its members in order; a fault is reported on the line of the call.
-/

namespace SetScript

namespace Builtin

/-- The numbers of arguments that a function takes. -/
def arity : Builtin → List Nat
  | .min | .max => [1, 2]
  | _ => [1]

/-- The numbers of arguments as text. -/
def arityText (f : Builtin) : String := " or ".intercalate (f.arity.map toString)

/-- The fault of a wrong number of arguments. -/
def wrongCount {α : Type} (f : Builtin) (args : List Value) (line : Nat) : Except Fault α :=
  .error ⟨.argumentCount f.arityText args.length, line⟩

/-- A function of one number. -/
def onNumber (f : Builtin) (op : Float → Float) (args : List Value) (line : Nat) :
    Except Fault Value :=
  match args with
  | [v] => do return .number (op (← v.expectNumber s!"Argument to '{f.name}' must be a number." line))
  | _ => f.wrongCount args line

/-- The members of a set as numbers, up to the first that is none. -/
def numbers (f : Builtin) (members : Members) (line : Nat) : Except Fault (List Float) :=
  members.elements.mapM (fun v => v.expectNumber s!"Elements passed to '{f.name}' must be numbers." line)

/-- The number that `pick` prefers: of two numbers, or of all members of a set that is not empty. -/
def extremum (f : Builtin) (pick : Float → Float → Float) (args : List Value) (line : Nat) :
    Except Fault Value :=
  match args with
  | [a, b] => do
    let (x, y) ← a.expectNumbers b line
    return .number (pick x y)
  | [v] => do
    let members ← v.expectSet s!"Argument to '{f.name}' must be a set or two numbers." line
    match ← f.numbers members line with
    | [] => throw ⟨.invalidArgument s!"'{f.name}' of an empty set.", line⟩
    | x :: xs => return .number (xs.foldl pick x)
  | _ => f.wrongCount args line

/-- The sum of the members of a set. -/
def total (f : Builtin) (args : List Value) (line : Nat) : Except Fault Value :=
  match args with
  | [v] => do
    let members ← v.expectSet s!"Argument to '{f.name}' must be a set." line
    let xs ← f.numbers members line
    return .number (xs.foldl (· + ·) 0.0)
  | _ => f.wrongCount args line

/-- Nothing, if the argument is true. -/
def check (f : Builtin) (args : List Value) (line : Nat) : Except Fault Value :=
  match args with
  | [v] => if v.isTruthy then .ok .nil else .error ⟨.assertionFailed, line⟩
  | _ => f.wrongCount args line

/-- The value of a function for some arguments. -/
def apply (f : Builtin) (args : List Value) (line : Nat) : Except Fault Value :=
  match f with
  | .sqrt => f.onNumber Float.sqrt args line
  | .abs => f.onNumber Float.abs args line
  | .floor => f.onNumber Float.floor args line
  | .ceil => f.onNumber Float.ceil args line
  | .min => f.extremum Number.lesser args line
  | .max => f.extremum Number.greater args line
  | .sum => f.total args line
  | .assert => f.check args line

/-- The value of a call, once the number of arguments is seen to fit. -/
def call (f : Builtin) (args : List Value) (line : Nat) : Except Fault Value :=
  if args.length ∈ f.arity then f.apply args line else f.wrongCount args line

end Builtin

end SetScript
