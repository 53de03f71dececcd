/-!
# Faults

A fault stops the evaluation of a program. It has a cause and the line it is reported on, and its
wording is decided here alone.
-/

namespace SetScript

/-- Why evaluation stopped. -/
inductive Fault.Cause where
  /-- An operator or function got a value of the wrong kind. -/
  | typeMismatch (details : String)
  /-- A name is not bound. -/
  | undefinedName (name : String)
  /-- A value that is not a function was called. -/
  | notCallable
  /-- A construct has no meaning at run time, or a result no exact value. -/
  | unsupported (details : String)
  /-- A function got another number of arguments than it takes. -/
  | argumentCount (expected : String) (found : Nat)
  /-- A function got an argument of the right kind that it has no value for. -/
  | invalidArgument (details : String)
  /-- An assertion does not hold. -/
  | assertionFailed
  deriving Repr, DecidableEq

/-- A fault, with the line it is reported on. -/
structure Fault where
  cause : Fault.Cause
  line : Nat
  deriving Repr, DecidableEq

/-- The wording of a fault. -/
def Fault.Cause.message : Fault.Cause → String
  | .typeMismatch details => details
  | .undefinedName name => s!"Undefined variable '{name}'."
  | .notCallable => "Can only call functions."
  | .unsupported details => details
  | .argumentCount expected found => s!"Expected {expected} arguments but got {found}."
  | .invalidArgument details => s!"Invalid argument: {details}"
  | .assertionFailed => "Assertion failed."

end SetScript
