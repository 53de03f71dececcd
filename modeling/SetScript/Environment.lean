import SetScript.Fault
import SetScript.Syntax.Tree
import SetScript.Value.Basic
/-!
# Environments

An environment binds names to values in one flat table. A name that is bound stays bound; its value can
be replaced.
-/

namespace SetScript

/-- The table of bound names, each with its value. -/
structure Environment where
  bindings : List (String × Value)

namespace Environment

/-- The value of a name. -/
def get? (env : Environment) (name : String) : Option Value := env.bindings.lookup name

/-- A name is bound. -/
def contains (env : Environment) (name : String) : Bool := (env.get? name).isSome

/-- A table of bindings with a new value for a name, which keeps its place or comes last. -/
def replace (name : String) (value : Value) : List (String × Value) → List (String × Value)
  | [] => [(name, value)]
  | (other, old) :: rest =>
    if name == other then (other, value) :: rest else (other, old) :: replace name value rest

/-- Binds a name to a value, whether it was bound before or not. -/
def define (env : Environment) (name : String) (value : Value) : Environment :=
  ⟨replace name value env.bindings⟩

theorem lookup_replace (name : String) (value : Value) (other : String)
    (bindings : List (String × Value)) :
    (replace name value bindings).lookup other =
      if other = name then some value else bindings.lookup other := by
  induction bindings with
  | nil => grind [replace]
  | cons binding rest ih =>
    obtain ⟨key, old⟩ := binding
    by_cases hk : name = key <;> grind [replace]

/-- A definition changes the value of its name and of no other. -/
theorem get?_define (env : Environment) (name : String) (value : Value) (other : String) :
    (env.define name value).get? other = if other = name then some value else env.get? other :=
  lookup_replace name value other env.bindings

/-- The value of a name; it is a fault if there is none. -/
def get (env : Environment) (name : Token) : Except Fault Value :=
  match env.get? name.lexeme with
  | some value => .ok value
  | none => .error ⟨.undefinedName name.lexeme, name.line⟩

/-- Gives a bound name a new value; it is a fault if the name is not bound. -/
def assign (env : Environment) (name : Token) (value : Value) : Except Fault Environment :=
  if env.contains name.lexeme then .ok (env.define name.lexeme value)
  else .error ⟨.undefinedName name.lexeme, name.line⟩

/-- The environment in which a program starts: the built-in functions under their names. -/
def initial : Environment := ⟨Builtin.all.map (fun f => (f.name, .builtin f))⟩

end Environment

end SetScript
