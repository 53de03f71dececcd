import SetScript.Fault
import SetScript.Number.Remainder
import SetScript.Syntax.Operator
import SetScript.Value.Members
/-!
# Operators on values

Arithmetic and ordering take numbers, set algebra takes sets, membership takes a set on the right, and
equality takes anything. A fault is reported on the line of the operator.
-/

namespace SetScript

namespace Value

/-- The number that a value is; a mismatch otherwise. -/
def expectNumber (v : Value) (details : String) (line : Nat) : Except Fault Float :=
  match v with
  | .number x => .ok x
  | _ => .error ⟨.typeMismatch details, line⟩

/-- The members of the set that a value is; a mismatch otherwise. -/
def expectSet (v : Value) (details : String) (line : Nat) : Except Fault Members :=
  match v with
  | .set members => .ok members
  | _ => .error ⟨.typeMismatch details, line⟩

/-- Both operands as numbers. -/
def expectNumbers (a b : Value) (line : Nat) : Except Fault (Float × Float) := do
  let x ← a.expectNumber "Operands must be numbers." line
  let y ← b.expectNumber "Operands must be numbers." line
  return (x, y)

end Value

/-- The value of a prefix operator. -/
def UnaryOp.apply (op : UnaryOp) (v : Value) (line : Nat) : Except Fault Value :=
  match op with
  | .negate => do return .number (-(← v.expectNumber "Operand must be a number." line))
  | .not => .ok (.bool (!v.isTruthy))

namespace BinaryOp

/-- The function of numbers that an arithmetic operator stands for. -/
def arithmetic? : BinaryOp → Option (Float → Float → Float)
  | .add => some (· + ·)
  | .sub => some (· - ·)
  | .mul => some (· * ·)
  | .div => some (· / ·)
  | .rem => some Number.rem
  | _ => none

/-- The relation of numbers that an ordering operator stands for. -/
def ordering? : BinaryOp → Option (Float → Float → Bool)
  | .less => some Number.lt
  | .lessEqual => some Number.le
  | .greater => some (fun x y => Number.lt y x)
  | .greaterEqual => some (fun x y => Number.le y x)
  | _ => none

/-- The function of sets that an operator of set algebra stands for. -/
def setAlgebra? : BinaryOp → Option (Members → Members → Value)
  | .union => some (fun a b => .set (a.union b))
  | .intersect => some (fun a b => .set (a.inter b))
  | .subseteq => some (fun a b => .bool (a.subset b))
  | _ => none

/-- `+ - * / %` on two numbers. -/
def applyArithmetic (op : BinaryOp) (a b : Value) (line : Nat) : Except Fault Value := do
  let (x, y) ← a.expectNumbers b line
  match op.arithmetic? with
  | some f => return .number (f x y)
  | none => throw ⟨.typeMismatch s!"'{op.symbol}' is not an arithmetic operator.", line⟩

/-- `< <= > >=` on two numbers. -/
def applyOrdering (op : BinaryOp) (a b : Value) (line : Nat) : Except Fault Value := do
  let (x, y) ← a.expectNumbers b line
  match op.ordering? with
  | some r => return .bool (r x y)
  | none => throw ⟨.typeMismatch s!"'{op.symbol}' is not an ordering operator.", line⟩

/-- `union intersect subseteq` on two sets. -/
def applySetAlgebra (op : BinaryOp) (a b : Value) (line : Nat) : Except Fault Value := do
  let as ← a.expectSet "Operands must be sets." line
  let bs ← b.expectSet "Operands must be sets." line
  match op.setAlgebra? with
  | some f => return f as bs
  | none => throw ⟨.typeMismatch s!"'{op.symbol}' is not a set operator.", line⟩

/-- Whether a value is a member of a set. -/
def applyMembership (v set : Value) (line : Nat) : Except Fault Value := do
  let members ← set.expectSet "Right operand must be a set for 'in'." line
  return .bool (members.contains v)

/-- The value of an operator between two values. -/
def apply (op : BinaryOp) (a b : Value) (line : Nat) : Except Fault Value :=
  match op with
  | .add | .sub | .mul | .div | .rem => op.applyArithmetic a b line
  | .less | .lessEqual | .greater | .greaterEqual => op.applyOrdering a b line
  | .equal => .ok (.bool (a.same b))
  | .notEqual => .ok (.bool (!a.same b))
  | .union | .intersect | .subseteq => op.applySetAlgebra a b line
  | .member => applyMembership a b line

end BinaryOp

/-- A count of things as a value; a fault if numbers cannot tell it from its neighbours. -/
def countValue (n line : Nat) : Except Fault Value :=
  match Number.ofCount? n with
  | some x => .ok (.number x)
  | none => .error ⟨.unsupported s!"Count {n} is too large to represent exactly.", line⟩

end SetScript
