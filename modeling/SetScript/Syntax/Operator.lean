import SetScript.Token
/-!
# Operators

The operators of the language, the tokens that spell them and their written form.
-/

namespace SetScript

inductive UnaryOp where
  | negate | not
  deriving Repr, DecidableEq

inductive BinaryOp where
  | add | sub | mul | div | rem
  | less | lessEqual | greater | greaterEqual
  | equal | notEqual
  | union | intersect | subseteq | member
  deriving Repr, DecidableEq

/-- The operator that a token spells in front of its operand. -/
def UnaryOp.ofKind? : Kind → Option UnaryOp
  | .minus => some .negate
  | .bang => some .not
  | _ => none

/-- The operator that a token spells between its operands. -/
def BinaryOp.ofKind? : Kind → Option BinaryOp
  | .plus => some .add
  | .minus => some .sub
  | .star => some .mul
  | .slash => some .div
  | .percent => some .rem
  | .less => some .less
  | .lessEqual => some .lessEqual
  | .greater => some .greater
  | .greaterEqual => some .greaterEqual
  | .equalEqual => some .equal
  | .bangEqual => some .notEqual
  | .unionWord => some .union
  | .intersectWord => some .intersect
  | .subseteqWord => some .subseteq
  | .inWord => some .member
  | _ => none

/-- The written form of an operator. -/
def UnaryOp.symbol : UnaryOp → String
  | .negate => "-"
  | .not => "!"

/-- The written form of an operator. -/
def BinaryOp.symbol : BinaryOp → String
  | .add => "+"
  | .sub => "-"
  | .mul => "*"
  | .div => "/"
  | .rem => "%"
  | .less => "<"
  | .lessEqual => "<="
  | .greater => ">"
  | .greaterEqual => ">="
  | .equal => "=="
  | .notEqual => "!="
  | .union => "union"
  | .intersect => "intersect"
  | .subseteq => "subseteq"
  | .member => "in"

end SetScript
