import SetScript.Syntax.Tree
/-!
# Equality of programs

Two expressions are equal if they have the same shape, literals, operators and tokens, and this can be
decided.
-/

namespace SetScript

mutual

/-- Equality of expressions as a test. -/
def Expr.same : Expr → Expr → Bool
  | .literal v, .literal w => v == w
  | .variable x, .variable y => x == y
  | .group a, .group b => a.same b
  | .unary o t a, .unary o' t' a' => o == o' && t == t' && a.same a'
  | .binary o t a b, .binary o' t' a' b' => o == o' && t == t' && a.same a' && b.same b'
  | .roster es, .roster es' => Expr.sameAll es es'
  | .comprehension r x d f, .comprehension r' x' d' f' =>
    r.same r' && x == x' && d.same d' && Expr.sameOption f f'
  | .cardinality t a, .cardinality t' a' => t == t' && a.same a'
  | .call t c as, .call t' c' as' => t == t' && c.same c' && Expr.sameAll as as'
  | .assign x a, .assign x' a' => x == x' && a.same a'
  | _, _ => false

/-- Equality of lists of expressions as a test. -/
def Expr.sameAll : List Expr → List Expr → Bool
  | [], [] => true
  | a :: as, b :: bs => a.same b && Expr.sameAll as bs
  | _, _ => false

/-- Equality of optional expressions as a test. -/
def Expr.sameOption : Option Expr → Option Expr → Bool
  | none, none => true
  | some a, some b => a.same b
  | _, _ => false

end

mutual

theorem Expr.same_iff (a b : Expr) : a.same b = true ↔ a = b := by
  cases a <;> cases b <;>
    simp [Expr.same, Expr.same_iff, Expr.sameAll_iff, Expr.sameOption_iff, and_assoc]

theorem Expr.sameAll_iff (as bs : List Expr) : Expr.sameAll as bs = true ↔ as = bs := by
  cases as <;> cases bs <;> simp [Expr.sameAll, Expr.same_iff, Expr.sameAll_iff]

theorem Expr.sameOption_iff (a b : Option Expr) : Expr.sameOption a b = true ↔ a = b := by
  cases a <;> cases b <;> simp [Expr.sameOption, Expr.same_iff]

end

instance : DecidableEq Expr := fun a b => decidable_of_iff _ (Expr.same_iff a b)

deriving instance DecidableEq for Statement

end SetScript
