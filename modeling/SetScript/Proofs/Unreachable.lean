import SetScript.Proofs.Evaluation.Origin
import SetScript.Proofs.Parser.Literals
/-!
# Errors that never occur

Some errors stand in the program only because a match has to have a last case. The parser has one for a literal that is
not there, each family of operators one for an operator of another family, and each builtin function one for a wrong
number of arguments. The scanner, the choice of the family and the check in front of the function see to it that none of
them occurs (`defensive_errors_unreachable`).
-/

namespace SetScript

/-! ## Causes -/

/-- The cause that a family of operators has for an operator which is not its own. -/
inductive Fault.Cause.IsForeignOperator : Fault.Cause → Prop where
  | arithmetic (op : BinaryOp) : IsForeignOperator (.typeMismatch s!"'{op.symbol}' is not an arithmetic operator.")
  | ordering (op : BinaryOp) : IsForeignOperator (.typeMismatch s!"'{op.symbol}' is not an ordering operator.")
  | setAlgebra (op : BinaryOp) : IsForeignOperator (.typeMismatch s!"'{op.symbol}' is not a set operator.")

/-- A cause that is no wrong number of arguments, and no text that begins with a quotation. -/
def Fault.Cause.IsPlain : Fault.Cause → Prop
  | .typeMismatch details => details.toList.head? ≠ some '\x27'
  | .argumentCount _ _ => False
  | _ => True

/-- The texts of foreign operators quote the operator first. -/
theorem Fault.Cause.IsForeignOperator.not_isPlain {cause : Fault.Cause} (h : cause.IsForeignOperator) :
    ¬ cause.IsPlain := by
  intro plain
  cases h with
  | arithmetic op | ordering op | setAlgebra op => exact plain (by simp [toString])

/-- A result that is a fault for plain causes only. -/
def FailsPlainly {α : Type} (result : Except Fault α) : Prop := ∀ fault, result = .error fault → fault.cause.IsPlain

namespace FailsPlainly

variable {α β : Type}

theorem ok (a : α) : FailsPlainly (.ok a) := nofun

theorem error {fault : Fault} (h : fault.cause.IsPlain) : FailsPlainly (.error fault : Except Fault α) := by
  rintro _ ⟨⟩
  exact h

theorem bind {result : Except Fault α} {k : α → Except Fault β} (h : FailsPlainly result)
    (hk : ∀ a, FailsPlainly (k a)) : FailsPlainly (result >>= k) := by
  cases result with
  | error fault => exact error (h fault rfl)
  | ok a => exact hk a

theorem mapM {k : α → Except Fault β} (hk : ∀ a, FailsPlainly (k a)) (as : List α) : FailsPlainly (as.mapM k) := by
  induction as with
  | nil => exact ok []
  | cons a as ih =>
    rw [List.mapM_cons]
    exact (hk a).bind fun _ => ih.bind fun _ => ok _

end FailsPlainly

variable (line : Nat)

namespace Value

theorem expectNumber_plain (v : Value) {details : String} (h : details.toList.head? ≠ some '\x27') :
    FailsPlainly (v.expectNumber details line) := by
  cases v with
  | number x => exact .ok x
  | _ => exact .error h

theorem expectSet_plain (v : Value) {details : String} (h : details.toList.head? ≠ some '\x27') :
    FailsPlainly (v.expectSet details line) := by
  cases v with
  | set members => exact .ok members
  | _ => exact .error h

theorem expectNumbers_plain (a b : Value) : FailsPlainly (a.expectNumbers b line) :=
  (a.expectNumber_plain line (by decide)).bind fun _ => (b.expectNumber_plain line (by decide)).bind fun _ => .ok _

end Value

/-! ## Operators -/

theorem UnaryOp.apply_plain (op : UnaryOp) (v : Value) : FailsPlainly (op.apply v line) := by
  cases op with
  | negate => exact (v.expectNumber_plain line (by decide)).bind fun _ => .ok _
  | not => exact .ok _

namespace BinaryOp

variable {op : BinaryOp} (a b : Value)

theorem applyArithmetic_plain {f : Float → Float → Float} (own : op.arithmetic? = some f) :
    FailsPlainly (op.applyArithmetic a b line) := by
  unfold applyArithmetic
  rw [own]
  exact (a.expectNumbers_plain line b).bind fun _ => .ok _

theorem applyOrdering_plain {r : Float → Float → Bool} (own : op.ordering? = some r) :
    FailsPlainly (op.applyOrdering a b line) := by
  unfold applyOrdering
  rw [own]
  exact (a.expectNumbers_plain line b).bind fun _ => .ok _

theorem applySetAlgebra_plain {f : Members → Members → Value} (own : op.setAlgebra? = some f) :
    FailsPlainly (op.applySetAlgebra a b line) := by
  unfold applySetAlgebra
  rw [own]
  exact (a.expectSet_plain line (by decide)).bind fun _ => (b.expectSet_plain line (by decide)).bind fun _ => .ok _

/-- Every operator is applied by its own family. -/
theorem apply_plain (op : BinaryOp) : FailsPlainly (op.apply a b line) := by
  cases op with
  | add | sub | mul | div | rem =>
    rw [apply]
    exact applyArithmetic_plain line a b rfl
  | less | lessEqual | greater | greaterEqual =>
    rw [apply]
    exact applyOrdering_plain line a b rfl
  | equal | notEqual => exact .ok _
  | union | intersect | subseteq =>
    rw [apply]
    exact applySetAlgebra_plain line a b rfl
  | member => exact (b.expectSet_plain line (by decide)).bind fun _ => .ok _

end BinaryOp

theorem countValue_plain (n : Nat) : FailsPlainly (countValue n line) := by
  unfold countValue
  cases Number.ofCount? n with
  | some x => exact .ok _
  | none => exact .error trivial

/-! ## Functions -/

namespace Builtin

variable (f : Builtin) {args : List Value}

theorem onNumber_plain (op : Float → Float) (one : args.length = 1) : FailsPlainly (f.onNumber op args line) := by
  obtain ⟨v, rfl⟩ := List.length_eq_one_iff.mp one
  exact (v.expectNumber_plain line (by simp [toString])).bind fun _ => .ok _

theorem numbers_plain (members : Members) : FailsPlainly (f.numbers members line) :=
  .mapM (fun v => v.expectNumber_plain line (by simp [toString])) members.elements

theorem extremum_plain (pick : Float → Float → Float) (fits : args.length = 1 ∨ args.length = 2) :
    FailsPlainly (f.extremum pick args line) := by
  rcases fits with one | two
  · obtain ⟨v, rfl⟩ := List.length_eq_one_iff.mp one
    refine (v.expectSet_plain line (by simp [toString])).bind fun members => (f.numbers_plain line members).bind ?_
    rintro (_ | ⟨x, xs⟩)
    · exact .error trivial
    · exact .ok _
  · obtain ⟨v, w, rfl⟩ := List.length_eq_two.mp two
    exact (v.expectNumbers_plain line w).bind fun _ => .ok _

theorem total_plain (one : args.length = 1) : FailsPlainly (f.total args line) := by
  obtain ⟨v, rfl⟩ := List.length_eq_one_iff.mp one
  exact (v.expectSet_plain line (by simp [toString])).bind fun members =>
    (f.numbers_plain line members).bind fun _ => .ok _

theorem check_plain (one : args.length = 1) : FailsPlainly (f.check args line) := by
  obtain ⟨v, rfl⟩ := List.length_eq_one_iff.mp one
  unfold check
  dsimp only
  split
  · exact .ok _
  · exact .error trivial

/-- A function that gets as many arguments as it takes finds no wrong number of them. -/
theorem apply_plain (fits : args.length ∈ f.arity) : FailsPlainly (f.apply args line) := by
  cases f with
  | sqrt | abs | floor | ceil => exact onNumber_plain line _ _ (List.mem_singleton.mp fits)
  | min | max => exact extremum_plain line _ _ (List.mem_pair.mp fits)
  | sum => exact total_plain line _ (List.mem_singleton.mp fits)
  | assert => exact check_plain line _ (List.mem_singleton.mp fits)

/-- Without the check in front of it, a function would find the wrong number itself. -/
example : Builtin.max.apply [] 1 = .error ⟨.argumentCount "1 or 2" 0, 1⟩ := rfl

end Builtin

/-- A call fails plainly, or in front of a function that does not take that many arguments. -/
theorem Value.call_eq_error {callee : Value} {args : List Value} {fault : Fault}
    (h : callee.call args line = .error fault) :
    fault.cause.IsPlain ∨ ∃ f, callee = .builtin f ∧ args.length ∉ f.arity ∧
      fault = ⟨.argumentCount f.arityText args.length, line⟩ := by
  cases callee with
  | builtin f =>
    simp only [call, Builtin.call] at h
    split at h
    · next fits => exact .inl (f.apply_plain line fits fault h)
    · next other =>
      cases h
      exact .inr ⟨f, rfl, other, rfl⟩
  | _ =>
    cases h
    exact .inl trivial

/-! ## Expressions -/

namespace Environment

theorem get_plain (env : Environment) (name : Token) : FailsPlainly (env.get name) := by
  unfold get
  split
  · exact .ok _
  · exact .error trivial

theorem assign_plain (env : Environment) (name : Token) (v : Value) : FailsPlainly (env.assign name v) := by
  unfold assign
  split
  · exact .ok _
  · exact .error trivial

end Environment

/-- A part has a fault of its own for a plain cause, or it is a call that gets no further than the check of the number
of arguments. -/
theorem Expr.Raises.plain_or_call {part : Expr} {env final : Environment} {fault : Fault}
    (h : part.Raises env fault final) :
    fault.cause.IsPlain ∨ ∃ paren callee arguments between f args, part = .call paren callee arguments ∧
      callee.eval env = (.ok (.builtin f), between) ∧ evalAll arguments between = (.ok args, final) ∧
      args.length ∉ f.arity ∧ fault = ⟨.argumentCount f.arityText args.length, paren.line⟩ := by
  cases h with
  | read unbound => exact .inl (env.get_plain _ fault unbound)
  | unary _ failed => exact .inl (UnaryOp.apply_plain _ _ _ fault failed)
  | binary _ _ failed => exact .inl (BinaryOp.apply_plain _ _ _ _ fault failed)
  | range _ failed => exact .inl (Value.expectSet_plain _ _ (by decide) fault failed)
  | counted _ failed =>
    exact .inl (((Value.expectSet_plain _ _ (by decide)).bind fun _ => countValue_plain _ _) fault failed)
  | call called values failed =>
    rcases Value.call_eq_error _ failed with plain | ⟨f, rfl, other, hf⟩
    · exact .inl plain
    · exact .inr ⟨_, _, _, _, f, _, rfl, called, values, other, hf⟩
  | assign _ unbound => exact .inl (Environment.assign_plain _ _ _ fault unbound)

/-! ## Main theorem -/

/-- The scanner gives every number, string and truth value its literal, and the parser misses none. A builtin function
that gets as many arguments as it takes finds no wrong number of them. No expression has the fault of a foreign operator
in any environment, and if it has the fault of a wrong number of arguments, then evaluation came to a call of a builtin
function, had its arguments, and found there that the function does not take as many. -/
theorem defensive_errors_unreachable :
    (∀ source : String,
      (∀ token ∈ (scan source).tokens, Decodes token.kind token.lexeme.toList token.literal?) ∧
        ∀ error ∈ (parse (scan source).tokens).errors, ¬ error.cause.IsMissingLiteral) ∧
      (∀ (f : Builtin) (args : List Value) (line : Nat) (fault : Fault), args.length ∈ f.arity →
        f.apply args line = .error fault → ∀ expected found, fault.cause ≠ .argumentCount expected found) ∧
      ∀ (e : Expr) (env final : Environment) (fault : Fault), e.eval env = (.error fault, final) →
        ¬ fault.cause.IsForeignOperator ∧
          ∀ expected found, fault.cause = .argumentCount expected found →
            ∃ paren callee arguments inside between f args,
              e.Reaches env (.call paren callee arguments) inside ∧ paren.line = fault.line ∧
                callee.eval inside = (.ok (.builtin f), between) ∧
                Expr.evalAll arguments between = (.ok args, final) ∧
                args.length ∉ f.arity ∧ expected = f.arityText ∧ found = args.length := by
  refine ⟨fun source => ⟨decodes_scan source, ?_⟩, ?_, ?_⟩
  · exact literate_parse fun token ht => (decodes_scan source token ht).carriesLiteral
  · intro f args line fault fits failed expected found hc
    have plain := f.apply_plain line fits fault failed
    rw [hc] at plain
    exact plain
  · intro e env final fault failed
    obtain ⟨part, inside, reaches, raises⟩ := Expr.exists_raises failed
    rcases raises.plain_or_call with
      plain | ⟨paren, callee, arguments, between, f, args, rfl, called, values, other, rfl⟩
    · refine ⟨fun foreign => foreign.not_isPlain plain, fun expected found hc => ?_⟩
      rw [hc] at plain
      exact plain.elim
    · refine ⟨nofun, ?_⟩
      rintro _ _ ⟨⟩
      exact ⟨paren, callee, arguments, inside, between, f, args, reaches, rfl, called, values, other, rfl, rfl⟩

/-- The tree of `{ f(true, true, true) | f in {max} }`: a function out of a set gets an argument too many. -/
def storedCall : Expr :=
  .comprehension
    (.call ⟨.rightParen, ")", none, 1⟩ (.variable (.identifier "f" 1)) (.replicate 3 (.literal (.bool true))))
    (.identifier "f" 1) (.roster [.variable (.identifier "max" 1)]) none

/-- A literal in front of an error, a function that gets one argument of the wrong kind, and a call that gets three. -/
theorem defensive_errors_unreachable_storedCall :
    ∃ final,
      (⟨.trueWord, "true", some (.bool true), 1⟩ ∈ (scan "true").tokens ∧
        Decodes .trueWord "true".toList (some (.bool true))) ∧
      (⟨.unexpectedEnd "Expect ';' after expression", 1⟩ ∈ (parse (scan "true").tokens).errors ∧
        ¬ (SyntaxError.Cause.unexpectedEnd "Expect ';' after expression").IsMissingLiteral) ∧
      (Builtin.sum.apply [.nil] 1 = .error ⟨.typeMismatch "Argument to 'sum' must be a set.", 1⟩ ∧
        ∀ expected found,
          Fault.Cause.typeMismatch "Argument to 'sum' must be a set." ≠ .argumentCount expected found) ∧
      storedCall.eval .initial = (.error ⟨.argumentCount "1 or 2" 3, 1⟩, final) ∧
      ¬ (Fault.Cause.argumentCount "1 or 2" 3).IsForeignOperator ∧
      ∃ paren callee arguments inside between f args,
        storedCall.Reaches .initial (.call paren callee arguments) inside ∧ paren.line = 1 ∧
          callee.eval inside = (.ok (.builtin f), between) ∧
          Expr.evalAll arguments between = (.ok args, final) ∧
          args.length ∉ f.arity ∧ "1 or 2" = f.arityText ∧ 3 = args.length := by
  have scanned : ⟨.trueWord, "true", some (.bool true), 1⟩ ∈ (scan "true").tokens := by decide +kernel
  have read : ⟨.unexpectedEnd "Expect ';' after expression", 1⟩ ∈ (parse (scan "true").tokens).errors := by
    decide +kernel
  have failed : Builtin.sum.apply [.nil] 1 = .error ⟨.typeMismatch "Argument to 'sum' must be a set.", 1⟩ := rfl
  have stopped : storedCall.eval .initial =
      (.error ⟨.argumentCount "1 or 2" 3, 1⟩, (storedCall.eval .initial).2) := Prod.ext (by cbv) rfl
  obtain ⟨parsing, calling, evaluation⟩ := defensive_errors_unreachable
  obtain ⟨foreign, counted⟩ := evaluation storedCall .initial _ _ stopped
  exact ⟨_, ⟨scanned, (parsing "true").1 _ scanned⟩, ⟨read, (parsing "true").2 _ read⟩,
    ⟨failed, calling .sum [.nil] 1 _ (by decide) failed⟩, stopped, foreign, counted _ _ rfl⟩

end SetScript
