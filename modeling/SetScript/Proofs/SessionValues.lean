import SetScript.Proofs.Evaluation.WellFormed
import SetScript.Proofs.Value.Cardinality
import SetScript.Session
import SetScript.Syntax.Equality
/-!
# The values of a session

However a session goes, with runs that end well, that are rejected or that are stopped by a fault, no set in it ever
has two equal elements: `session_wellFormed` says so of every value that is bound and of every value that an
expression yields on the way.
-/

namespace SetScript

/-- The environment in which a session stands after some sources. -/
def session (sources : List String) : Environment :=
  sources.foldl (fun env source => (run env source).environment) .initial

/-- The expression that a statement evaluates. -/
def Statement.expression? : Statement → Option Expr
  | .print value | .let _ value | .expression value => some value
  | .function _ _ _ => none

/-- In a session, an expression comes to be evaluated in an environment: as that of a statement which is reached, or
as part of one that is evaluated. -/
inductive EvaluatedIn (sources : List String) : Expr → Environment → Prop where
  | statement {earlier later : List String} {source : String} {before behind : List Statement} {statement : Statement}
    {e : Expr} (split : sources = earlier ++ source :: later) (accepted : (parseSource source).errors = [])
    (program : (parseSource source).statements = before ++ statement :: behind)
    (reached : (executeAll (session earlier) before).fault? = none) (evaluates : statement.expression? = some e) :
    EvaluatedIn sources e (executeAll (session earlier) before).environment
  | part {e part : Expr} {env inside : Environment} (whole : EvaluatedIn sources e env)
    (enters : e.Enters env part inside) : EvaluatedIn sources part inside

/-! ## Runs keep environments well formed -/

theorem executeAll_wellFormed {env : Environment} (h : env.WellFormed) (statements : List Statement) :
    (executeAll env statements).environment.WellFormed := by
  induction statements generalizing env with
  | nil => exact h
  | cons statement statements ih =>
    obtain ⟨result, env', hs⟩ : ∃ result env', statement.execute env = (result, env') := ⟨_, _, rfl⟩
    have henv' := statement.execute_keeps.after h hs
    rw [executeAll, hs]
    cases result with
    | error fault => exact henv'
    | ok printed? => exact ih henv'

theorem run_wellFormed {env : Environment} (h : env.WellFormed) (source : String) :
    (run env source).environment.WellFormed := by
  unfold run
  dsimp only
  split
  · exact executeAll_wellFormed h _
  · exact h

theorem wellFormed_session (sources : List String) : (session sources).WellFormed := by
  have all : ∀ env : Environment, env.WellFormed →
      (sources.foldl (fun env source => (run env source).environment) env).WellFormed := by
    induction sources with
    | nil => exact fun _ h => h
    | cons source sources ih => exact fun env h => ih _ (run_wellFormed h source)
  exact all .initial Environment.wellFormed_initial

theorem EvaluatedIn.wellFormed {sources : List String} {e : Expr} {env : Environment} (h : EvaluatedIn sources e env) :
    env.WellFormed := by
  induction h with
  | statement => exact executeAll_wellFormed (wellFormed_session _) _
  | part _ enters ih => exact enters.wellFormed ih

/-! ## Main theorem -/

/-- The number that bars give for each set in a value, at any depth, is the number of its unequal elements. -/
def Value.Counted (v : Value) : Prop :=
  ∀ s, (Value.set s).Within v → ∃ n, s.IsCount n ∧ (Value.set s).Counts n

theorem Value.WellFormed.counted {v : Value} (h : v.WellFormed) : v.Counted :=
  fun s hs => ⟨s.length, (wellFormed_set.mp (h.of_within hs)).isCount_length, counts_length s⟩

/-- Every value that is bound after some sources, or while they run, and every value that an expression yields on the
way, is well formed: in each set of it, at any depth, no two elements are equal, the index holds the elements and
nothing else, and the length that the program sees is the number of unequal elements. -/
theorem session_wellFormed (sources : List String) :
    (∀ name v, (session sources).get? name = some v → v.WellFormed ∧ v.Counted) ∧
      ∀ e env, EvaluatedIn sources e env →
        (∀ name v, env.get? name = some v ∨ (e.eval env).2.get? name = some v → v.WellFormed ∧ v.Counted) ∧
          ∀ v, (e.eval env).1 = .ok v → v.WellFormed ∧ v.Counted := by
  refine ⟨fun name v h => ?_, fun e env h => ⟨fun name v hv => ?_, fun v hv => ?_⟩⟩
  · have := wellFormed_session sources name v h
    exact ⟨this, this.counted⟩
  · have : v.WellFormed := hv.elim (h.wellFormed name v) ((e.eval_keeps env h.wellFormed).1 name v)
    exact ⟨this, this.counted⟩
  · have := (e.eval_keeps env h.wellFormed).2 v hv
    exact ⟨this, this.counted⟩

/-- A set is filled with equal elements. -/
def doubledSource : String := "let a = \x7b1, \x7b2, 1\x7d, 1.0\x7d union \x7b\x7b1, 2\x7d\x7d;"

/-- Later it is replaced by the filter of a comprehension that then fails. -/
def replacedSources : List String :=
  [doubledSource, "print a = \x7b\x7d;", "print \x7b;",
    "print \x7b|x| | x in \x7b3, 4\x7d, a = \x7bx, \x7ba\x7d\x7d\x7d;"]

/-- The expression of the first source. -/
def doubledUnion : Expr :=
  let one : Expr := .literal (.number 1.0)
  let two : Expr := .literal (.number 2.0)
  .binary .union ⟨.unionWord, "union", none, 1⟩ (.roster [one, .roster [two, one], one]) (.roster [.roster [one, two]])

/-- A value that is written like a set with so many elements. -/
def Value.isSetOf (text : String) (n : Nat) (v : Value) : Bool :=
  match v with
  | .set s => v.text == text && s.length == n
  | _ => false

theorem Value.exists_of_isSetOf {v? : Option Value} {text : String} {n : Nat} (h : v?.any (isSetOf text n) = true) :
    ∃ s : Members, v? = some (.set s) ∧ (Value.set s).text = text ∧ s.length = n := by
  obtain ⟨v, rfl, shape⟩ := (Option.any_eq_true _ _).mp h
  cases v with
  | set s =>
    simp only [isSetOf, Bool.and_eq_true, beq_iff_eq] at shape
    exact ⟨s, rfl, shape⟩
  | _ => cases shape

/-- In a well-formed set whose number of elements is a double, that double is what bars give. -/
theorem Value.Counted.countsAs {s : Members} {x : Float} (counted : (Value.set s).Counted)
    (wellFormed : (Value.set s).WellFormed) (few : s.length ≤ 2 ^ 53 - 1) (natural : Number.IsNatural x s.length) :
    (Value.set s).CountsAs x := by
  obtain ⟨n, count, counts⟩ := counted s (.self _)
  obtain rfl := count.unique (wellFormed_set.mp wellFormed).isCount_length
  exact counts.countsAs few natural

theorem session_wellFormed_replaced :
    (∃ s : Members, (session replacedSources).get? "a" = some (.set s) ∧
        (Value.set s).text = "\x7b3,\x7b\x7b\x7d\x7d\x7d" ∧ (Value.set s).WellFormed ∧ (Value.set s).CountsAs 2) ∧
      ∃ s : Members, EvaluatedIn replacedSources doubledUnion .initial ∧
        (doubledUnion.eval .initial).1 = .ok (.set s) ∧ (Value.set s).text = "\x7b1,\x7b2,1\x7d\x7d" ∧
        (Value.set s).WellFormed ∧ (Value.set s).CountsAs 2 := by
  have two : Number.IsNatural 2 2 := by decide +kernel
  obtain ⟨bound, yielded⟩ := session_wellFormed replacedSources
  constructor
  · have shape : ((session replacedSources).get? "a").any (Value.isSetOf "\x7b3,\x7b\x7b\x7d\x7d\x7d" 2) = true := by
      decide +kernel
    obtain ⟨s, hv, text, size⟩ := Value.exists_of_isSetOf shape
    obtain ⟨wellFormed, counted⟩ := bound "a" _ hv
    exact ⟨s, hv, text, wellFormed, counted.countsAs wellFormed (by rw [size]; decide) (size ▸ two)⟩
  · have accepted : (parseSource doubledSource).errors = [] := by decide +kernel
    have program : (parseSource doubledSource).statements = [] ++ [.let (.identifier "a" 1) doubledUnion] := by
      decide +kernel
    have evaluated : EvaluatedIn replacedSources doubledUnion .initial :=
      .statement (List.nil_append replacedSources).symm accepted program rfl rfl
    have shape : (doubledUnion.eval .initial).1.toOption.any (Value.isSetOf "\x7b1,\x7b2,1\x7d\x7d" 2) = true := by
      decide +kernel
    obtain ⟨s, hv, text, size⟩ := Value.exists_of_isSetOf shape
    have hv : (doubledUnion.eval .initial).1 = .ok (.set s) := by
      cases h : (doubledUnion.eval .initial).1 with
      | ok w => rw [h] at hv; cases hv; rfl
      | error fault => rw [h] at hv; cases hv
    obtain ⟨wellFormed, counted⟩ := (yielded doubledUnion .initial evaluated).2 _ hv
    exact ⟨s, evaluated, hv, text, wellFormed, counted.countsAs wellFormed (by rw [size]; decide) (size ▸ two)⟩

end SetScript
