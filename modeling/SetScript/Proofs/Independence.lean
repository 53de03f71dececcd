import SetScript.Proofs.Evaluation.Frame
import SetScript.Proofs.Evaluation.FreeNames
import SetScript.Session
/-!
# Statements that can change places

All names are in one table, and an expression writes to it from anywhere inside. Still two statements can change places
if neither writes what the other reads or writes (`executeAll_swap`): both orders end with a fault or neither does, and
then each statement prints the same in both, and in the end every name has the same value. A computation behind another
one that spares its names ends as it does alone (`Eval.DependsOn.behind`).
-/

namespace SetScript

/-! ## What is read and what is written -/

/-- The name that an effect is on. -/
def Effect.name : Effect → String
  | .assigns name | .ranges name => name

/-- The names that an expression assigns or a comprehension in it ranges over. -/
def Expr.writes (e : Expr) : List String := e.effects.map Effect.name

/-- The free names of the expression in a statement. A declaration of a function has no meaning at run time and reads
nothing. -/
def Statement.reads : Statement → List String
  | .print value | .let _ value | .expression value => value.free
  | .function _ _ _ => []

/-- The names that the expression in a statement writes, and the name of a `let`. -/
def Statement.writes : Statement → List String
  | .print value | .expression value => value.writes
  | .let x value => x.lexeme :: value.writes
  | .function _ _ _ => []

/-- Neither of two statements writes what the other one reads or writes. -/
structure Statement.Independent (first second : Statement) : Prop where
  left : ∀ name ∈ first.writes, name ∉ second.reads ∧ name ∉ second.writes
  right : ∀ name ∈ second.writes, name ∉ first.reads ∧ name ∉ first.writes

namespace Eval

variable {α β : Type} {names : List String} {env : Environment}

/-- However a computation ends, names other than these are bound as they were. -/
def WritesOnly (names : List String) (m : Eval α) : Prop :=
  ∀ (env : Environment) (name : String), name ∉ names → (m env).2.get? name = env.get? name

namespace WritesOnly

theorem mono {m : Eval α} {more : List String} (h : WritesOnly names m) (sub : names ⊆ more) : WritesOnly more m :=
  fun env name hn => h env name fun hm => hn (sub hm)

theorem pure (a : α) : WritesOnly names (Pure.pure a : Eval α) := fun _ _ _ => rfl

theorem define (name : String) (v : Value) : WritesOnly [name] (Eval.define name v) := by
  intro env other ho
  rw [Eval.define, Environment.get?_define, if_neg (by simpa using ho)]

theorem bind {m : Eval α} {k : α → Eval β} (hm : WritesOnly names m) (hk : ∀ a, WritesOnly names (k a)) :
    WritesOnly names (m >>= k) := by
  intro env name hn
  rcases bind_cases m k env with ⟨fault, -, h⟩ | ⟨a, -, h⟩
  · rw [h, hm env name hn]
  · rw [h, hk a _ name hn, hm env name hn]

end WritesOnly

end Eval

open Eval (DependsOn WritesOnly)

theorem Expr.eval_writesOnly (e : Expr) : WritesOnly e.writes e.eval := by
  intro env name hn
  apply (e.eval_framed env).unchanged
  · intro hm
    exact hn (List.mem_map_of_mem hm)
  · intro hm
    exact hn (List.mem_map_of_mem hm)

theorem Statement.execute_writesOnly (statement : Statement) : WritesOnly statement.writes statement.execute := by
  cases statement with
  | print value | expression value => exact value.eval_writesOnly.bind fun v => .pure _
  | «let» x value =>
    have hv := value.eval_writesOnly.mono (List.subset_cons_self x.lexeme value.writes)
    have target : [x.lexeme] ⊆ x.lexeme :: value.writes := List.cons_subset_cons _ (List.nil_subset _)
    exact hv.bind fun v => ((WritesOnly.define x.lexeme v).mono target).bind fun _ => .pure none
  | function x parameters body => exact fun _ _ _ => rfl

theorem Statement.execute_dependsOn (statement : Statement) : DependsOn statement.reads statement.execute := by
  cases statement with
  | print value | expression value => exact value.eval_dependsOn.bind fun v => .pure _
  | «let» x value => exact value.eval_dependsOn.bind fun v => DependsOn.define_bind (.pure none) v
  | function x parameters body => exact .ofExcept _

/-! ## Behind a computation that spares the names -/

namespace Eval

variable {α β : Type} {m : Eval α} {other : Eval β} {reads writes : List String}

/-- Behind a computation that writes none of the names it depends on, a computation ends as it does alone, and each name
that is spared has the value in the end that it has alone. -/
theorem DependsOn.behind (hm : DependsOn reads m) (ho : WritesOnly writes other)
    (spared : ∀ name ∈ writes, name ∉ reads) (env : Environment) :
    (m (other env).2).1 = (m env).1 ∧
      ∀ name, name ∉ writes → (m (other env).2).2.get? name = (m env).2.get? name := by
  have agree : env.AgreeOn reads (other env).2 := by
    intro name hn
    exact (ho env name fun hw => spared name hw hn).symm
  obtain ⟨same, changed⟩ := hm env (other env).2 agree
  refine ⟨same.symm, fun name hn => ?_⟩
  rcases changed name with ⟨kept, kept'⟩ | ⟨v, bound, bound'⟩
  · rw [kept, kept', ho env name hn]
  · rw [bound, bound']

end Eval

/-! ## Two statements -/

section Pairs

variable {first second : Statement} {env : Environment} {printed printed' : Option String}

theorem executeAll_pair (h : (first.execute env).1 = .ok printed)
    (h' : (second.execute (first.execute env).2).1 = .ok printed') :
    executeAll env [first, second] =
      ⟨printed.toList ++ printed'.toList, none, (second.execute (first.execute env).2).2⟩ := by
  have one : first.execute env = (.ok printed, (first.execute env).2) := Prod.ext h rfl
  have two : second.execute (first.execute env).2 = (.ok printed', (second.execute (first.execute env).2).2) :=
    Prod.ext h' rfl
  rw [executeAll, one]
  dsimp only
  rw [executeAll, two]
  simp [executeAll]

theorem executeAll_pair_fault? (first second : Statement) (env : Environment) :
    (executeAll env [first, second]).fault? = none ↔
      (∃ printed, (first.execute env).1 = .ok printed) ∧
        ∃ printed, (second.execute (first.execute env).2).1 = .ok printed := by
  constructor
  · intro none
    rcases Eval.eq_error_or_eq_ok first.execute env with ⟨fault, after, h⟩ | ⟨printed, after, h⟩
    · rw [executeAll, h] at none
      cases none
    · rcases Eval.eq_error_or_eq_ok second.execute after with ⟨fault, last, h'⟩ | ⟨printed', last, h'⟩
      · rw [executeAll, h] at none
        dsimp only at none
        rw [executeAll, h'] at none
        cases none
      · rw [h]
        exact ⟨⟨printed, rfl⟩, printed', by rw [h']⟩
  · rintro ⟨⟨printed, h⟩, printed', h'⟩
    rw [executeAll_pair h h']

end Pairs

/-- Two statements of which neither writes what the other one reads or writes can change places. Both orders end
without a fault or both with one. Without a fault, each statement prints in either order what it prints alone, and in
the end the same names are bound to the same values. -/
theorem executeAll_swap {first second : Statement} (independent : first.Independent second) (env : Environment) :
    let forth := executeAll env [first, second]
    let back := executeAll env [second, first]
    (forth.fault? = none ↔ back.fault? = none) ∧
      (forth.fault? = none → ∃ printed printed' : Option String,
        ((first.execute env).1 = .ok printed ∧ (first.execute (second.execute env).2).1 = .ok printed) ∧
          ((second.execute env).1 = .ok printed' ∧ (second.execute (first.execute env).2).1 = .ok printed') ∧
          (forth.output = printed.toList ++ printed'.toList ∧ back.output = printed'.toList ++ printed.toList) ∧
          ∀ name, forth.environment.get? name = back.environment.get? name) := by
  intro forth back
  obtain ⟨outcome, values⟩ := first.execute_dependsOn.behind second.execute_writesOnly
    (fun name hn => (independent.right name hn).1) env
  obtain ⟨outcome', values'⟩ := second.execute_dependsOn.behind first.execute_writesOnly
    (fun name hn => (independent.left name hn).1) env
  have forthEnds := executeAll_pair_fault? first second env
  have backEnds := executeAll_pair_fault? second first env
  rw [outcome'] at forthEnds
  rw [outcome] at backEnds
  refine ⟨forthEnds.trans (and_comm.trans backEnds.symm), fun none => ?_⟩
  obtain ⟨⟨printed, h⟩, printed', h'⟩ := forthEnds.mp none
  have forthPair : forth = _ := executeAll_pair h (outcome'.trans h')
  have backPair : back = _ := executeAll_pair h' (outcome.trans h)
  refine ⟨printed, printed', ⟨h, outcome.trans h⟩, ⟨h', outcome'.trans h'⟩, ⟨?_, ?_⟩, fun name => ?_⟩
  · rw [forthPair]
  · rw [backPair]
  · rw [forthPair, backPair]
    dsimp only
    -- One of the two spares the name, and what the other one makes of it does not depend on the order.
    by_cases hn : name ∈ first.writes
    · have spared := (independent.left name hn).2
      rw [values name spared, second.execute_writesOnly _ name spared]
    · rw [values' name hn, first.execute_writesOnly _ name hn]

/-- `let a = { (n = x) == m | x in d };` -/
def seenInBetween : Statement :=
  .let (.identifier "a" 1) (.comprehension
    (.binary .equal ⟨.equalEqual, "==", none, 1⟩
      (.group (.assign (.identifier "n" 1) (.variable (.identifier "x" 1)))) (.variable (.identifier "m" 1)))
    (.identifier "x" 1)
    (.variable (.identifier "d" 1)) none)

/-- `print { y | y in d, y != m };` -/
def printOthers : Statement :=
  .print (.comprehension (.variable (.identifier "y" 1)) (.identifier "y" 1) (.variable (.identifier "d" 1))
    (some (.binary .notEqual ⟨.bangEqual, "!=", none, 1⟩ (.variable (.identifier "y" 1))
      (.variable (.identifier "m" 1)))))

/-- Both statements read `d` and `m`. The first one writes `a`, `n` and `x`, the second one writes `y`. -/
theorem executeAll_swap_others :
    let d : Value := .set (.ofList [.bool true, .string "s"])
    let env := ((Environment.initial.define "d" d).define "m" (.bool true)).define "n" .nil
    let forth := executeAll env [seenInBetween, printOthers]
    let back := executeAll env [printOthers, seenInBetween]
    seenInBetween.Independent printOthers ∧ forth.fault? = none ∧ back.fault? = none ∧ forth.output = ["\x7bs\x7d"] ∧
      back.output = ["\x7bs\x7d"] ∧ ∀ name, forth.environment.get? name = back.environment.get? name := by
  intro d env forth back
  have reads : seenInBetween.reads = ["d", "n", "m"] := by decide +kernel
  have reads' : printOthers.reads = ["d", "m"] := by decide +kernel
  have writes : seenInBetween.writes = ["a", "x", "n"] := rfl
  have writes' : printOthers.writes = ["y"] := rfl
  have independent : seenInBetween.Independent printOthers := by
    constructor
    · simp [reads', writes, writes']
    · simp [reads, writes, writes']
  have none : forth.fault? = none := by decide +kernel
  obtain ⟨alike, same⟩ := executeAll_swap independent env
  obtain ⟨printed, printed', -, -, -, values⟩ := same none
  exact ⟨independent, none, alike.mp none, by decide +kernel, by decide +kernel, values⟩

end SetScript
