import SetScript.Proofs.Layout
import SetScript.Proofs.Outcome
import SetScript.Proofs.Scan.Lines
/-!
# Every line that is told is real

What is told of a run stands in the text: an error of scanning where the offending text begins, an error of reading on
the line of a token, and a fault on the line of a token that the failing statement keeps in its tree
(`run_lines`). That faults know no other lines is seen by moving all others: the statement stays as it is, and so does
its fault.
-/

namespace SetScript

open Grammar

/-! ## The lines in a tree -/

mutual

/-- The lines of the tokens that an expression keeps. -/
def Expr.lines : Expr → List Nat
  | .literal _ => []
  | .variable name => [name.line]
  | .group inner => inner.lines
  | .unary _ operator operand => operator.line :: operand.lines
  | .binary _ operator left right => operator.line :: left.lines ++ right.lines
  | .roster elements => Expr.linesOfAll elements
  | .comprehension result bound domain filter? =>
    bound.line :: result.lines ++ domain.lines ++ Expr.linesOf? filter?
  | .cardinality pipe operand => pipe.line :: operand.lines
  | .call paren callee arguments => paren.line :: callee.lines ++ Expr.linesOfAll arguments
  | .assign name value => name.line :: value.lines

def Expr.linesOfAll : List Expr → List Nat
  | [] => []
  | e :: es => e.lines ++ Expr.linesOfAll es

def Expr.linesOf? : Option Expr → List Nat
  | none => []
  | some e => e.lines

end

/-- The lines of the tokens that a statement keeps. -/
def Statement.lines : Statement → List Nat
  | .print value | .expression value => value.lines
  | .let name value => name.line :: value.lines
  | .function name parameters body => name.line :: parameters.map (·.line) ++ body.lines

/-! ## Moving no line of a tree -/

variable {f : Nat → Nat}

theorem Token.mapLine_eq_self_iff (token : Token) : token.mapLine f = token ↔ f token.line = token.line := by
  obtain ⟨kind, lexeme, literal?, line⟩ := token
  simp [mapLine]

mutual

/-- A tree stays as it is just when its own lines stay. -/
theorem Expr.mapLine_eq_self_iff (e : Expr) : e.mapLine f = e ↔ ∀ line ∈ e.lines, f line = line := by
  cases e <;>
    simp only [mapLine, lines, variable.injEq, group.injEq, unary.injEq, binary.injEq, roster.injEq,
      comprehension.injEq, cardinality.injEq, call.injEq, assign.injEq, true_and, List.cons_append,
      List.forall_mem_cons, List.forall_mem_append, List.not_mem_nil, false_imp_iff, implies_true, and_true,
      Token.mapLine_eq_self_iff, Expr.mapLine_eq_self_iff, Expr.mapLines_eq_self_iff, Expr.mapLine?_eq_self_iff]
  case comprehension => rw [and_left_comm, and_assoc]

theorem Expr.mapLines_eq_self_iff (es : List Expr) :
    Expr.mapLines f es = es ↔ ∀ line ∈ Expr.linesOfAll es, f line = line := by
  cases es with
  | nil => simp [mapLines, linesOfAll]
  | cons e es =>
    rw [mapLines, linesOfAll, List.cons.injEq, List.forall_mem_append, mapLine_eq_self_iff e, mapLines_eq_self_iff es]

theorem Expr.mapLine?_eq_self_iff (e? : Option Expr) :
    Expr.mapLine? f e? = e? ↔ ∀ line ∈ Expr.linesOf? e?, f line = line := by
  cases e? with
  | none => simp [mapLine?, linesOf?]
  | some e => rw [mapLine?, linesOf?, Option.some.injEq, mapLine_eq_self_iff e]

end

theorem Statement.mapLine_eq_self_iff (statement : Statement) :
    statement.mapLine f = statement ↔ ∀ line ∈ statement.lines, f line = line := by
  cases statement with
  | print value | expression value => simp [mapLine, lines, Expr.mapLine_eq_self_iff]
  | «let» name value => simp [mapLine, lines, Expr.mapLine_eq_self_iff, Token.mapLine_eq_self_iff]
  | function name parameters body =>
    have names : parameters.map (Token.mapLine f) = parameters ↔ ∀ x ∈ parameters, f x.line = x.line := by
      conv => lhs; rhs; rw [← List.map_id parameters]
      simp only [List.map_inj_left, id, Token.mapLine_eq_self_iff]
    simp [mapLine, lines, Expr.mapLine_eq_self_iff, Token.mapLine_eq_self_iff, names, or_imp, forall_and]

/-! ## Where faults stand -/

theorem Expr.line_mem_of_fault {e : Expr} {env after : Environment} {fault : Fault}
    (h : e.eval env = (.error fault, after)) : fault.line ∈ e.lines := by
  -- Where no line of the tree moves, the fault comes out again, and a line of no token would have moved.
  have stays : e.mapLine (moveOthers e.lines) = e :=
    e.mapLine_eq_self_iff.mpr fun line hl => moveOthers_eq_self_iff.mpr hl
  have same := congrArg Prod.fst (congrFun (e.eval_mapLine (moveOthers e.lines)) env)
  rw [stays, Eval.mapLine, h] at same
  exact moveOthers_eq_self_iff.mp (congrArg Fault.line (Except.error.inj same)).symm

/-- A fault that stops a statement stands on a line of the statement. -/
theorem Statement.Fails.line_mem {statement : Statement} {env after : Environment} {fault : Fault}
    (h : statement.Fails env fault after) : fault.line ∈ statement.lines := by
  cases h with
  | print stops | expression stops => exact Expr.line_mem_of_fault stops
  | «let» stops => exact List.mem_cons_of_mem _ (Expr.line_mem_of_fault stops)
  | function => exact List.mem_append_left _ List.mem_cons_self

/-! ## Where statements stand -/

/-- A statement keeps no lines but those of the tokens that it is read from. -/
theorem Grammar.Derivation.lines_subset {d : Derivation .declaration} (h : Within 100 d) :
    d.tree.lines ⊆ d.tokens.map (·.line) := by
  have read := declarations_flatMap (List.forall_mem_singleton.mpr h)
  rw [List.flatMap_singleton] at read
  have same := declarations_mapLine (moveOthers (d.tokens.map (·.line))) 0 d.tokens
  rw [map_moveOthers, read, read] at same
  have stays : d.tree.mapLine (moveOthers (d.tokens.map (·.line))) = d.tree :=
    (List.head_eq_of_cons_eq (congrArg Program.statements same)).symm
  intro line hl
  exact moveOthers_eq_self_iff.mp ((d.tree.mapLine_eq_self_iff).mp stays line hl)

/-! ## Main theorem -/

/-- What a thing that is told of a run comes from, and where that stands. -/
inductive Diagnostic.Arises (env : Environment) (source : String) : Diagnostic → Prop where
  /-- An error of scanning is a piece of the text, and stands on the line on which the piece begins. -/
  | scanning {front behind : List Piece} {piece : Piece} {error : SyntaxError}
    (split : pieces source.toList = front ++ piece :: behind)
    (offends : piece.IsError (1 + (front.flatMap (·.text)).count '\n') error) : Arises env source error.diagnostic
  /-- An error of reading stands on the line of a token or of the end marker. -/
  | reading {error : SyntaxError} {token : Token} (found : error ∈ (parse (scan source).tokens).errors)
    (there : token ∈ (scan source).tokens) (same : error.line = token.line) : Arises env source error.diagnostic
  /-- A fault stands on a line that the failing statement keeps, between the first and the last of the tokens that the
  statement is read from. -/
  | running {before later : List (Derivation .declaration)} {failing : Derivation .declaration} {output : List String}
    {middle after : Environment} {fault : Fault} {first last : Token}
    (tokens : (before ++ failing :: later).flatMap Derivation.tokens = textTokens source.toList)
    (statements : (before ++ failing :: later).map Derivation.tree = (parseSource source).statements)
    (executes : Executes env (before.map Derivation.tree) output middle)
    (fails : failing.tree.Fails middle fault after) (kept : fault.line ∈ failing.tree.lines)
    (starts : failing.tokens.head? = some first) (ends : failing.tokens.getLast? = some last)
    (within : first.line ≤ fault.line ∧ fault.line ≤ last.line) : Arises env source fault.diagnostic

/-- The statements of an accepted text and the declarations that they are read from. -/
theorem exists_derivations {source : String} (h : (parseSource source).errors = []) :
    ∃ ds : List (Derivation .declaration), (∀ d ∈ ds, Within 100 d) ∧
      ds.flatMap Derivation.tokens = textTokens source.toList ∧
      ds.map Derivation.tree = (parseSource source).statements := by
  obtain ⟨-, ds, within, tokens⟩ := (parseSource_errors_eq_nil_iff source).mp h
  refine ⟨ds, fun d hd => (within d hd).2, tokens, ?_⟩
  rw [parseSource_eq, ← tokens, declarations_flatMap fun d hd => (within d hd).2]

/-- A fault that stops a run stands inside the statement that it stops. -/
theorem running_arises {env : Environment} {source : String} (accepted : (parseSource source).errors = [])
    {fault : Fault} (stopped : (executeAll env (parseSource source).statements).fault? = some fault) :
    1 ≤ fault.line ∧ fault.line ≤ 1 + source.toList.count '\n' ∧ fault.diagnostic.Arises env source := by
  obtain ⟨ds, within, tokens, trees⟩ := exists_derivations accepted
  rcases executeAll_cases env (parseSource source).statements with
    ⟨none, -⟩ | ⟨_, _, _, middle, fault', split, stopped', executes, fails, -⟩
  · rw [none] at stopped
    cases stopped
  obtain rfl := Option.some.inj (stopped'.symm.trans stopped)
  rw [← trees] at split
  obtain ⟨before, rest, rfl, rfl, cut⟩ := List.map_eq_append_iff.mp split
  obtain ⟨failing, later, rfl, rfl, rfl⟩ := List.map_eq_cons_iff.mp cut
  have all := lines_textTokens source.toList
  have part : failing.tokens.Sublist (textTokens source.toList) := by
    rw [← tokens, List.flatMap_append, List.flatMap_cons]
    exact (List.sublist_append_left ..).trans (List.sublist_append_right ..)
  have inside := all.sublist (part.map _)
  have kept := fails.line_mem
  have there := Derivation.lines_subset (within failing (by simp)) kept
  obtain ⟨start, stop, starts, ends, between⟩ := inside.between there
  rw [List.head?_map, Option.map_eq_some_iff] at starts
  rw [List.getLast?_map, Option.map_eq_some_iff] at ends
  obtain ⟨first, starts, rfl⟩ := starts
  obtain ⟨last, ends, rfl⟩ := ends
  obtain ⟨low, high⟩ := inside.within _ there
  exact ⟨low, high, .running tokens trees executes fails kept starts ends between⟩

/-- Everything that is told of a run stands on a line of the text: an error of scanning on the line where the offending
text begins, an error of reading on the line of a token, and a fault on the line of a token that the failing statement
keeps, so between the first and the last line of the statement. -/
theorem run_lines (env : Environment) (source : String) {told : Diagnostic}
    (h : told ∈ (run env source).diagnostics) :
    1 ≤ told.line ∧ told.line ≤ 1 + source.toList.count '\n' ∧ told.Arises env source := by
  by_cases accepted : (parseSource source).errors = []
  · rw [run_accepted accepted, Option.mem_toList, Option.map_eq_some_iff] at h
    obtain ⟨fault, stopped, rfl⟩ := h
    exact running_arises accepted stopped
  · rw [run_rejected accepted] at h
    obtain ⟨error, he, rfl⟩ := List.mem_map.mp h
    rcases List.mem_append.mp he with scanned | read
    · obtain ⟨low, high⟩ := (lines_textErrors source.toList).within _ (List.mem_map.mpr ⟨error, scanned, rfl⟩)
      obtain ⟨front, piece, behind, split, offends⟩ := exists_piece_of_error scanned
      exact ⟨low, high, .scanning split offends⟩
    · have there := line_mem_of_error (by simp [scan]) read
      obtain ⟨low, high⟩ := (lines_scan source).within _ there
      obtain ⟨token, ht, same⟩ := List.mem_map.mp there
      exact ⟨low, high, .reading read ht same.symm⟩

/-- A program over six lines. The assertion fails for the second member, where the call is closed. -/
def failedAssertion : String :=
  "let n = 1;\nprint \x7b assert(x\n  ) | x in \x7b n == n,\n n != n\x7d\n\x7d;\nprint n;"

theorem run_lines_failedAssertion :
    ⟨.running, 3, "Assertion failed."⟩ ∈ (run .initial failedAssertion).diagnostics ∧
      failedAssertion.toList.count '\n' = 5 ∧
      Diagnostic.Arises .initial failedAssertion ⟨.running, 3, "Assertion failed."⟩ := by
  have told : ⟨.running, 3, "Assertion failed."⟩ ∈ (run .initial failedAssertion).diagnostics := by decide +kernel
  exact ⟨told, by decide +kernel, (run_lines .initial failedAssertion told).2.2⟩

end SetScript
