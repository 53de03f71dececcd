import SetScript.Proofs.Parser.Recovery
/-!
# Reading on other lines

The lines of tokens go into what is read and decide nothing: a stream whose tokens are moved to other lines
is read as the same program, moved in the same way (`parse_mapLine`).
-/

open SetScript.Parser

namespace SetScript

/-- A stream, and the same tokens on other lines. -/
def Link.moved (f : Nat → Nat) (endLine : Nat) (ahead : List Token) (h : AtBoundary ahead) : Link where
  move := f
  endLine := endLine
  endLine' := f endLine
  ahead := ahead
  ahead' := ahead.map (Token.mapLine f)
  report e e' := e' = e.mapLine f
  fatal e e' := e' = e.mapLine f
  at_boundary := h
  at_boundary' := by
    intro token ht
    obtain ⟨other, ho, rfl⟩ := Option.map_eq_some_iff.1 ((List.head?_map ..).symm.trans ht)
    exact h other ho
  closing := by cases ahead <;> rfl
  report_inside _ _ _ := rfl
  report_ahead _ _ := by cases ahead <;> rfl
  fatal_inside _ _ _ := rfl
  fatal_ahead _ _ := by cases ahead <;> rfl
  misfit_ahead _ := by cases ahead <;> rfl

theorem resume_mapLine (f : Nat → Nat) (tokens : List Token) :
    resume (tokens.map (Token.mapLine f)) = (resume tokens).map (Token.mapLine f) := by
  induction tokens with
  | nil => rfl
  | cons token tokens ih =>
    have kind : (token.mapLine f).kind = token.kind := rfl
    simp only [List.map_cons, resume, kind, ih]
    split
    · rfl
    · split <;> rfl

theorem reports_moved {f : Nat → Nat} {reports reports' : List SyntaxError}
    (same : List.Forall₂ (fun e e' => e' = e.mapLine f) reports reports') :
    reports' = reports.map (SyntaxError.mapLine f) := by
  induction same with
  | nil => rfl
  | cons one _ ih => rw [List.map_cons, one, ih]

theorem turn_mapLine (f : Nat → Nat) (endLine : Nat) (token : Token) (tokens : List Token) :
    turn (f endLine) ((token :: tokens).map (Token.mapLine f)) =
      ((turn endLine (token :: tokens)).1.map (Statement.mapLine f),
        (turn endLine (token :: tokens)).2.1.map (SyntaxError.mapLine f),
        (turn endLine (token :: tokens)).2.2.map (Token.mapLine f)) := by
  have both := turn_linked (Link.moved f endLine _ (atBoundary_behind (token :: tokens))) token tokens rfl
  have whole : (front (token :: tokens)).map (Token.mapLine f) ++
      (behind (token :: tokens)).map (Token.mapLine f) = (token :: tokens).map (Token.mapLine f) := by
    rw [← List.map_append, front_append_behind]
  simp only [Link.moved, whole] at both
  generalize turn endLine (token :: tokens) = x, turn (f endLine) _ = y at both ⊢
  cases both with
  | statement s same => simp only [reports_moved same, resume_mapLine, Option.map_some]
  | failure fatal same => simp [reports_moved same, resume_mapLine, show _ = _ from fatal]

theorem declarations_mapLine (f : Nat → Nat) (endLine : Nat) (tokens : List Token) :
    declarations (f endLine) (tokens.map (Token.mapLine f)) = (declarations endLine tokens).mapLine f := by
  fun_induction declarations endLine tokens with
  | case1 => simp [declarations, Program.mapLine]
  | case2 token tokens step others ih =>
    have first := turn_mapLine f endLine token tokens
    rw [List.map_cons] at first ⊢
    rw [declarations, first, ih]
    change _ = Program.mapLine f ⟨step.1.toList ++ others.statements, step.2.1 ++ others.errors⟩
    cases step.1 <;> simp [Program.mapLine, step, others]

/-- A stream with an end marker is read on other lines as the same program. -/
theorem parse_mapLine (f : Nat → Nat) {tokens : List Token} (hn : tokens ≠ []) :
    parse (tokens.map (Token.mapLine f)) = (parse tokens).mapLine f := by
  have front : (tokens.map (Token.mapLine f)).takeWhile (·.kind != .eof) =
      (tokens.takeWhile (·.kind != .eof)).map (Token.mapLine f) := by
    rw [List.takeWhile_map]
    rfl
  have marker : endLine (tokens.map (Token.mapLine f)) = f (endLine tokens) := by
    have kinds : ((fun token : Token => token.kind == .eof) ∘ Token.mapLine f) = (·.kind == .eof) := rfl
    unfold endLine
    rw [List.find?_map, kinds, List.getLast?_map, List.getLast?_eq_some_getLast hn]
    cases tokens.find? (·.kind == .eof) <;> rfl
  rw [parse, parse, front, marker, declarations_mapLine]

end SetScript
