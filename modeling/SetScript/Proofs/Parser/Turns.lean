import SetScript.Proofs.Parser.Lookahead
/-!
# Turns

One turn of reading takes what stands up to the first boundary and stops behind its `;`, or in front of the
word that begins the next statement, whether it gives a statement or an error. `turn_word` and `turn_plain`
say so of the turns on the two streams of a link, and that these two contribute corresponding statements,
reports and errors.
-/

open SetScript.Parser

namespace SetScript

namespace Link

variable (link : Link)

/-- Replies of a parser that must be followed by a `;`: either both have taken the one that stands ahead,
or both have failed on the piece. -/
inductive Closes {α : Type} (g : α → α) : Reply α → Reply α → Prop where
  | ok (a : α) {reports reports' : List SyntaxError} (same : List.Forall₂ link.report reports reports') :
      Closes g ⟨.ok a, resume link.ahead, reports⟩ ⟨.ok (g a), resume link.ahead', reports'⟩
  | error {e e' : SyntaxError} {left : List Token} {reports reports' : List SyntaxError}
      (both : link.fatal e e') (unbroken : Unbroken left)
      (same : List.Forall₂ link.report reports reports') :
      Closes g ⟨.error e, link.stream left, reports⟩ ⟨.error e', link.stream' left, reports'⟩

/-- Turns that correspond: a statement each, or an error each that comes last. -/
inductive Contributes :
    Option Statement × List SyntaxError × List Token → Option Statement × List SyntaxError × List Token → Prop where
  | statement (s : Statement) {reports reports' : List SyntaxError}
      (same : List.Forall₂ link.report reports reports') :
      Contributes (some s, reports, resume link.ahead) (some (s.mapLine link.move), reports', resume link.ahead')
  | failure {e e' : SyntaxError} (both : link.fatal e e') {reports reports' : List SyntaxError}
      (same : List.Forall₂ link.report reports reports') :
      Contributes (none, reports ++ [e], resume link.ahead) (none, reports' ++ [e'], resume link.ahead')

/-- Where the next turns start. -/
theorem Contributes.rest {link : Link} {x y : Option Statement × List SyntaxError × List Token}
    (h : link.Contributes x y) : x.2.2 = resume link.ahead ∧ y.2.2 = resume link.ahead' := by
  cases h <;> exact ⟨rfl, rfl⟩

end Link

variable {α : Type} {link : Link}

/-! ## Where reading goes on -/

theorem resume_append {piece : List Token} (h : Unbroken piece) (ahead : List Token) :
    resume (piece ++ ahead) = resume ahead := by
  induction piece with
  | nil => rfl
  | cons token piece ih =>
    obtain ⟨inside, rest⟩ := unbroken_cons.1 h
    simp only [Kind.isBoundary, Bool.or_eq_false_iff, beq_eq_false_iff_ne] at inside
    rw [List.cons_append, resume, if_neg (by simp [inside.2]), if_neg inside.1, ih rest]

theorem resume_semicolon {token : Token} (h : token.kind = .semicolon) (rest : List Token) :
    resume (token :: rest) = rest := by
  simp [resume, h, Kind.beginsStatement, afterWord?]

theorem unbroken_mapLine {piece : List Token} (f : Nat → Nat) (h : Unbroken piece) :
    Unbroken (piece.map (Token.mapLine f)) := by
  intro token hm
  obtain ⟨other, ho, rfl⟩ := List.mem_map.1 hm
  exact h other ho

theorem resume_stream {piece : List Token} (h : Unbroken piece) :
    resume (link.stream piece) = resume link.ahead ∧ resume (link.stream' piece) = resume link.ahead' :=
  ⟨resume_append h _, resume_append (unbroken_mapLine _ h) _⟩

/-! ## The end of a statement -/

/-- What a parser that asks for a `;` does where there is none. -/
theorem run_expect_misfit {kind : Kind} {tokens : List Token} (expected : String) (endLine : Nat)
    (h : tokens.head?.any (·.kind == kind) = false) :
    (expect kind expected).run endLine tokens = ⟨.error (misfit expected endLine tokens), tokens, []⟩ := by
  cases tokens with
  | nil => rfl
  | cons token rest =>
    have other : token.kind ≠ kind := by simpa using h
    rw [run_expect_cons, if_neg other]
    rfl

theorem exists_head {kind : Kind} {tokens : List Token} (h : tokens.head?.any (·.kind == kind) = true) :
    ∃ token rest, tokens = token :: rest ∧ token.kind = kind := by
  cases tokens with
  | nil => simp at h
  | cons token rest => exact ⟨token, rest, rfl, by simpa using h⟩

theorem closedBy_closes {g : α → α} {p : Parser α} (hp : Lockstep link g p p) (expected : String)
    {piece : List Token} (h : Unbroken piece) :
    link.Closes g ((closedBy p .semicolon expected).run link.endLine (link.stream piece))
      ((closedBy p .semicolon expected).run link.endLine' (link.stream' piece)) := by
  have first := hp piece h
  unfold closedBy
  rw [run_bind, run_bind]
  generalize p.run link.endLine (link.stream piece) = r, p.run link.endLine' (link.stream' piece) = r'
    at first ⊢
  cases first with
  | error both unbroken same => exact .error both unbroken same
  | @ok a left reports reports' unbroken same =>
    dsimp only
    rw [run_bind, run_bind]
    -- What is left of the piece has no `;`, so only with nothing left can the statement end here.
    cases left with
    | cons token left =>
      have other : token.kind ≠ .semicolon := by
        have := (unbroken_cons.1 unbroken).1
        rintro hk
        simp [hk, Kind.isBoundary] at this
      rw [run_expect_misfit, run_expect_misfit]
      · simp only [List.append_nil]
        exact .error (link.fatal_inside _ token.line rfl) unbroken same
      · simpa [Link.stream', Token.mapLine] using other
      · simpa [Link.stream] using other
    | nil =>
      have closing := link.closing
      simp only [Link.stream, Link.stream', List.map_nil, List.nil_append]
      cases hc : link.ahead.head?.any (·.kind == .semicolon) with
      | false =>
        rw [run_expect_misfit _ _ hc, run_expect_misfit _ _ (closing ▸ hc)]
        simp only [List.append_nil]
        exact .error (link.misfit_ahead expected) unbroken_nil same
      | true =>
        obtain ⟨token, rest, ha, hk⟩ := exists_head hc
        obtain ⟨token', rest', ha', hk'⟩ := exists_head (closing ▸ hc)
        have both : link.Closes g _ _ := .ok a same
        rw [ha, ha', resume_semicolon hk, resume_semicolon hk'] at both
        simpa [ha, ha', run_expect_cons, hk, hk', run_pure] using both

/-! ## Statements -/

theorem lockstep_name (expected : String) :
    Lockstep link (Token.mapLine link.move) (name expected) (name expected) :=
  .expect rfl expected

theorem lockstep_expression : Lockstep link (Expr.mapLine link.move) expression expression :=
  (lockstep_nested link maxNesting).expression

/-- What follows a statement word is closed by a `;`, and read in lockstep before that. -/
theorem tail_closedBy {kind : Kind} {tail : Parser Statement} (h : afterWord? kind = some tail) (link : Link) :
    ∃ p expected, tail = closedBy p .semicolon expected ∧ Lockstep link (Statement.mapLine link.move) p p := by
  cases kind <;> simp only [afterWord?, Option.some.injEq, reduceCtorEq] at h <;> subst h
  case letWord =>
    refine ⟨_, _, rfl, .bind (lockstep_name _) fun x => .bind (.expect rfl _) fun _ => ?_⟩
    exact .bind lockstep_expression fun value => .pure rfl
  case defWord =>
    refine ⟨_, _, rfl, .bind (lockstep_name _) fun f => .bind (.expect rfl _) fun _ => ?_⟩
    refine .bind (lockstep_listUntil (lockstep_name _) rfl _) ?_
    rintro ⟨parameters, _⟩
    refine .bind (.expect rfl _) fun _ => .bind lockstep_expression fun body => ?_
    exact .pure rfl
  case printWord => exact ⟨_, _, rfl, .bind lockstep_expression fun value => .pure rfl⟩

/-- A turn in which a statement has been read up to its `;`, or given up. -/
theorem turn_contributes {tokens tokens' : List Token}
    (h : link.Closes (Statement.mapLine link.move) (declaration.run link.endLine tokens)
      (declaration.run link.endLine' tokens')) :
    link.Contributes (turn link.endLine tokens) (turn link.endLine' tokens') := by
  unfold turn
  generalize declaration.run link.endLine tokens = r, declaration.run link.endLine' tokens' = r' at h ⊢
  cases h with
  | ok s same => exact .statement s same
  | error both unbroken same =>
    simp only [resume_stream unbroken]
    exact .failure both same

/-- The turn of a statement that begins with a word. -/
theorem turn_word {token : Token} (ht : token.kind.beginsStatement = true) {piece : List Token}
    (h : Unbroken piece) :
    link.Contributes (turn link.endLine (token :: link.stream piece))
      (turn link.endLine' (token.mapLine link.move :: link.stream' piece)) := by
  obtain ⟨tail, hw⟩ := Option.isSome_iff_exists.1 ht
  have hw' : afterWord? (token.mapLine link.move).kind = some tail := hw
  obtain ⟨p, expected, rfl, hp⟩ := tail_closedBy hw link
  apply turn_contributes
  rw [run_declaration_cons, run_declaration_cons, hw, hw']
  exact closedBy_closes hp expected h

/-- The turn of a statement that begins with none: there is something in the piece, or none ahead. -/
theorem turn_plain {piece : List Token} (h : Unbroken piece)
    (hn : piece = [] → link.ahead.head?.any (·.kind.beginsStatement) = false ∧
      link.ahead'.head?.any (·.kind.beginsStatement) = false) :
    link.Contributes (turn link.endLine (link.stream piece)) (turn link.endLine' (link.stream' piece)) := by
  have plain : ∀ endLine tokens, tokens.head?.any (·.kind.beginsStatement) = false →
      declaration.run endLine tokens = expressionStatement.run endLine tokens := by
    intro endLine tokens hw
    cases tokens with
    | nil => rfl
    | cons token rest =>
      have none : afterWord? token.kind = none := by simpa [Kind.beginsStatement] using hw
      rw [run_declaration_cons, none]
  apply turn_contributes
  rw [plain, plain]
  · refine closedBy_closes (.bind lockstep_expression fun value => ?_) _ h
    exact .pure rfl
  · cases piece with
    | nil => exact (hn rfl).2
    | cons token piece =>
      have inside := (unbroken_cons.1 h).1
      simp only [Kind.isBoundary, Bool.or_eq_false_iff] at inside
      simpa [Link.stream', Token.mapLine] using inside.2
  · cases piece with
    | nil => exact (hn rfl).1
    | cons token piece =>
      have inside := (unbroken_cons.1 h).1
      simp only [Kind.isBoundary, Bool.or_eq_false_iff] at inside
      simpa [Link.stream] using inside.2

end SetScript
