import SetScript.Proofs.Parser.Lockstep
/-!
# The parsers look ahead to the next boundary

Every parser of the grammar is in lockstep with itself on the streams of any link (`lockstep_nested`), so
nothing beyond the next `;` or statement word has a part in how an expression is read.
-/

namespace SetScript

namespace Parser

variable {α : Type} {link : Link}

/-! ## What the first token is asked for -/

theorem carries_lineIf {kind : Kind} (h : kind.isBoundary = false) :
    Carries link link.move (lineIf kind) (lineIf kind) where
  boundary token ht := by
    have other : token.kind ≠ kind := by rintro rfl; simp [h] at ht
    simp [lineIf, other]
  moved token := by
    by_cases hk : token.kind = kind <;> simp [lineIf, Token.mapLine, hk]

theorem carries_kind {kind : Kind} (h : kind.isBoundary = false) :
    Carries link (Token.mapLine link.move) (fun token => if token.kind = kind then some token else none)
      (fun token => if token.kind = kind then some token else none) where
  boundary token ht := by
    have other : token.kind ≠ kind := by rintro rfl; simp [h] at ht
    simp [other]
  moved token := by
    by_cases hk : token.kind = kind <;> simp [Token.mapLine, hk]

/-- A choice made by the kind of the first token, which gives the token as well. -/
theorem carries_choice (pick : Kind → Option α) (h : ∀ kind, kind.isBoundary = true → pick kind = none) :
    Carries link (Prod.map id (Token.mapLine link.move)) (fun token => (pick token.kind).map (·, token))
      (fun token => (pick token.kind).map (·, token)) where
  boundary token ht := by simp [h token.kind ht]
  moved token := by
    cases hp : pick token.kind <;> simp [Token.mapLine, hp]

theorem carries_layerOp (ops : List BinaryOp) :
    Carries link (Prod.map id (Token.mapLine link.move)) (layerOp ops) (layerOp ops) := by
  refine carries_choice (fun kind => (BinaryOp.ofKind? kind).filter (· ∈ ops)) fun kind hk => ?_
  cases kind <;> first | rfl | simp [Kind.isBoundary, Kind.beginsStatement, afterWord?] at hk

theorem Lockstep.expect {kind : Kind} (h : kind.isBoundary = false) (expected : String) :
    Lockstep link (Token.mapLine link.move) (expect kind expected) (expect kind expected) := by
  refine .bind (.accept? (carries_kind h)) ?_
  rintro (_ | token)
  · exact .unexpected _ expected
  · exact .pure rfl

/-! ## Lists -/

theorem lockstep_moreItems {g : α → α} {item : Parser α} (hi : Lockstep link g item item) (items : List α) :
    Lockstep link (List.map g) (moreItems item items) (moreItems item (items.map g)) := by
  refine .iterate (carries_lineIf rfl) (fun _ items => ?_) items
  exact .bind hi fun a => .pure (by simp)

theorem lockstep_limitedItem {g : α → α} {item : Parser α} (hi : Lockstep link g item item)
    (items : List α) :
    Lockstep link (List.map g) (limitedItem item items) (limitedItem item (items.map g)) := by
  have last : Lockstep link (List.map g) (do return items ++ [← item]) (do return items.map g ++ [← item]) :=
    .bind hi fun a => .pure (by simp)
  unfold limitedItem
  rw [List.length_map]
  split
  · exact .bind (.reportHere rfl) fun _ => last
  · exact last

theorem lockstep_limitedItems {g : α → α} {item : Parser α} (hi : Lockstep link g item item) :
    Lockstep link (List.map g) (limitedItems item) (limitedItems item) :=
  .bind (lockstep_limitedItem hi []) fun first =>
    .iterate (carries_lineIf rfl) (fun _ items => lockstep_limitedItem hi items) first

/-- Whether the first token is of a given kind that no boundary has. -/
theorem head_kind {kind : Kind} (h : kind.isBoundary = false) (piece : List Token) :
    (link.stream' piece).head?.any (·.kind == kind) = (link.stream piece).head?.any (·.kind == kind) := by
  have nowhere : ∀ ahead, AtBoundary ahead → ahead.head?.any (·.kind == kind) = false := by
    intro ahead hb
    cases ahead with
    | nil => rfl
    | cons token rest =>
      have other : token.kind ≠ kind := by
        rintro rfl
        exact absurd (hb.head rfl) (by simp [h])
      simpa using other
  cases piece with
  | nil =>
    simp only [Link.stream, Link.stream', List.map_nil, List.nil_append]
    rw [nowhere _ link.at_boundary, nowhere _ link.at_boundary']
  | cons token piece => simp [Link.stream, Link.stream', Token.mapLine]

theorem lockstep_listUntil {g : α → α} {item : Parser α} (hi : Lockstep link g item item) {closing : Kind}
    (h : closing.isBoundary = false) (expected : String) :
    Lockstep link (Prod.map (List.map g) (Token.mapLine link.move)) (listUntil item closing expected)
      (listUntil item closing expected) := by
  intro piece unbroken
  have closed : ∀ items, Lockstep link (Prod.map (List.map g) (Token.mapLine link.move))
      (do return (items, ← expect closing expected)) (do return (items.map g, ← expect closing expected)) := by
    intro items
    exact .bind (.expect h expected) fun token => .pure rfl
  unfold listUntil
  rw [run_peek?_bind, run_peek?_bind, head_kind h]
  split
  · exact closed [] piece unbroken
  · exact Lockstep.bind (lockstep_limitedItems hi) closed piece unbroken

/-! ## Expressions -/

/-- The parsers one level deeper are in lockstep with themselves. -/
structure Nested.Lockstep (link : Link) (inner : Nested) : Prop where
  expression : Parser.Lockstep link (Expr.mapLine link.move) inner.expression inner.expression
  operand : Parser.Lockstep link (Expr.mapLine link.move) inner.operand inner.operand

/-- Nothing at a boundary begins an expression. -/
theorem primary_atBoundary (inner : Nested) (endLine : Nat) {tokens : List Token} (h : AtBoundary tokens) :
    (primary inner).run endLine tokens = (unexpected "Expect expression").run endLine tokens := by
  unfold primary
  rw [run_peek?_bind]
  cases tokens with
  | nil => rfl
  | cons token rest =>
    have boundary := h.head rfl
    obtain ⟨kind, lexeme, literal?, line⟩ := token
    cases kind <;> first | rfl | simp [Kind.isBoundary, Kind.beginsStatement, afterWord?] at boundary

variable {inner : Nested} (hi : Nested.Lockstep link inner)

include hi

theorem lockstep_comprehensionTail (result : Expr) :
    Lockstep link (Expr.mapLine link.move) (comprehensionTail inner result)
      (comprehensionTail inner (result.mapLine link.move)) := by
  refine .bind (.expect rfl _) fun bound => .bind (.expect rfl _) fun _ => .bind hi.expression fun domain => ?_
  have closed : ∀ filter? : Option Expr, Lockstep link (Expr.mapLine link.move)
      (do let _ ← expect .rightBrace "Expect '\x7d' after set comprehension"
          return .comprehension result bound domain filter?)
      (do let _ ← expect .rightBrace "Expect '\x7d' after set comprehension"
          return .comprehension (result.mapLine link.move) (bound.mapLine link.move) (domain.mapLine link.move)
            (filter?.map (Expr.mapLine link.move))) := by
    intro filter?
    exact .bind (.expect rfl _) fun _ => .pure (by simp [Expr.mapLine])
  refine .bind (.accept? (carries_lineIf rfl)) ?_
  rintro (_ | _)
  · exact closed none
  · exact .bind (.map hi.expression fun _ => rfl) closed

theorem lockstep_setTail :
    Lockstep link (Expr.mapLine link.move) (setTail inner) (setTail inner) := by
  refine .bind (.accept? (carries_lineIf rfl)) ?_
  rintro (_ | _)
  · refine .bind hi.expression fun first => .bind (.accept? (carries_lineIf rfl)) ?_
    rintro (_ | _)
    · refine .bind (lockstep_moreItems hi.expression [first]) fun elements => .bind (.expect rfl _) fun _ => ?_
      exact .pure (by simp [Expr.mapLine])
    · exact lockstep_comprehensionTail hi first
  · exact .pure rfl

theorem lockstep_primary :
    Lockstep link (Expr.mapLine link.move) (primary inner) (primary inner) := by
  intro piece unbroken
  cases piece with
  | nil =>
    have first := primary_atBoundary inner link.endLine link.at_boundary
    have second := primary_atBoundary inner link.endLine' link.at_boundary'
    simp only [Link.stream, Link.stream', List.map_nil, List.nil_append]
    rw [first, second]
    exact Lockstep.unexpected (Expr.mapLine link.move) _ [] unbroken
  | cons token piece =>
    obtain ⟨_, inside⟩ := unbroken_cons.1 unbroken
    obtain ⟨kind, lexeme, literal?, line⟩ := token
    cases kind with
    | number | string | trueWord | falseWord =>
      cases literal? with
      | none => exact Lockstep.unexpected _ _ _ unbroken
      | some value => exact .ok (Expr.literal value) inside .nil
    | identifier => exact .ok (Expr.variable ⟨.identifier, lexeme, literal?, line⟩) inside .nil
    | leftParen =>
      refine Lockstep.bind hi.expression (fun e => .bind (.expect rfl _) fun _ => ?_) piece inside
      exact .pure rfl
    | pipe =>
      refine Lockstep.bind hi.expression (fun e => .bind (.expect rfl _) fun _ => ?_) piece inside
      exact .pure rfl
    | leftBrace => exact lockstep_setTail hi piece inside
    | _ => exact Lockstep.unexpected _ _ _ unbroken

theorem lockstep_call : Lockstep link (Expr.mapLine link.move) (call inner) (call inner) := by
  refine .bind (lockstep_primary hi) fun callee => .iterate (carries_lineIf rfl) (fun _ callee => ?_) callee
  refine .bind (lockstep_listUntil hi.expression rfl _) fun (arguments, closing) => ?_
  exact .pure (by simp [Expr.mapLine])

theorem lockstep_unary : Lockstep link (Expr.mapLine link.move) (unary inner) (unary inner) := by
  refine .bind (.accept? (carries_choice UnaryOp.ofKind? ?_)) ?_
  · intro kind hk
    cases kind <;> first | rfl | simp [Kind.isBoundary, Kind.beginsStatement, afterWord?] at hk
  · rintro (_ | ⟨op, operator⟩)
    · exact lockstep_call hi
    · exact .bind hi.operand fun operand => .pure rfl

omit hi in
theorem lockstep_leftAssoc (ops : List BinaryOp) {operand : Parser Expr}
    (ho : Lockstep link (Expr.mapLine link.move) operand operand) :
    Lockstep link (Expr.mapLine link.move) (leftAssoc ops operand) (leftAssoc ops operand) := by
  refine .bind ho fun first => .iterate (carries_layerOp ops) (fun (op, operator) left => ?_) first
  refine .bind ho fun right => ?_
  exact .pure rfl

theorem lockstep_equality : Lockstep link (Expr.mapLine link.move) (equality inner) (equality inner) := by
  iterate 8 apply lockstep_leftAssoc
  exact lockstep_unary hi

theorem lockstep_assignment :
    Lockstep link (Expr.mapLine link.move) (assignment inner) (assignment inner) := by
  refine .bind (lockstep_equality hi) fun target => .bind (.accept? (carries_lineIf rfl)) ?_
  rintro (_ | line)
  · exact .pure rfl
  · refine .bind hi.expression fun value => ?_
    cases target with
    | «variable» name => exact .pure rfl
    | _ => exact .bind (.report line rfl) fun _ => .pure rfl

omit hi in
/-- However many levels are left, expressions are read in lockstep. -/
theorem lockstep_nested (link : Link) (n : Nat) : Nested.Lockstep link (nested n) := by
  induction n with
  | zero => exact ⟨.fail _ rfl, .fail _ rfl⟩
  | succ n ih => exact ⟨lockstep_assignment ih, lockstep_unary ih⟩

end Parser

end SetScript
