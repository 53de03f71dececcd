import SetScript.Proofs.Parser.Recovery
import SetScript.Proofs.Scan.Division
/-!
# Literals in the parser

The parser asks a number, a string or a truth value for its literal, and stops where there is none. The scanner gives
each of these tokens the literal that belongs to it (`decodes_scan`). On such tokens no parser of the grammar misses a
literal (`Parser.Literate`), so reading them ends in no error that says so (`literate_parse`).
-/

namespace SetScript

/-- What the grammar asked for where the error stands. -/
def SyntaxError.Cause.expected? : SyntaxError.Cause → Option String
  | .unexpectedToken expected _ | .unexpectedEnd expected => some expected
  | _ => none

/-- A token that should have a literal has none. -/
def SyntaxError.Cause.IsMissingLiteral (cause : SyntaxError.Cause) : Prop :=
  cause.expected? = some "Expect literal value"

instance (cause : SyntaxError.Cause) : Decidable cause.IsMissingLiteral := inferInstanceAs (Decidable (_ = _))

theorem SyntaxError.Cause.not_isMissingLiteral {cause : SyntaxError.Cause} (h : cause.expected? = none) :
    ¬ cause.IsMissingLiteral := by simp [IsMissingLiteral, h]

/-- A token that has a literal if it should have one. -/
def Token.CarriesLiteral (token : Token) : Prop :=
  token.kind ∈ [Kind.number, .string, .trueWord, .falseWord] → token.literal?.isSome

/-- A reply without an error for a missing literal, whether it was reported or stopped the parser. -/
structure Reply.Literate {α : Type} (reply : Reply α) : Prop where
  reports : ∀ error ∈ reply.reports, ¬ error.cause.IsMissingLiteral
  fatal : ∀ error, reply.result = .error error → ¬ error.cause.IsMissingLiteral

theorem Reply.Literate.andThen {α β : Type} {first : Reply α} {second : Reply β} (h : first.Literate)
    (h' : second.Literate) : Reply.Literate ⟨second.result, second.rest, first.reports ++ second.reports⟩ :=
  ⟨List.forall_mem_append.mpr ⟨h.reports, h'.reports⟩, h'.fatal⟩

/-- The reply of a parser that is stopped where another one was. -/
theorem Reply.Literate.stopped {α β : Type} {reply : Reply α} {e : SyntaxError} (h : reply.Literate)
    (hr : reply.result = .error e) : Reply.Literate (α := β) ⟨.error e, reply.rest, reply.reports⟩ := by
  refine ⟨h.reports, ?_⟩
  rintro _ ⟨⟩
  exact h.fatal e hr

namespace Parser

variable {α β σ : Type} {p : Parser α} {inner : Nested}

/-- On tokens that carry their literals, the parser misses none. -/
def Literate (p : Parser α) : Prop :=
  ∀ endLine tokens, (∀ token ∈ tokens, token.CarriesLiteral) → (p.run endLine tokens).Literate

/-! ## Ways to build parsers -/

theorem Literate.of_silent
    (h : ∀ endLine tokens, ∃ (a : α) (rest : List Token), p.run endLine tokens = ⟨.ok a, rest, []⟩) : Literate p := by
  intro endLine tokens _
  obtain ⟨a, rest, hr⟩ := h endLine tokens
  rw [hr]
  exact ⟨List.forall_mem_nil _, fun _ stopped => nomatch stopped⟩

theorem Literate.pure (a : α) : Literate (pure a : Parser α) := .of_silent fun _ tokens => ⟨a, tokens, rfl⟩

theorem Literate.peek? : Literate peek? := .of_silent fun _ tokens => ⟨_, tokens, rfl⟩

theorem Literate.skip : Literate skip := .of_silent fun _ _ => ⟨_, _, rfl⟩

theorem Literate.accept? (accept : Token → Option α) : Literate (accept? accept) := by
  refine .of_silent fun endLine tokens => ?_
  rw [run_accept?]
  cases tokens.head?.bind accept <;> exact ⟨_, _, rfl⟩

theorem Literate.fail {cause : SyntaxError.Cause} (h : ¬ cause.IsMissingLiteral) :
    Literate (fail cause : Parser α) := by
  intro endLine tokens _
  refine ⟨List.forall_mem_nil _, ?_⟩
  rintro _ ⟨⟩
  exact h

theorem Literate.report {error : SyntaxError} (h : ¬ error.cause.IsMissingLiteral) : Literate (report error) :=
  fun _ _ _ => ⟨List.forall_mem_singleton.mpr h, fun _ stopped => nomatch stopped⟩

theorem Literate.reportHere {cause : SyntaxError.Cause} (h : ¬ cause.IsMissingLiteral) : Literate (reportHere cause) :=
  fun _ _ _ => ⟨List.forall_mem_singleton.mpr h, fun _ stopped => nomatch stopped⟩

theorem Literate.bind {f : α → Parser β} (hp : Literate p) (hf : ∀ a, Literate (f a)) : Literate (p >>= f) := by
  intro endLine tokens carry
  have first := hp endLine tokens carry
  rw [run_bind]
  cases hr : (p.run endLine tokens).result with
  | error e => exact first.stopped hr
  | ok a => exact first.andThen (hf a endLine _ fun token ht => carry token ((p.rest_suffix endLine tokens).mem ht))

theorem Literate.map {f : α → β} (hp : Literate p) : Literate (f <$> p) := hp.bind fun _ => .pure _

/-- The first token carries its literal when it is looked at. -/
theorem Literate.peek?_bind {f : Option Token → Parser β}
    (hf : ∀ next?, (∀ token ∈ next?, token.CarriesLiteral) → Literate (f next?)) : Literate (Parser.peek? >>= f) :=
  fun endLine tokens carry =>
    hf tokens.head? (fun token ht => carry token (List.mem_of_mem_head? ht)) endLine tokens carry

/-- A demand of the grammar that is not the one for a literal. -/
theorem Literate.unexpected {expected : String} (h : expected ≠ "Expect literal value") :
    Literate (unexpected expected : Parser α) := by
  have other : some expected ≠ some "Expect literal value" := fun he => h (Option.some.inj he)
  refine Literate.peek?.bind ?_
  rintro (_ | token) <;> exact .fail other

theorem Literate.expect (kind : Kind) {expected : String} (h : expected ≠ "Expect literal value") :
    Literate (expect kind expected) := by
  refine (Literate.accept? _).bind ?_
  rintro (_ | token)
  · exact .unexpected h
  · exact .pure token

theorem Literate.iterate {accept : Token → Option σ} {next : σ → α → Parser α} (hn : ∀ s a, Literate (next s a))
    (a : α) : Literate (iterate accept next a) := by
  intro endLine tokens carry
  change (iterateReply accept next endLine a tokens).Literate
  fun_induction iterateReply accept next endLine a tokens with
  | case1 a => exact Literate.pure a endLine [] carry
  | case2 a token tokens => exact Literate.pure a endLine (token :: tokens) carry
  | case3 a token tokens s _ round e hr => exact (hn s a endLine tokens (List.forall_mem_cons.mp carry).2).stopped hr
  | case4 a token tokens s _ round b hr reply ih =>
    have carry := (List.forall_mem_cons.mp carry).2
    have left := (next s a).rest_suffix endLine tokens
    exact (hn s a endLine tokens carry).andThen (ih fun token ht => carry token (left.mem ht))

/-! ## The grammar -/

theorem literate_moreItems {item : Parser α} (hi : Literate item) (items : List α) : Literate (moreItems item items) :=
  .iterate (fun _ _ => hi.bind fun _ => .pure _) items

theorem literate_limitedItem {item : Parser α} (hi : Literate item) (items : List α) :
    Literate (limitedItem item items) := by
  have last : Literate (do return items ++ [← item]) := hi.bind fun _ => .pure _
  unfold limitedItem
  split
  · exact (Literate.reportHere (SyntaxError.Cause.not_isMissingLiteral rfl)).bind fun _ => last
  · exact last

theorem literate_listUntil {item : Parser α} (hi : Literate item) (closing : Kind) {expected : String}
    (he : expected ≠ "Expect literal value") : Literate (listUntil item closing expected) := by
  have closed : ∀ items : List α, Literate (do return (items, ← expect closing expected)) :=
    fun _ => (Literate.expect _ he).bind fun _ => .pure _
  refine Literate.peek?.bind fun next? => ?_
  dsimp only
  split
  · exact closed []
  · exact ((literate_limitedItem hi []).bind fun first => .iterate (fun _ => literate_limitedItem hi) first).bind closed

/-- The parsers one level deeper miss no literals. -/
structure Nested.Literate (inner : Nested) : Prop where
  expression : Parser.Literate inner.expression
  operand : Parser.Literate inner.operand

variable (hi : Nested.Literate inner)

include hi

theorem literate_comprehensionTail (result : Expr) : Literate (comprehensionTail inner result) := by
  refine (Literate.expect _ (by decide)).bind fun bound => (Literate.expect _ (by decide)).bind fun _ =>
    hi.expression.bind fun domain => ?_
  have closed : ∀ filter? : Option Expr, Literate (do
      let _ ← expect .rightBrace "Expect '\x7d' after set comprehension"
      return Expr.comprehension result bound domain filter?) :=
    fun _ => (Literate.expect _ (by decide)).bind fun _ => .pure _
  refine (Literate.accept? _).bind ?_
  rintro (_ | _)
  · exact closed none
  · exact hi.expression.map.bind closed

theorem literate_setTail : Literate (setTail inner) := by
  refine (Literate.accept? _).bind ?_
  rintro (_ | _)
  · refine hi.expression.bind fun first => (Literate.accept? _).bind ?_
    rintro (_ | _)
    · exact (literate_moreItems hi.expression [first]).bind fun _ =>
        (Literate.expect _ (by decide)).bind fun _ => .pure _
    · exact literate_comprehensionTail hi first
  · exact .pure _

theorem literate_primary : Literate (primary inner) := by
  refine .peek?_bind ?_
  rintro (_ | ⟨kind, lexeme, literal?, line⟩) carries
  · exact .unexpected (by decide)
  · cases kind with
    | number | string | trueWord | falseWord =>
      cases literal? with
      | none => exact absurd (carries _ rfl (by simp)) Bool.false_ne_true
      | some value => exact Literate.skip.bind fun _ => .pure _
    | identifier => exact Literate.skip.bind fun _ => .pure _
    | leftParen | pipe =>
      exact Literate.skip.bind fun _ => hi.expression.bind fun _ =>
        (Literate.expect _ (by decide)).bind fun _ => .pure _
    | leftBrace => exact Literate.skip.bind fun _ => literate_setTail hi
    | _ => exact .unexpected (by decide)

theorem literate_call : Literate (call inner) :=
  (literate_primary hi).bind fun callee =>
    .iterate (fun _ _ => (literate_listUntil hi.expression _ (by decide)).bind fun _ => .pure _) callee

theorem literate_unary : Literate (unary inner) := by
  refine (Literate.accept? _).bind ?_
  rintro (_ | ⟨op, line⟩)
  · exact literate_call hi
  · exact hi.operand.bind fun _ => .pure _

omit hi in
theorem literate_leftAssoc {operand : Parser Expr} (h : Literate operand) (ops : List BinaryOp) :
    Literate (leftAssoc ops operand) :=
  h.bind fun first => .iterate (fun _ _ => h.bind fun _ => .pure _) first

theorem literate_equality : Literate (equality inner) :=
  literate_leftAssoc (literate_leftAssoc (literate_leftAssoc (literate_leftAssoc (literate_leftAssoc
    (literate_leftAssoc (literate_leftAssoc (literate_leftAssoc (literate_unary hi) _) _) _) _) _) _) _) _

theorem literate_assignment : Literate (assignment inner) := by
  refine (literate_equality hi).bind fun target => (Literate.accept? _).bind ?_
  rintro (_ | line)
  · exact .pure target
  · refine hi.expression.bind fun value => ?_
    cases target with
    | «variable» name => exact .pure _
    | _ => exact (Literate.report (SyntaxError.Cause.not_isMissingLiteral rfl)).bind fun _ => .pure _

omit hi in
theorem literate_nested (n : Nat) : Nested.Literate (nested n) := by
  have tooDeep : ¬ (SyntaxError.Cause.nestingTooDeep maxNesting).IsMissingLiteral :=
    SyntaxError.Cause.not_isMissingLiteral rfl
  induction n with
  | zero => exact ⟨.fail tooDeep, .fail tooDeep⟩
  | succ n ih => exact ⟨literate_assignment ih, literate_unary ih⟩

omit hi

/-! ## Programs -/

theorem literate_expression : Literate expression := (literate_nested maxNesting).expression

theorem literate_name {expected : String} (h : expected ≠ "Expect literal value") : Literate (name expected) :=
  .expect _ h

theorem Literate.closedBy (hp : Literate p) (kind : Kind) {expected : String} (h : expected ≠ "Expect literal value") :
    Literate (closedBy p kind expected) :=
  hp.bind fun _ => (Literate.expect _ h).bind fun _ => .pure _

theorem literate_afterWord {kind : Kind} {tail : Parser Statement} (h : afterWord? kind = some tail) :
    Literate tail := by
  cases kind <;> cases h
  case defWord =>
    refine Literate.closedBy ?_ _ (by decide)
    exact (literate_name (by decide)).bind fun _ => (Literate.expect _ (by decide)).bind fun _ =>
      (literate_listUntil (literate_name (by decide)) _ (by decide)).bind fun _ =>
        (Literate.expect _ (by decide)).bind fun _ => literate_expression.map
  case letWord =>
    refine Literate.closedBy ?_ _ (by decide)
    exact (literate_name (by decide)).bind fun _ => (Literate.expect _ (by decide)).bind fun _ =>
      literate_expression.map
  case printWord => exact Literate.closedBy literate_expression.map _ (by decide)

theorem literate_expressionStatement : Literate expressionStatement :=
  Literate.closedBy literate_expression.map _ (by decide)

theorem literate_declaration : Literate declaration := by
  intro endLine tokens carry
  cases tokens with
  | nil => exact literate_expressionStatement endLine [] carry
  | cons token tokens =>
    rw [run_declaration_cons]
    split
    · next tail h => exact literate_afterWord h endLine tokens (List.forall_mem_cons.mp carry).2
    · exact literate_expressionStatement endLine (token :: tokens) carry

end Parser

/-- A turn reports what its declaration reports, and the error that stops it. -/
theorem literate_turn {tokens : List Token} (carry : ∀ token ∈ tokens, token.CarriesLiteral) (endLine : Nat) :
    ∀ error ∈ (turn endLine tokens).2.1, ¬ error.cause.IsMissingLiteral := by
  have read := Parser.literate_declaration endLine tokens carry
  unfold turn
  dsimp only
  split
  · exact read.reports
  · next e hr => exact List.forall_mem_append.mpr ⟨read.reports, List.forall_mem_singleton.mpr (read.fatal e hr)⟩

theorem literate_declarations {tokens : List Token} (carry : ∀ token ∈ tokens, token.CarriesLiteral) (endLine : Nat) :
    ∀ error ∈ (declarations endLine tokens).errors, ¬ error.cause.IsMissingLiteral := by
  fun_induction declarations endLine tokens with
  | case1 => exact List.forall_mem_nil _
  | case2 token tokens step others ih =>
    have left := turn_suffix endLine token tokens
    exact List.forall_mem_append.mpr ⟨literate_turn carry endLine, ih fun token ht => carry token (left.mem ht)⟩

/-- Reading tokens that carry their literals ends in no error for a missing one. -/
theorem literate_parse {tokens : List Token} (carry : ∀ token ∈ tokens, token.CarriesLiteral) :
    ∀ error ∈ (parse tokens).errors, ¬ error.cause.IsMissingLiteral :=
  literate_declarations (fun token ht => carry token ((List.takeWhile_prefix _).mem ht)) _

/-- A number without a literal, as no scanner gives it, is such an error. -/
example : ∃ error ∈ (parse [⟨.number, "1", none, 1⟩]).errors, error.cause.IsMissingLiteral := by decide +kernel

/-! ## Scanned tokens -/

theorem Decodes.carriesLiteral {token : Token} {text : List Char} (h : Decodes token.kind text token.literal?) :
    token.CarriesLiteral := by
  obtain ⟨kind, lexeme, literal?, line⟩ := token
  intro hk
  cases h with
  | other _ plain => exact absurd hk plain
  | _ => rfl

/-- The scanner gives each number, string and truth value its literal, and nothing else one. -/
theorem decodes_scan (source : String) :
    ∀ token ∈ (scan source).tokens, Decodes token.kind token.lexeme.toList token.literal? := by
  rw [scan_eq, List.forall_mem_append]
  refine ⟨fun token ht => ?_, List.forall_mem_singleton.mpr (.other _ (by simp [Token.endMarker]))⟩
  obtain ⟨piece, hp, reading, lexeme⟩ := exists_piece_of_token ht
  obtain ⟨before, behind, split⟩ := List.append_of_mem hp
  have front := (divides_pieces source.toList).longest before piece behind split
  have isToken := (piece.isToken_iff front token.line token).mpr (by simp [token?_eq_some_iff, reading, lexeme])
  rw [lexeme, String.toList_ofList]
  exact isToken.literal

end SetScript
