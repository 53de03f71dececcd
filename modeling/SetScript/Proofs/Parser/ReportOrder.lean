import SetScript.Proofs.Scan.Lines
import SetScript.Proofs.Session
/-!
# The order of reports

Where lines never go back, a parser reports between the line that it starts on and the line that it stops on
(`Parser.Orderly`), and every way to build parsers keeps that. So reports come in the order of their lines, with one
exception: an invalid target is reported on the line of its `=` when all behind the `=` has been read, after what was
reported there (`reports_in_order`).
-/

namespace SetScript

/-- An error that may be reported after another one. -/
def SyntaxError.Follows (error later : SyntaxError) : Prop :=
  error.line ≤ later.line ∨ later.cause = .invalidAssignmentTarget

/-- The lines of the tokens never go back, and the stream ends on none before them. -/
def Forward (endLine : Nat) (tokens : List Token) : Prop := (tokens.map (·.line) ++ [endLine]).Pairwise (· ≤ ·)

variable {endLine : Nat} {tokens rest : List Token}

theorem Forward.suffix (h : Forward endLine tokens) (hs : rest <:+ tokens) : Forward endLine rest := by
  obtain ⟨taken, rfl⟩ := hs
  rw [Forward, List.map_append, List.append_assoc] at h
  exact (List.pairwise_append.mp h).2.1

theorem Forward.currentLine_le (h : Forward endLine tokens) (hs : rest <:+ tokens) :
    currentLine endLine tokens ≤ currentLine endLine rest := by
  obtain ⟨taken, rfl⟩ := hs
  cases taken with
  | nil => exact Nat.le_refl _
  | cons token taken =>
    refine (List.pairwise_cons.mp h).1 _ ?_
    cases rest <;> simp [currentLine]

/-- Reports on the lines from `first` to `last`, in the order in which they may come. -/
structure SyntaxError.InOrder (first last : Nat) (reports : List SyntaxError) : Prop where
  ordered : reports.Pairwise SyntaxError.Follows
  within : ∀ error ∈ reports, first ≤ error.line ∧ error.line ≤ last

namespace SyntaxError

variable {first first' between last last' : Nat} {reports reports' : List SyntaxError}

theorem inOrder_nil (first last : Nat) : InOrder first last [] := ⟨.nil, List.forall_mem_nil _⟩

theorem inOrder_singleton {error : SyntaxError} (low : first ≤ error.line) (high : error.line ≤ last) :
    InOrder first last [error] :=
  ⟨List.pairwise_singleton _ _, fun _ he => List.mem_singleton.mp he ▸ ⟨low, high⟩⟩

theorem InOrder.widen (h : InOrder first last reports) (low : first' ≤ first) (high : last ≤ last') :
    InOrder first' last' reports :=
  ⟨h.ordered, fun error he => ⟨low.trans (h.within error he).1, (h.within error he).2.trans high⟩⟩

/-- What is reported where reading goes on stands behind all that was reported before. -/
theorem InOrder.append (h : InOrder first between reports) (h' : InOrder between last reports')
    (low : first ≤ between) (high : between ≤ last) : InOrder first last (reports ++ reports') where
  ordered := List.pairwise_append.mpr ⟨h.ordered, h'.ordered, fun error he later hl =>
    .inl ((h.within error he).2.trans (h'.within later hl).1)⟩
  within := List.forall_mem_append.mpr ⟨(h.widen (Nat.le_refl _) high).within, (h'.widen low (Nat.le_refl _)).within⟩

/-- An invalid target may be reported behind everything. -/
theorem InOrder.append_invalidTarget (h : InOrder first last reports) {line : Nat} (low : first ≤ line)
    (high : line ≤ last) : InOrder first last (reports ++ [⟨.invalidAssignmentTarget, line⟩]) where
  ordered := List.pairwise_append.mpr ⟨h.ordered, List.pairwise_singleton _ _, fun _ _ _ hl =>
    .inr (List.mem_singleton.mp hl ▸ rfl)⟩
  within := List.forall_mem_append.mpr ⟨h.within, (inOrder_singleton low high).within⟩

end SyntaxError

/-- A reply that reports between the line where the parser started and the line where it stopped, in order. -/
structure Reply.InOrder {α : Type} (endLine : Nat) (tokens : List Token) (reply : Reply α) : Prop where
  reports : SyntaxError.InOrder (currentLine endLine tokens) (currentLine endLine reply.rest) reply.reports
  fatal : ∀ error, reply.result = .error error → error.line = currentLine endLine reply.rest

/-- What comes first in a stream does not get in the way of an order further on. -/
theorem Reply.InOrder.earlier {α : Type} {reply : Reply α} (forward : Forward endLine tokens) (hs : rest <:+ tokens)
    (h : reply.InOrder endLine rest) : reply.InOrder endLine tokens :=
  ⟨h.reports.widen (forward.currentLine_le hs) (Nat.le_refl _), h.fatal⟩

theorem Reply.InOrder.andThen {α β : Type} {first : Reply α} {second : Reply β} (forward : Forward endLine tokens)
    (left : first.rest <:+ tokens) (left' : second.rest <:+ first.rest) (h : first.InOrder endLine tokens)
    (h' : second.InOrder endLine first.rest) :
    Reply.InOrder endLine tokens ⟨second.result, second.rest, first.reports ++ second.reports⟩ :=
  ⟨h.reports.append h'.reports (forward.currentLine_le left) ((forward.suffix left).currentLine_le left'), h'.fatal⟩

/-- The reply of a parser that is stopped where another one was. -/
theorem Reply.InOrder.stopped {α β : Type} {reply : Reply α} {e : SyntaxError} (h : reply.InOrder endLine tokens)
    (hr : reply.result = .error e) : Reply.InOrder (α := β) endLine tokens ⟨.error e, reply.rest, reply.reports⟩ := by
  refine ⟨h.reports, ?_⟩
  rintro _ ⟨⟩
  exact h.fatal e hr

namespace Parser

variable {α β σ : Type} {p : Parser α} {inner : Nested}

/-- On streams whose lines never go back, the parser reports in order. -/
def Orderly (p : Parser α) : Prop :=
  ∀ endLine tokens, Forward endLine tokens → (p.run endLine tokens).InOrder endLine tokens

/-! ## Ways to build parsers -/

theorem Orderly.of_silent
    (h : ∀ endLine tokens, ∃ (a : α) (rest : List Token), p.run endLine tokens = ⟨.ok a, rest, []⟩) : Orderly p := by
  intro endLine tokens _
  obtain ⟨a, rest, hr⟩ := h endLine tokens
  rw [hr]
  exact ⟨SyntaxError.inOrder_nil _ _, fun _ stopped => nomatch stopped⟩

theorem Orderly.pure (a : α) : Orderly (pure a : Parser α) := .of_silent fun _ tokens => ⟨a, tokens, rfl⟩

theorem Orderly.peek? : Orderly peek? := .of_silent fun _ tokens => ⟨_, tokens, rfl⟩

theorem Orderly.skip : Orderly skip := .of_silent fun _ _ => ⟨_, _, rfl⟩

theorem Orderly.accept? (accept : Token → Option α) : Orderly (accept? accept) := by
  refine .of_silent fun endLine tokens => ?_
  rw [run_accept?]
  cases tokens.head?.bind accept <;> exact ⟨_, _, rfl⟩

theorem Orderly.fail (cause : SyntaxError.Cause) : Orderly (fail cause : Parser α) := by
  intro endLine tokens _
  refine ⟨SyntaxError.inOrder_nil _ _, ?_⟩
  rintro _ ⟨⟩
  rfl

theorem Orderly.reportHere (cause : SyntaxError.Cause) : Orderly (reportHere cause) := by
  intro endLine tokens _
  exact ⟨SyntaxError.inOrder_singleton (Nat.le_refl _) (Nat.le_refl _), fun _ stopped => nomatch stopped⟩

theorem Orderly.bind {f : α → Parser β} (hp : Orderly p) (hf : ∀ a, Orderly (f a)) : Orderly (p >>= f) := by
  intro endLine tokens forward
  have first := hp endLine tokens forward
  have left := p.rest_suffix endLine tokens
  rw [run_bind]
  cases hr : (p.run endLine tokens).result with
  | error e => exact first.stopped hr
  | ok a =>
    exact first.andThen forward left ((f a).rest_suffix endLine _) (hf a endLine _ (forward.suffix left))

theorem Orderly.map {f : α → β} (hp : Orderly p) : Orderly (f <$> p) := hp.bind fun _ => .pure _

theorem Orderly.unexpected (expected : String) : Orderly (unexpected expected : Parser α) := by
  refine Orderly.peek?.bind ?_
  rintro (_ | token) <;> exact .fail _

theorem Orderly.expect (kind : Kind) (expected : String) : Orderly (expect kind expected) := by
  refine (Orderly.accept? _).bind ?_
  rintro (_ | token)
  · exact .unexpected expected
  · exact .pure token

theorem Orderly.iterate {accept : Token → Option σ} {next : σ → α → Parser α} (hn : ∀ s a, Orderly (next s a)) (a : α) :
    Orderly (iterate accept next a) := by
  intro endLine tokens forward
  change (iterateReply accept next endLine a tokens).InOrder endLine tokens
  fun_induction iterateReply accept next endLine a tokens with
  | case1 a => exact Orderly.pure a endLine [] forward
  | case2 a token tokens => exact Orderly.pure a endLine (token :: tokens) forward
  | case3 a token tokens s _ round e hr =>
    have inside := hn s a endLine tokens (forward.suffix (List.suffix_cons ..))
    exact (inside.earlier forward (List.suffix_cons ..)).stopped hr
  | case4 a token tokens s _ round b hr reply ih =>
    have left := ((next s a).rest_suffix endLine tokens).trans (List.suffix_cons token tokens)
    have inside := hn s a endLine tokens (forward.suffix (List.suffix_cons ..))
    have whole := inside.earlier forward (List.suffix_cons ..)
    exact whole.andThen forward left (iterateReply_suffix ..) (ih (forward.suffix left))

/-! ## The grammar -/

theorem orderly_moreItems {item : Parser α} (hi : Orderly item) (items : List α) : Orderly (moreItems item items) :=
  .iterate (fun _ _ => hi.bind fun _ => .pure _) items

theorem orderly_limitedItem {item : Parser α} (hi : Orderly item) (items : List α) :
    Orderly (limitedItem item items) := by
  have last : Orderly (do return items ++ [← item]) := hi.bind fun _ => .pure _
  unfold limitedItem
  split
  · exact (Orderly.reportHere _).bind fun _ => last
  · exact last

theorem orderly_listUntil {item : Parser α} (hi : Orderly item) (closing : Kind) (expected : String) :
    Orderly (listUntil item closing expected) := by
  have closed : ∀ items : List α, Orderly (do return (items, ← expect closing expected)) :=
    fun _ => (Orderly.expect _ _).bind fun _ => .pure _
  refine Orderly.peek?.bind fun next? => ?_
  dsimp only
  split
  · exact closed []
  · exact ((orderly_limitedItem hi []).bind fun first => .iterate (fun _ => orderly_limitedItem hi) first).bind closed

/-- The parsers one level deeper are orderly. -/
structure Nested.Orderly (inner : Nested) : Prop where
  expression : Parser.Orderly inner.expression
  operand : Parser.Orderly inner.operand

variable (hi : Nested.Orderly inner)

include hi

theorem orderly_comprehensionTail (result : Expr) : Orderly (comprehensionTail inner result) := by
  refine (Orderly.expect _ _).bind fun bound => (Orderly.expect _ _).bind fun _ => hi.expression.bind fun domain => ?_
  have closed : ∀ filter? : Option Expr, Orderly (do
      let _ ← expect .rightBrace "Expect '\x7d' after set comprehension"
      return Expr.comprehension result bound domain filter?) :=
    fun _ => (Orderly.expect _ _).bind fun _ => .pure _
  refine (Orderly.accept? _).bind ?_
  rintro (_ | _)
  · exact closed none
  · exact hi.expression.map.bind closed

theorem orderly_setTail : Orderly (setTail inner) := by
  refine (Orderly.accept? _).bind ?_
  rintro (_ | _)
  · refine hi.expression.bind fun first => (Orderly.accept? _).bind ?_
    rintro (_ | _)
    · exact (orderly_moreItems hi.expression [first]).bind fun _ => (Orderly.expect _ _).bind fun _ => .pure _
    · exact orderly_comprehensionTail hi first
  · exact .pure _

theorem orderly_primary : Orderly (primary inner) := by
  refine Orderly.peek?.bind ?_
  rintro (_ | token)
  · exact .unexpected _
  · obtain ⟨kind, lexeme, literal?, line⟩ := token
    cases kind with
    | number | string | trueWord | falseWord =>
      cases literal? with
      | none => exact .unexpected _
      | some value => exact Orderly.skip.bind fun _ => .pure _
    | identifier => exact Orderly.skip.bind fun _ => .pure _
    | leftParen | pipe =>
      exact Orderly.skip.bind fun _ => hi.expression.bind fun _ => (Orderly.expect _ _).bind fun _ => .pure _
    | leftBrace => exact Orderly.skip.bind fun _ => orderly_setTail hi
    | _ => exact .unexpected _

theorem orderly_call : Orderly (call inner) :=
  (orderly_primary hi).bind fun callee =>
    .iterate (fun _ _ => (orderly_listUntil hi.expression _ _).bind fun _ => .pure _) callee

theorem orderly_unary : Orderly (unary inner) := by
  refine (Orderly.accept? _).bind ?_
  rintro (_ | ⟨op, line⟩)
  · exact orderly_call hi
  · exact hi.operand.bind fun _ => .pure _

omit hi in
theorem orderly_leftAssoc {operand : Parser Expr} (h : Orderly operand) (ops : List BinaryOp) :
    Orderly (leftAssoc ops operand) :=
  h.bind fun first => .iterate (fun _ _ => h.bind fun _ => .pure _) first

theorem orderly_equality : Orderly (equality inner) :=
  orderly_leftAssoc (orderly_leftAssoc (orderly_leftAssoc (orderly_leftAssoc (orderly_leftAssoc (orderly_leftAssoc
    (orderly_leftAssoc (orderly_leftAssoc (orderly_unary hi) _) _) _) _) _) _) _) _

omit hi in
/-- A parser of a value behind which an error is reported, on a line in front of the value. -/
theorem inOrder_reportBehind (value : Orderly inner.expression) (target : Expr) {token : Token}
    (forward : Forward endLine (token :: tokens)) :
    ((do let _ ← inner.expression
         report ⟨.invalidAssignmentTarget, token.line⟩
         return target : Parser Expr).run endLine tokens).InOrder endLine (token :: tokens) := by
  have inside := forward.suffix (List.suffix_cons token tokens)
  have whole := (value endLine tokens inside).earlier forward (List.suffix_cons token tokens)
  have left := (inner.expression.rest_suffix endLine tokens).trans (List.suffix_cons token tokens)
  rw [run_bind]
  cases hr : (inner.expression.run endLine tokens).result with
  | error e => exact whole.stopped hr
  | ok =>
    exact ⟨whole.reports.append_invalidTarget (Nat.le_refl _) (forward.currentLine_le left),
      fun _ stopped => nomatch stopped⟩

theorem orderly_assignment : Orderly (assignment inner) := by
  -- The report of an invalid target is for a line behind, so it is only in order with the `=` still in sight.
  refine (orderly_equality hi).bind fun target endLine tokens forward => ?_
  rw [run_bind, run_accept?]
  cases tokens with
  | nil => exact Orderly.pure target endLine [] forward
  | cons token tokens =>
    by_cases hk : token.kind = .equal
    case neg =>
      simp only [List.head?_cons, Option.bind_some, lineIf, hk, if_false]
      exact Orderly.pure target endLine (token :: tokens) forward
    case pos =>
      simp only [List.head?_cons, Option.bind_some, lineIf, hk, if_true, List.nil_append, List.drop_one, List.tail_cons]
      cases target with
      | «variable» name =>
        have value : Orderly (do return Expr.assign name (← inner.expression)) := hi.expression.map
        have inside := forward.suffix (List.suffix_cons token tokens)
        exact (value endLine tokens inside).earlier forward (List.suffix_cons token tokens)
      | _ => exact inOrder_reportBehind hi.expression _ forward

omit hi in
theorem orderly_nested (n : Nat) : Nested.Orderly (nested n) := by
  induction n with
  | zero => exact ⟨.fail _, .fail _⟩
  | succ n ih => exact ⟨orderly_assignment ih, orderly_unary ih⟩

omit hi

/-! ## Programs -/

theorem Orderly.closedBy (hp : Orderly p) (kind : Kind) (expected : String) : Orderly (closedBy p kind expected) :=
  hp.bind fun _ => (Orderly.expect _ _).bind fun _ => .pure _

theorem orderly_name (expected : String) : Orderly (name expected) := .expect _ _

theorem orderly_expression : Orderly expression := (orderly_nested maxNesting).expression

theorem orderly_afterWord {kind : Kind} {tail : Parser Statement} (h : afterWord? kind = some tail) : Orderly tail := by
  cases kind <;> cases h
  case defWord =>
    refine Orderly.closedBy ?_ _ _
    exact (orderly_name _).bind fun _ => (Orderly.expect _ _).bind fun _ =>
      (orderly_listUntil (orderly_name _) _ _).bind fun _ => (Orderly.expect _ _).bind fun _ => orderly_expression.map
  case letWord =>
    refine Orderly.closedBy ?_ _ _
    exact (orderly_name _).bind fun _ => (Orderly.expect _ _).bind fun _ => orderly_expression.map
  case printWord => exact Orderly.closedBy orderly_expression.map _ _

theorem orderly_expressionStatement : Orderly expressionStatement := Orderly.closedBy orderly_expression.map _ _

theorem orderly_declaration : Orderly declaration := by
  intro endLine tokens forward
  cases tokens with
  | nil => exact orderly_expressionStatement endLine [] forward
  | cons token tokens =>
    rw [run_declaration_cons]
    split
    · next tail h =>
      have inside := forward.suffix (List.suffix_cons token tokens)
      exact (orderly_afterWord h endLine tokens inside).earlier forward (List.suffix_cons token tokens)
    · exact orderly_expressionStatement endLine (token :: tokens) forward

end Parser

/-! ## Turns -/

theorem turn_inOrder (token : Token) (forward : Forward endLine (token :: tokens)) :
    SyntaxError.InOrder token.line (currentLine endLine (turn endLine (token :: tokens)).2.2)
      (turn endLine (token :: tokens)).2.1 := by
  have read := Parser.orderly_declaration endLine (token :: tokens) forward
  have left := Parser.declaration.rest_suffix endLine (token :: tokens)
  unfold turn
  dsimp only
  split
  · exact read.reports
  · next e hr =>
    -- The error stands where the parser stopped, and from there skipping only goes forward.
    have skipped := (forward.suffix left).currentLine_le (resume_suffix _)
    have last := read.fatal e hr
    exact read.reports.append (SyntaxError.inOrder_singleton last.ge (last.le.trans skipped))
      (forward.currentLine_le left) skipped

/-- Reports of different turns are never out of order. -/
theorem turns_inOrder (forward : Forward endLine tokens) :
    (turns endLine tokens).Pairwise (fun contribution later =>
      ∀ error ∈ contribution.2, ∀ next ∈ later.2, error.line ≤ next.line) ∧
    ∀ contribution ∈ turns endLine tokens,
      SyntaxError.InOrder (currentLine endLine tokens) endLine contribution.2 := by
  fun_induction turns endLine tokens with
  | case1 => exact ⟨.nil, List.forall_mem_nil _⟩
  | case2 token tokens step ih =>
    have left := turn_suffix endLine token tokens
    have first := turn_inOrder token forward
    have between := forward.currentLine_le left
    have high := (forward.suffix left).currentLine_le (List.nil_suffix)
    obtain ⟨ordered, within⟩ := ih (forward.suffix left)
    refine ⟨List.pairwise_cons.mpr ⟨fun later hl error he next hn => ?_, ordered⟩,
      List.forall_mem_cons.mpr ⟨first.widen (Nat.le_refl _) high, fun later hl => ?_⟩⟩
    · exact (first.within error he).2.trans ((within later hl).within next hn).1
    · exact (within later hl).widen between (Nat.le_refl _)

/-- The tokens of a text, up to its end. -/
theorem forward_textTokens (cs : List Char) : Forward (1 + cs.count '\n') (textTokens cs) :=
  (lines_textTokens cs).ordered_append

/-! ## Main theorem -/

/-- What the parser reports of a text, turn by turn. -/
def reportsByTurn (source : String) : List (List SyntaxError) :=
  (turns (1 + source.toList.count '\n') (textTokens source.toList)).map (·.2)

theorem errors_parse_scan (source : String) :
    (parse (scan source).tokens).errors = (reportsByTurn source).flatten := by
  rw [scan_eq, parse_endMarker (eofFree_textTokens _), declarations_eq_turns, reportsByTurn, List.flatMap_def]

/-- The parser reports the errors of one turn behind those of the turns before, on no earlier lines. In one turn only
the report of an invalid target can be on an earlier line than a report before it, so all other reports are in order. -/
theorem reports_in_order (source : String) :
    (parse (scan source).tokens).errors = (reportsByTurn source).flatten ∧
      (reportsByTurn source).Pairwise (fun reports later =>
        ∀ error ∈ reports, ∀ next ∈ later, error.line ≤ next.line) ∧
      (∀ reports ∈ reportsByTurn source, reports.Pairwise SyntaxError.Follows) ∧
      (((parse (scan source).tokens).errors.filter (·.cause ≠ .invalidAssignmentTarget)).map (·.line)).Pairwise
        (· ≤ ·) := by
  obtain ⟨ordered, within⟩ := turns_inOrder (forward_textTokens source.toList)
  have apart : (reportsByTurn source).Pairwise (fun reports later =>
      ∀ error ∈ reports, ∀ next ∈ later, error.line ≤ next.line) := List.pairwise_map.mpr ordered
  have together : ∀ reports ∈ reportsByTurn source, reports.Pairwise SyntaxError.Follows := by
    rintro _ hr
    obtain ⟨contribution, hc, rfl⟩ := List.mem_map.mp hr
    exact (within contribution hc).ordered
  refine ⟨errors_parse_scan source, apart, together, ?_⟩
  have all : (reportsByTurn source).flatten.Pairwise SyntaxError.Follows :=
    List.pairwise_flatten.mpr ⟨together, apart.imp fun h error he next hn => .inl (h error he next hn)⟩
  rw [errors_parse_scan]
  refine List.pairwise_map.mpr (List.Pairwise.imp_of_mem ?_ (all.filter _))
  intro error later _ hl follows
  have cause : later.cause ≠ .invalidAssignmentTarget := by simpa using (List.mem_filter.mp hl).2
  exact follows.resolve_right cause

/-- The `=` of line 1 is reported behind the one of line 2. -/
theorem reports_out_of_order :
    ¬ ∀ source : String, ((parse (scan source).tokens).errors.map (·.line)).Pairwise (· ≤ ·) := by
  intro h
  exact absurd (h "1 =\n2 =\n3;") (by decide +kernel)

end SetScript
