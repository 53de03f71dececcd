import SetScript.Proofs.Cursor.Machine
/-!
# Expressions under a cursor

The grammar of expressions as machines. What stands inside an expression is read one level deeper, by `readers n` for
at most `n` levels; loops take at most `rounds` rounds. On a tape with fewer tokens each machine follows the parser of
its name (`follows_readers`).
-/

namespace SetScript.Cursor

open SetScript.Parser (lineIf layerOp)

/-- The machines for what stands one level deeper. -/
structure Readers where
  expression : Machine Expr
  operand : Machine Expr

variable {α : Type}

section

variable (rounds : Nat)

/-! ## Lists -/

def moreItems (item : Machine α) (items : List α) : Machine (List α) :=
  iterate (lineIf .comma) (fun _ items => do return items ++ [← item]) rounds items

def limitedItem (item : Machine α) (items : List α) : Machine (List α) := do
  if items.length = maxArguments then
    reportHere (.tooManyArguments maxArguments)
  return items ++ [← item]

def limitedItems (item : Machine α) : Machine (List α) := do
  let first ← limitedItem item []
  iterate (lineIf .comma) (fun _ => limitedItem item) rounds first

def listUntil (item : Machine α) (closing : Kind) (expected : String) : Machine (List α × Token) := do
  let next ← peek
  let items ← if next.kind == closing then pure [] else limitedItems rounds item
  let token ← expect closing expected
  return (items, token)

/-! ## Expressions -/

variable (inner : Readers)

def comprehensionTail (result : Expr) : Machine Expr := do
  let bound ← expect .identifier "Expect variable name after '|'"
  let _ ← expect .inWord "Expect 'in' after comprehension variable"
  let domain ← inner.expression
  let filter? ← match ← accept? (lineIf .comma) with
    | some _ => some <$> inner.expression
    | none => pure none
  let _ ← expect .rightBrace "Expect '\x7d' after set comprehension"
  return .comprehension result bound domain filter?

def setTail : Machine Expr := do
  match ← accept? (lineIf .rightBrace) with
  | some _ => return .roster []
  | none =>
    let first ← inner.expression
    match ← accept? (lineIf .pipe) with
    | some _ => comprehensionTail inner first
    | none =>
      let elements ← moreItems rounds inner.expression [first]
      let _ ← expect .rightBrace "Expect '\x7d' after set literal"
      return .roster elements

def primary : Machine Expr := do
  let token ← peek
  match token.kind with
  | .number | .string | .trueWord | .falseWord =>
    match token.literal? with
    | none => unexpected "Expect literal value"
    | some value => advance; return .literal value
  | .identifier => advance; return .variable token
  | .leftParen =>
    advance
    let e ← inner.expression
    let _ ← expect .rightParen "Expect ')' after expression"
    return .group e
  | .pipe =>
    advance
    let e ← inner.expression
    let _ ← expect .pipe "Expect '|' after cardinality operand"
    return .cardinality token e
  | .leftBrace => advance; setTail rounds inner
  | _ => unexpected "Expect expression"

def call : Machine Expr := do
  let callee ← primary rounds inner
  iterate (lineIf .leftParen)
    (fun _ callee => do
      let (arguments, closing) ← listUntil rounds inner.expression .rightParen "Expect ')' after arguments"
      return .call closing callee arguments)
    rounds callee

def unary : Machine Expr := do
  match ← accept? (fun token => (UnaryOp.ofKind? token.kind).map (·, token)) with
  | some (op, operator) => return .unary op operator (← inner.operand)
  | none => call rounds inner

def leftAssoc (ops : List BinaryOp) (operand : Machine Expr) : Machine Expr := do
  let first ← operand
  iterate (layerOp ops)
    (fun (op, operator) left => do
      let right ← operand
      return .binary op operator left right)
    rounds first

def equality : Machine Expr :=
  let factor := leftAssoc rounds [.mul, .div, .rem] (unary rounds inner)
  let term := leftAssoc rounds [.add, .sub] factor
  let difference := leftAssoc rounds [.sub] term
  let intersection := leftAssoc rounds [.intersect] difference
  let union := leftAssoc rounds [.union] intersection
  let membership := leftAssoc rounds [.member] union
  let comparison := leftAssoc rounds [.subseteq, .greater, .greaterEqual, .less, .lessEqual] membership
  leftAssoc rounds [.equal, .notEqual] comparison

def assignment : Machine Expr := do
  let target ← equality rounds inner
  match ← accept? (lineIf .equal) with
  | none => return target
  | some line =>
    let value ← inner.expression
    match target with
    | .variable name => return .assign name value
    | target =>
      report ⟨.invalidAssignmentTarget, line⟩
      return target

/-- The machines for at most so many levels. -/
def readers : Nat → Readers
  | 0 => ⟨stop .unfinished, stop .unfinished⟩
  | levels + 1 => ⟨deeper (assignment rounds (readers levels)), deeper (unary rounds (readers levels))⟩

end

/-! ## Following the parsers -/

variable {tape : Tape} {level rounds : Nat}

theorem lineIf_eof {kind : Kind} (h : kind ≠ .eof) (token : Token) (ht : token.kind = .eof) :
    lineIf kind token = none := if_neg (ht ▸ h.symm)

theorem layerOp_eof (ops : List BinaryOp) (token : Token) (ht : token.kind = .eof) : layerOp ops token = none := by
  rw [layerOp, ht]
  rfl

variable (hr : tape.inside.length < rounds)

include hr

theorem follows_moreItems {item : Machine α} {item' : Parser α} (hi : tape.Follows level item item') (items : List α) :
    tape.Follows level (moreItems rounds item items) (Parser.moreItems item' items) :=
  .iterate (lineIf_eof (by decide)) (fun _ _ => hi.bind fun _ => .pure _) hr items

omit hr in
theorem follows_limitedItem {item : Machine α} {item' : Parser α} (hi : tape.Follows level item item')
    (items : List α) : tape.Follows level (limitedItem item items) (Parser.limitedItem item' items) := by
  have last : tape.Follows level (do return items ++ [← item]) (do return items ++ [← item']) :=
    hi.bind fun _ => .pure _
  unfold limitedItem Parser.limitedItem
  split
  · exact (Tape.Follows.reportHere _).bind fun _ => last
  · exact last

theorem follows_listUntil {item : Machine α} {item' : Parser α} (hi : tape.Follows level item item') {closing : Kind}
    (hc : closing ≠ .eof) (expected : String) :
    tape.Follows level (listUntil rounds item closing expected) (Parser.listUntil item' closing expected) := by
  have closed : ∀ items : List α, tape.Follows level (do return (items, ← expect closing expected))
      (do return (items, ← Parser.expect closing expected)) := fun _ => (Tape.Follows.expect hc _).bind fun _ => .pure _
  have full : tape.Follows level (limitedItems rounds item) (Parser.limitedItems item') :=
    (follows_limitedItem hi []).bind fun first =>
      .iterate (lineIf_eof (by decide)) (fun _ => follows_limitedItem hi) hr first
  refine .peek ?_ fun token _ => ?_
  · rw [if_neg (by simpa [tape.isEnd] using hc.symm)]
    exact full.bind closed
  · dsimp only [Option.any_some]
    split
    · exact closed []
    · exact full.bind closed

/-- The machines one level deeper follow the parsers there. -/
structure Readers.Follow (tape : Tape) (level : Nat) (inner : Readers) (inner' : Nested) : Prop where
  expression : tape.Follows level inner.expression inner'.expression
  operand : tape.Follows level inner.operand inner'.operand

variable {inner : Readers} {inner' : Nested} (hi : inner.Follow tape level inner')

include hi

omit hr in
theorem follows_comprehensionTail (result : Expr) :
    tape.Follows level (comprehensionTail inner result) (Parser.comprehensionTail inner' result) := by
  refine (Tape.Follows.expect (by decide) _).bind fun bound => (Tape.Follows.expect (by decide) _).bind fun _ =>
    hi.expression.bind fun domain => ?_
  refine (Tape.Follows.accept? (lineIf_eof (by decide))).bind ?_
  rintro (_ | _)
  · exact (Tape.Follows.expect (by decide) _).bind fun _ => .pure _
  · exact hi.expression.map.bind fun _ => (Tape.Follows.expect (by decide) _).bind fun _ => .pure _

theorem follows_setTail : tape.Follows level (setTail rounds inner) (Parser.setTail inner') := by
  refine (Tape.Follows.accept? (lineIf_eof (by decide))).bind ?_
  rintro (_ | _)
  · refine hi.expression.bind fun first => (Tape.Follows.accept? (lineIf_eof (by decide))).bind ?_
    rintro (_ | _)
    · exact (follows_moreItems hr hi.expression [first]).bind fun _ =>
        (Tape.Follows.expect (by decide) _).bind fun _ => .pure _
    · exact follows_comprehensionTail hi first
  · exact .pure _

theorem follows_primary : tape.Follows level (primary rounds inner) (Parser.primary inner') := by
  refine .peek ?_ fun token _ => ?_
  · simp only [tape.isEnd]
    exact .unexpected _
  · obtain ⟨kind, lexeme, literal?, line⟩ := token
    cases kind with
    | number | string | trueWord | falseWord =>
      cases literal? with
      | none => exact .unexpected _
      | some value => exact Tape.Follows.advance.bind fun _ => .pure _
    | identifier => exact Tape.Follows.advance.bind fun _ => .pure _
    | leftParen | pipe =>
      exact Tape.Follows.advance.bind fun _ => hi.expression.bind fun _ =>
        (Tape.Follows.expect (by decide) _).bind fun _ => .pure _
    | leftBrace => exact Tape.Follows.advance.bind fun _ => follows_setTail hr hi
    | _ => exact .unexpected _

theorem follows_call : tape.Follows level (call rounds inner) (Parser.call inner') :=
  (follows_primary hr hi).bind fun callee =>
    .iterate (lineIf_eof (by decide))
      (fun _ _ => (follows_listUntil hr hi.expression (by decide) _).bind fun _ => .pure _) hr callee

theorem follows_unary : tape.Follows level (unary rounds inner) (Parser.unary inner') := by
  refine (Tape.Follows.accept? fun token ht => by rw [ht]; rfl).bind ?_
  rintro (_ | ⟨op, operator⟩)
  · exact follows_call hr hi
  · exact hi.operand.bind fun _ => .pure _

omit hi in
theorem follows_leftAssoc (ops : List BinaryOp) {operand : Machine Expr} {operand' : Parser Expr}
    (ho : tape.Follows level operand operand') :
    tape.Follows level (leftAssoc rounds ops operand) (Parser.leftAssoc ops operand') :=
  ho.bind fun first => .iterate (layerOp_eof ops) (fun _ _ => ho.bind fun _ => .pure _) hr first

theorem follows_equality : tape.Follows level (equality rounds inner) (Parser.equality inner') := by
  iterate 8 apply follows_leftAssoc hr
  exact follows_unary hr hi

theorem follows_assignment : tape.Follows level (assignment rounds inner) (Parser.assignment inner') := by
  refine (follows_equality hr hi).bind fun target => (Tape.Follows.accept? (lineIf_eof (by decide))).bind ?_
  rintro (_ | line)
  · exact .pure target
  · refine hi.expression.bind fun value => ?_
    cases target with
    | «variable» name => exact .pure _
    | _ => exact (Tape.Follows.report _).bind fun _ => .pure _

omit hi in
/-- The levels that the parsers have left are those that are not open. -/
theorem follows_readers {opened left levels : Nat} (all : opened + left = maxNesting) (enough : left < levels) :
    (readers rounds levels).Follow tape opened (Parser.nested left) := by
  induction left generalizing opened levels with
  | zero =>
    obtain ⟨levels, rfl⟩ := Nat.exists_eq_succ_of_ne_zero (Nat.ne_of_gt enough)
    obtain rfl : opened = maxNesting := all
    exact ⟨.deeper_maxNesting, .deeper_maxNesting⟩
  | succ left ih =>
    obtain ⟨levels, rfl⟩ := Nat.exists_eq_succ_of_ne_zero (Nat.ne_zero_of_lt enough)
    have inside : (readers rounds levels).Follow tape (opened + 1) (Parser.nested left) := ih (by omega) (by omega)
    have room : opened < maxNesting := by omega
    exact ⟨.deeper room (follows_assignment hr inside), .deeper room (follows_unary hr inside)⟩

end SetScript.Cursor
