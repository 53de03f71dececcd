import SetScript.Parser.Expression
/-!
# Parsing programs

A program is read declaration by declaration. Where one cannot be read, the error is reported and
reading goes on at the next boundary: behind the next `;`, or in front of the next `def`, `let` or
`print`.
-/

namespace SetScript

namespace Parser

/-- Runs a parser and takes the token that must follow it. -/
def closedBy {α : Type} (p : Parser α) (kind : Kind) (expected : String) : Parser α := do
  let a ← p
  let _ ← expect kind expected
  return a

/-- A name. -/
def name (expected : String) : Parser Token := expect .identifier expected

/-- What follows `def`. -/
def functionTail : Parser Statement :=
  closedBy (do
    let f ← name "Expect function name"
    let _ ← expect .leftParen "Expect '(' after function name"
    let (parameters, _) ←
      listUntil (name "Expect parameter name") .rightParen "Expect ')' after parameters"
    let _ ← expect .equal "Expect '=' after ')'"
    return .function f parameters (← expression))
    .semicolon "Expect ';' after function declaration"

/-- What follows `let`. -/
def letTail : Parser Statement :=
  closedBy (do
    let x ← name "Expect variable name"
    let _ ← expect .equal "Expect '=' after name"
    return .let x (← expression))
    .semicolon "Expect ';' after value"

/-- What follows `print`. -/
def printTail : Parser Statement :=
  closedBy (do return .print (← expression)) .semicolon "Expect ';' after value"

/-- An expression as a statement. -/
def expressionStatement : Parser Statement :=
  closedBy (do return .expression (← expression)) .semicolon "Expect ';' after expression"

/-- What follows the word that a statement begins with. -/
def afterWord? : Kind → Option (Parser Statement)
  | .defWord => some functionTail
  | .letWord => some letTail
  | .printWord => some printTail
  | _ => none

/-- A declaration or statement. -/
def declaration : Parser Statement := do
  match ← accept? (fun token => afterWord? token.kind) with
  | some tail => tail
  | none => expressionStatement

end Parser

/-- A token in front of which a statement begins. -/
def Kind.beginsStatement (kind : Kind) : Bool := (Parser.afterWord? kind).isSome

/-- The tokens from the next boundary on. -/
def resume : List Token → List Token
  | [] => []
  | token :: tokens =>
    if token.kind.beginsStatement then token :: tokens
    else if token.kind = .semicolon then tokens
    else resume tokens

/-- One turn of reading: a statement or an error, with all that was reported, and the tokens that the
next turn starts with. -/
def turn (endLine : Nat) (tokens : List Token) : Option Statement × List SyntaxError × List Token :=
  let reply := Parser.declaration.run endLine tokens
  match reply.result with
  | .ok statement => (some statement, reply.reports, reply.rest)
  | .error e => (none, reply.reports ++ [e], resume reply.rest)

/-! ## Every turn takes a token -/

/-- A parser that must be followed by a token takes at least that token. -/
theorem Parser.closedBy_shorter {α : Type} (p : Parser α) (kind : Kind) (expected : String)
    (endLine : Nat) (tokens : List Token) (a : α)
    (h : ((closedBy p kind expected).run endLine tokens).result = .ok a) :
    ((closedBy p kind expected).run endLine tokens).rest.length < tokens.length := by
  have first := (p.rest_suffix endLine tokens).length_le
  simp only [closedBy, run_bind, run_pure] at h ⊢
  cases hp : (p.run endLine tokens).result with
  | error e => simp [hp] at h
  | ok b =>
    cases hr : (p.run endLine tokens).rest with
    | nil => simp [hp, hr, run_expect_nil] at h
    | cons token rest =>
      rw [hr, List.length_cons] at first
      by_cases hk : token.kind = kind
      · simp only [run_expect_cons, hk, if_true]; omega
      · simp [hp, hr, run_expect_cons, hk] at h

theorem resume_suffix (tokens : List Token) : resume tokens <:+ tokens := by
  fun_induction resume tokens with
  | case1 => exact List.suffix_refl _
  | case2 => exact List.suffix_refl _
  | case3 token tokens => exact List.suffix_cons token tokens
  | case4 token tokens _ _ ih => exact ih.trans (List.suffix_cons token tokens)

theorem Parser.run_declaration_cons (endLine : Nat) (token : Token) (tokens : List Token) :
    declaration.run endLine (token :: tokens) =
      match afterWord? token.kind with
      | some tail => tail.run endLine tokens
      | none => expressionStatement.run endLine (token :: tokens) := by
  simp only [declaration, run_bind, run_accept?, List.head?_cons, Option.bind_some]
  cases afterWord? token.kind <;> simp

theorem length_resume_cons (token : Token) (tokens : List Token)
    (h : token.kind.beginsStatement = false) : (resume (token :: tokens)).length ≤ tokens.length := by
  simp only [resume, h, Bool.false_eq_true, if_false]
  split
  · exact Nat.le_refl _
  · exact (resume_suffix tokens).length_le

/-- Every turn takes a token. -/
theorem turn_shorter (endLine : Nat) (token : Token) (tokens : List Token) :
    (turn endLine (token :: tokens)).2.2.length < (token :: tokens).length := by
  rw [List.length_cons]
  cases hw : Parser.afterWord? token.kind with
  | some tail =>
    have left := (tail.rest_suffix endLine tokens).length_le
    have resumed := (resume_suffix (tail.run endLine tokens).rest).length_le
    simp only [turn, Parser.run_declaration_cons, hw]
    split <;> dsimp only <;> omega
  | none =>
    have left := Parser.expressionStatement.rest_suffix endLine (token :: tokens)
    simp only [turn, Parser.run_declaration_cons, hw]
    split
    · next s h => exact Parser.closedBy_shorter _ _ _ endLine (token :: tokens) s h
    · next e h =>
      rcases List.suffix_cons_iff.mp left with same | shorter
      · rw [same]
        exact Nat.lt_succ_of_le (length_resume_cons token tokens (by simp [Kind.beginsStatement, hw]))
      · have := ((resume_suffix _).trans shorter).length_le
        dsimp only
        omega

/-! ## Whole programs -/

/-- What reading a program gives: the statements that could be read and all errors, in order. -/
structure Program where
  statements : List Statement
  errors : List SyntaxError

/-- Reads statements up to the end of the stream. -/
def declarations (endLine : Nat) : List Token → Program
  | [] => ⟨[], []⟩
  | token :: tokens =>
    let step := turn endLine (token :: tokens)
    let others := declarations endLine step.2.2
    ⟨step.1.toList ++ others.statements, step.2.1 ++ others.errors⟩
  termination_by tokens => tokens.length
  decreasing_by exact turn_shorter endLine token tokens

/-- The line of the first end marker. A stream without one ends on the line of its last token. -/
def endLine (tokens : List Token) : Nat :=
  match tokens.find? (·.kind == .eof), tokens.getLast? with
  | some marker, _ => marker.line
  | none, some last => last.line
  | none, none => 1

/-- Reads a program from a stream of tokens, up to the first end marker. -/
def parse (tokens : List Token) : Program :=
  declarations (endLine tokens) (tokens.takeWhile (·.kind != .eof))

end SetScript
