import SetScript.SyntaxError
import SetScript.Token
/-!
# Parsers on token streams

A parser takes tokens from the front of a stream. It ends with a result or an error, says which tokens
it left, and may have reported errors that did not stop it. It never looks behind the stream and never
puts a token back: what it leaves is a suffix of what it was given. Errors at the end of the stream are
reported on the line `endLine` of the end marker.
-/

namespace SetScript

/-- How a parser ended: its result or the error that stopped it, the tokens it left, and the errors it
reported on the way, in order. -/
structure Reply (α : Type) where
  result : Except SyntaxError α
  rest : List Token
  reports : List SyntaxError

/-- A parser, with the proof that it leaves a suffix of its stream. -/
structure Parser (α : Type) where
  run : (endLine : Nat) → (tokens : List Token) → Reply α
  rest_suffix : ∀ endLine tokens, (run endLine tokens).rest <:+ tokens

/-- The line of the first token, or of the end marker. -/
def currentLine (endLine : Nat) : List Token → Nat
  | [] => endLine
  | token :: _ => token.line

namespace Parser

variable {α β σ : Type}

/-- Gives a result and takes nothing. -/
protected def pure (a : α) : Parser α where
  run _ tokens := ⟨.ok a, tokens, []⟩
  rest_suffix _ tokens := List.suffix_refl tokens

/-- Runs a parser on what another one left, unless an error stopped that one. -/
protected def bind (p : Parser α) (f : α → Parser β) : Parser β where
  run endLine tokens :=
    let first := p.run endLine tokens
    match first.result with
    | .error e => ⟨.error e, first.rest, first.reports⟩
    | .ok a =>
      let second := (f a).run endLine first.rest
      ⟨second.result, second.rest, first.reports ++ second.reports⟩
  rest_suffix endLine tokens := by
    dsimp only
    split
    · exact p.rest_suffix endLine tokens
    · exact ((_ : Parser β).rest_suffix endLine _).trans (p.rest_suffix endLine tokens)

instance : Monad Parser where
  pure := Parser.pure
  bind := Parser.bind

/-- The first token of the stream, which stays there. -/
def peek? : Parser (Option Token) where
  run _ tokens := ⟨.ok tokens.head?, tokens, []⟩
  rest_suffix _ tokens := List.suffix_refl tokens

/-- Takes the first token, if there is one. -/
def skip : Parser Unit where
  run _ tokens := ⟨.ok (), tokens.drop 1, []⟩
  rest_suffix _ tokens := List.drop_suffix 1 tokens

/-- Stops with an error at the first token. -/
def fail (cause : SyntaxError.Cause) : Parser α where
  run endLine tokens := ⟨.error ⟨cause, currentLine endLine tokens⟩, tokens, []⟩
  rest_suffix _ tokens := List.suffix_refl tokens

/-- Reports an error on a line and goes on. -/
def report (error : SyntaxError) : Parser Unit where
  run _ tokens := ⟨.ok (), tokens, [error]⟩
  rest_suffix _ tokens := List.suffix_refl tokens

/-- Reports an error at the first token and goes on. -/
def reportHere (cause : SyntaxError.Cause) : Parser Unit where
  run endLine tokens := ⟨.ok (), tokens, [⟨cause, currentLine endLine tokens⟩]⟩
  rest_suffix _ tokens := List.suffix_refl tokens

/-- Stops because the grammar asks for something else than the first token. -/
def unexpected (expected : String) : Parser α := do
  match ← peek? with
  | some token => fail (.unexpectedToken expected token.lexeme)
  | none => fail (.unexpectedEnd expected)

/-- Takes the first token if `accept` has a value for it. -/
def accept? (accept : Token → Option α) : Parser (Option α) := do
  match (← peek?).bind accept with
  | some a => skip; return some a
  | none => return none

/-- The line of a token of the given kind. -/
def lineIf (kind : Kind) (token : Token) : Option Nat :=
  if token.kind = kind then some token.line else none

/-- Takes a token of the given kind and gives it; stops at any other. -/
def expect (kind : Kind) (expected : String) : Parser Token := do
  match ← accept? (fun token => if token.kind = kind then some token else none) with
  | some token => return token
  | none => unexpected expected

/-- The reply of `iterate`. -/
def iterateReply (accept : Token → Option σ) (next : σ → α → Parser α) (endLine : Nat) (a : α) :
    List Token → Reply α
  | [] => ⟨.ok a, [], []⟩
  | token :: tokens =>
    match accept token with
    | none => ⟨.ok a, token :: tokens, []⟩
    | some s =>
      let round := (next s a).run endLine tokens
      match round.result with
      | .error e => ⟨.error e, round.rest, round.reports⟩
      | .ok b =>
        let reply := iterateReply accept next endLine b round.rest
        ⟨reply.result, reply.rest, round.reports ++ reply.reports⟩
  termination_by tokens => tokens.length
  decreasing_by exact Nat.lt_succ_of_le ((next s a).rest_suffix endLine tokens).length_le

theorem iterateReply_suffix (accept : Token → Option σ) (next : σ → α → Parser α) (endLine : Nat)
    (a : α) (tokens : List Token) :
    (iterateReply accept next endLine a tokens).rest <:+ tokens := by
  fun_induction iterateReply accept next endLine a tokens with
  | case1 => exact List.suffix_refl _
  | case2 => exact List.suffix_refl _
  | case3 a token tokens s _ round e _ =>
    exact ((next s a).rest_suffix endLine tokens).trans (List.suffix_cons token tokens)
  | case4 a token tokens s _ round b _ reply ih =>
    exact (ih.trans ((next s a).rest_suffix endLine tokens)).trans (List.suffix_cons token tokens)

/-- As long as `accept` has a value for the first token, takes it and makes a new result from the value
and the last result. -/
def iterate (accept : Token → Option σ) (next : σ → α → Parser α) (a : α) : Parser α where
  run endLine tokens := iterateReply accept next endLine a tokens
  rest_suffix endLine tokens := iterateReply_suffix accept next endLine a tokens

/-! ## Replies -/

theorem run_pure (a : α) (endLine : Nat) (tokens : List Token) :
    (pure a : Parser α).run endLine tokens = ⟨.ok a, tokens, []⟩ := rfl

theorem run_bind (p : Parser α) (f : α → Parser β) (endLine : Nat) (tokens : List Token) :
    (p >>= f).run endLine tokens =
      match (p.run endLine tokens).result with
      | .error e => ⟨.error e, (p.run endLine tokens).rest, (p.run endLine tokens).reports⟩
      | .ok a =>
        let second := (f a).run endLine (p.run endLine tokens).rest
        ⟨second.result, second.rest, (p.run endLine tokens).reports ++ second.reports⟩ := rfl

theorem run_accept? (accept : Token → Option α) (endLine : Nat) (tokens : List Token) :
    (accept? accept).run endLine tokens =
      match tokens.head?.bind accept with
      | some a => ⟨.ok (some a), tokens.drop 1, []⟩
      | none => ⟨.ok none, tokens, []⟩ := by
  simp only [accept?, run_bind, peek?]
  cases tokens.head?.bind accept <;> rfl

theorem run_expect_cons (kind : Kind) (expected : String) (endLine : Nat) (token : Token)
    (tokens : List Token) :
    (expect kind expected).run endLine (token :: tokens) =
      if token.kind = kind then ⟨.ok token, tokens, []⟩
      else ⟨.error ⟨.unexpectedToken expected token.lexeme, token.line⟩, token :: tokens, []⟩ := by
  by_cases h : token.kind = kind <;>
    simp [expect, run_bind, run_accept?, run_pure, unexpected, peek?, fail, currentLine, h]

theorem run_expect_nil (kind : Kind) (expected : String) (endLine : Nat) :
    (expect kind expected).run endLine [] = ⟨.error ⟨.unexpectedEnd expected, endLine⟩, [], []⟩ := rfl

end Parser

end SetScript
