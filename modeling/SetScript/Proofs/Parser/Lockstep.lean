import Mathlib.Data.List.Forall2
import SetScript.Proofs.Lines
import SetScript.Proofs.Parser.Success
/-!
# Parsers in lockstep

No expression takes a `;` or one of the words that begin a statement. So what a parser of expressions
does is decided by the tokens up to the next such boundary: whatever stands there instead, it goes the
same way. A `Link` couples two streams that agree, up to the lines of their tokens, on a piece without
boundaries. `Lockstep link g p p'` says that `p` on the one stream and `p'` on the other take equally many
tokens of the piece, and that results and errors correspond, a result `a` of `p` to `g a`.

Every way to build parsers from parsers keeps this (`Lockstep.bind`, `Lockstep.iterate`, …).
-/

namespace SetScript

/-- The error has ended its statement. -/
def SyntaxError.Cause.isFatal : SyntaxError.Cause → Bool
  | .unexpectedToken .. | .unexpectedEnd _ | .nestingTooDeep _ => true
  | _ => false

/-- A token of this kind stands in no expression: it ends a statement or begins one. -/
def Kind.isBoundary (kind : Kind) : Bool := kind == .semicolon || kind.beginsStatement

/-- The stream is at its end or at a boundary. -/
def AtBoundary (tokens : List Token) : Prop := ∀ token ∈ tokens.head?, token.kind.isBoundary = true

/-- The tokens have no boundary among them. -/
def Unbroken (piece : List Token) : Prop := ∀ token ∈ piece, token.kind.isBoundary = false

theorem unbroken_nil : Unbroken [] := by simp [Unbroken]

theorem unbroken_cons {token : Token} {piece : List Token} :
    Unbroken (token :: piece) ↔ token.kind.isBoundary = false ∧ Unbroken piece := by
  simp [Unbroken]

theorem AtBoundary.head {tokens rest : List Token} {token : Token} (h : AtBoundary tokens)
    (ht : tokens = token :: rest) : token.kind.isBoundary = true :=
  h token (by simp [ht])

/-- What is said of a first token that does not fit. -/
def Parser.misfit (expected : String) (endLine : Nat) : List Token → SyntaxError
  | [] => ⟨.unexpectedEnd expected, endLine⟩
  | token :: _ => ⟨.unexpectedToken expected token.lexeme, token.line⟩

/-- Two streams that go on with `ahead` and `ahead'` behind a common piece, whose tokens stand on line `n`
of the one and `move n` of the other, and when reports and fatal errors of the one correspond to those of
the other. -/
structure Link where
  move : Nat → Nat
  endLine : Nat
  endLine' : Nat
  ahead : List Token
  ahead' : List Token
  report : SyntaxError → SyntaxError → Prop
  fatal : SyntaxError → SyntaxError → Prop
  at_boundary : AtBoundary ahead
  at_boundary' : AtBoundary ahead'
  /-- Both streams can end their statement here, or neither can. -/
  closing : ahead.head?.any (·.kind == .semicolon) = ahead'.head?.any (·.kind == .semicolon)
  report_inside : ∀ cause line, cause.isFatal = false → report ⟨cause, line⟩ ⟨cause, move line⟩
  report_ahead : ∀ cause, cause.isFatal = false →
    report ⟨cause, currentLine endLine ahead⟩ ⟨cause, currentLine endLine' ahead'⟩
  fatal_inside : ∀ cause line, cause.isFatal = true → fatal ⟨cause, line⟩ ⟨cause, move line⟩
  fatal_ahead : ∀ cause, cause.isFatal = true →
    fatal ⟨cause, currentLine endLine ahead⟩ ⟨cause, currentLine endLine' ahead'⟩
  misfit_ahead : ∀ expected,
    fatal (Parser.misfit expected endLine ahead) (Parser.misfit expected endLine' ahead')

namespace Link

variable (link : Link)

/-- The first stream with a piece in front of it. -/
def stream (piece : List Token) : List Token := piece ++ link.ahead

/-- The second stream with the same piece in front of it. -/
def stream' (piece : List Token) : List Token := piece.map (Token.mapLine link.move) ++ link.ahead'

/-- Replies that correspond: both streams are left with the same piece in front, and a result `a` of the
one reply is `g a` in the other. -/
inductive Corresponds {α : Type} (g : α → α) : Reply α → Reply α → Prop where
  | ok (a : α) {left : List Token} {reports reports' : List SyntaxError} (unbroken : Unbroken left)
      (same : List.Forall₂ link.report reports reports') :
      Corresponds g ⟨.ok a, link.stream left, reports⟩ ⟨.ok (g a), link.stream' left, reports'⟩
  | error {e e' : SyntaxError} {left : List Token} {reports reports' : List SyntaxError}
      (both : link.fatal e e') (unbroken : Unbroken left)
      (same : List.Forall₂ link.report reports reports') :
      Corresponds g ⟨.error e, link.stream left, reports⟩ ⟨.error e', link.stream' left, reports'⟩

end Link

namespace Parser

variable {α β σ : Type} {link : Link}

/-- On the two streams of a link, whatever the piece, the parsers give corresponding replies. -/
def Lockstep (link : Link) (g : α → α) (p p' : Parser α) : Prop :=
  ∀ piece, Unbroken piece →
    link.Corresponds g (p.run link.endLine (link.stream piece)) (p'.run link.endLine' (link.stream' piece))

/-! ## Small parsers -/

theorem run_unexpected (expected : String) (endLine : Nat) (tokens : List Token) :
    (unexpected expected : Parser α).run endLine tokens =
      ⟨.error (misfit expected endLine tokens), tokens, []⟩ := by
  cases tokens <;> rfl

theorem Lockstep.pure {g : α → α} {a b : α} (h : b = g a) :
    Lockstep link g (pure a : Parser α) (pure b) := by
  subst h
  intro piece unbroken
  exact .ok a unbroken .nil

theorem Lockstep.bind {g : α → α} {g' : β → β} {p p' : Parser α} {k k' : α → Parser β}
    (hp : Lockstep link g p p') (hk : ∀ a, Lockstep link g' (k a) (k' (g a))) :
    Lockstep link g' (p >>= k) (p' >>= k') := by
  intro piece unbroken
  have first := hp piece unbroken
  rw [run_bind, run_bind]
  generalize p.run link.endLine (link.stream piece) = r, p'.run link.endLine' (link.stream' piece) = r'
    at first ⊢
  cases first with
  | error both left same => exact .error both left same
  | @ok a left reports reports' unbroken same =>
    have second := hk a left unbroken
    dsimp only
    generalize (k a).run link.endLine (link.stream left) = s,
      (k' (g a)).run link.endLine' (link.stream' left) = s' at second ⊢
    cases second with
    | error both left' same' => exact .error both left' (List.rel_append same same')
    | ok b left' same' => exact .ok b left' (List.rel_append same same')

theorem Lockstep.map {g : α → α} {g' : β → β} {p p' : Parser α} {f : α → β} (hp : Lockstep link g p p')
    (hf : ∀ a, f (g a) = g' (f a)) : Lockstep link g' (f <$> p) (f <$> p') :=
  Lockstep.bind hp fun a => .pure (hf a)

theorem Lockstep.fail (g : α → α) {cause : SyntaxError.Cause} (h : cause.isFatal = true) :
    Lockstep link g (fail cause) (fail cause) := by
  intro piece unbroken
  refine .error ?_ unbroken .nil
  cases piece with
  | nil => exact link.fatal_ahead cause h
  | cons token piece => exact link.fatal_inside cause token.line h

theorem Lockstep.unexpected (g : α → α) (expected : String) :
    Lockstep link g (unexpected expected) (unexpected expected) := by
  intro piece unbroken
  rw [run_unexpected, run_unexpected]
  refine .error ?_ unbroken .nil
  cases piece with
  | nil => exact link.misfit_ahead expected
  | cons token piece => exact link.fatal_inside _ token.line rfl

theorem Lockstep.report {cause : SyntaxError.Cause} (line : Nat) (h : cause.isFatal = false) :
    Lockstep link id (report ⟨cause, line⟩) (report ⟨cause, link.move line⟩) := by
  intro piece unbroken
  exact .ok () unbroken (.cons (link.report_inside cause line h) .nil)

theorem Lockstep.reportHere {cause : SyntaxError.Cause} (h : cause.isFatal = false) :
    Lockstep link id (reportHere cause) (reportHere cause) := by
  intro piece unbroken
  refine .ok () unbroken (.cons ?_ .nil)
  cases piece with
  | nil => exact link.report_ahead cause h
  | cons token piece => exact link.report_inside cause token.line h

/-! ## Parsers that look at the first token -/

/-- An `accept` that knows neither boundaries nor, except for what it gives, lines. -/
structure Carries (link : Link) (g : α → α) (accept accept' : Token → Option α) : Prop where
  boundary : ∀ token, token.kind.isBoundary = true → accept token = none ∧ accept' token = none
  moved : ∀ token, accept' (token.mapLine link.move) = (accept token).map g

theorem Carries.ahead {g : α → α} {accept accept' : Token → Option α} (h : Carries link g accept accept') :
    link.ahead.head?.bind accept = none ∧ link.ahead'.head?.bind accept' = none := by
  constructor
  · cases ha : link.ahead with
    | nil => rfl
    | cons token rest => exact (h.boundary token (link.at_boundary.head ha)).1
  · cases ha : link.ahead' with
    | nil => rfl
    | cons token rest => exact (h.boundary token (link.at_boundary'.head ha)).2

theorem Lockstep.accept? {g : α → α} {accept accept' : Token → Option α}
    (h : Carries link g accept accept') :
    Lockstep link (Option.map g) (accept? accept) (accept? accept') := by
  intro piece unbroken
  rw [run_accept?, run_accept?]
  cases piece with
  | nil =>
    simp only [Link.stream, Link.stream', List.nil_append, List.map_nil, h.ahead.1, h.ahead.2]
    exact .ok none unbroken_nil .nil
  | cons token piece =>
    simp only [Link.stream, Link.stream', List.cons_append, List.map_cons, List.head?_cons,
      Option.bind_some, h.moved]
    cases accept token with
    | none => exact .ok none unbroken .nil
    | some a => exact .ok (some a) (unbroken_cons.1 unbroken).2 .nil

theorem iterateReply_stop (accept : Token → Option σ) (next : σ → α → Parser α) (endLine : Nat) (a : α)
    (tokens : List Token) (h : tokens.head?.bind accept = none) :
    iterateReply accept next endLine a tokens = ⟨.ok a, tokens, []⟩ := by
  cases tokens with
  | nil => simp [iterateReply]
  | cons token rest =>
    rw [List.head?_cons, Option.bind_some] at h
    simp [iterateReply, h]

theorem Lockstep.iterate {gs : σ → σ} {g : α → α} {accept accept' : Token → Option σ}
    {next next' : σ → α → Parser α} (h : Carries link gs accept accept')
    (hn : ∀ s a, Lockstep link g (next s a) (next' (gs s) (g a))) (a : α) :
    Lockstep link g (iterate accept next a) (iterate accept' next' (g a)) := by
  intro piece
  -- The rounds take a token each, so the induction is on the length of what is left of the piece.
  induction hl : piece.length using Nat.strongRecOn generalizing piece a with
  | ind n ih =>
    intro unbroken
    cases piece with
    | nil =>
      change link.Corresponds g (iterateReply accept next link.endLine a link.ahead)
        (iterateReply accept' next' link.endLine' (g a) link.ahead')
      rw [iterateReply_stop _ _ _ _ _ h.ahead.1, iterateReply_stop _ _ _ _ _ h.ahead.2]
      exact .ok a unbroken .nil
    | cons token piece =>
      obtain ⟨_, inside⟩ := unbroken_cons.1 unbroken
      change link.Corresponds g (iterateReply accept next link.endLine a (token :: link.stream piece))
        (iterateReply accept' next' link.endLine' (g a) (token.mapLine link.move :: link.stream' piece))
      rw [iterateReply, iterateReply, h.moved]
      cases accept token with
      | none => exact .ok a unbroken .nil
      | some s =>
        have round := hn s a piece inside
        have taken := ((next s a).rest_suffix link.endLine (link.stream piece)).length_le
        dsimp only [Option.map_some]
        generalize (next s a).run link.endLine (link.stream piece) = r,
          (next' (gs s) (g a)).run link.endLine' (link.stream' piece) = r' at round taken ⊢
        cases round with
        | error both left same => exact .error both left same
        | @ok b left reports reports' unbroken' same =>
          have shorter : left.length < n := by
            simp only [Link.stream, List.length_append] at taken
            simp only [List.length_cons] at hl
            omega
          have others := ih left.length shorter b left rfl unbroken'
          simp only [Parser.iterate] at others
          dsimp only
          generalize iterateReply accept next link.endLine b (link.stream left) = t,
            iterateReply accept' next' link.endLine' (g b) (link.stream' left) = t' at others ⊢
          cases others with
          | error both left' same' => exact .error both left' (List.rel_append same same')
          | ok c left' same' => exact .ok c left' (List.rel_append same same')

end Parser

end SetScript
