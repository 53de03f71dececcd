import SetScript.Parser.Expression
/-!
# A cursor over a token stream

A `Machine` reads a stream at a position that it moves forward, and counts the levels that are open. It stops with
`Halt.outside` when it looks where no token is, and with `Halt.unfinished` when a loop has no rounds left, so that
neither is ruled out by the way it is written. `Follows` says that it does at its position what a `Parser` does on the
tokens that are left up to the first end marker, that it never stands behind this marker, and that it has no more
levels open afterwards than before. Every way to build machines keeps this.
-/

namespace SetScript.Cursor

/-- Where a machine stands: before a token of the stream, with so many levels open. -/
structure Place where
  position : Nat
  level : Nat
  deriving Repr, DecidableEq

/-- The state of a machine: its place with all places so far, and what it has reported. -/
structure State where
  place : Place
  trail : List Place
  reports : List SyntaxError
  hadError : Bool
  deriving Repr, DecidableEq

/-- Why a machine stops without a result. -/
inductive Halt where
  /-- The tokens are not what the grammar asks for. -/
  | error (error : SyntaxError)
  /-- There is no token at the position. -/
  | outside
  /-- A loop or the nesting goes on for longer than the machine was given. -/
  | unfinished
  deriving Repr, DecidableEq

/-- A machine: from a stream and a state to its result and the next state. -/
structure Machine (α : Type) where
  run : (stream : List Token) → State → Except Halt α × State

namespace State

/-- Before the first token, with nothing open and nothing reported. -/
def start : State := ⟨⟨0, 0⟩, [⟨0, 0⟩], [], false⟩

/-- Goes to a place, which the trail keeps. -/
def goTo (state : State) (place : Place) : State :=
  { state with place := place, trail := state.trail ++ [place] }

def report (state : State) (error : SyntaxError) : State :=
  { state with reports := state.reports ++ [error], hadError := true }

end State

namespace Machine

variable {α β : Type}

protected def pure (a : α) : Machine α := ⟨fun _ state => (.ok a, state)⟩

protected def bind (m : Machine α) (f : α → Machine β) : Machine β where
  run stream state :=
    match m.run stream state with
    | (.error halt, after) => (.error halt, after)
    | (.ok a, after) => (f a).run stream after

instance : Monad Machine where
  pure := Machine.pure
  bind := Machine.bind

theorem run_bind (m : Machine α) (f : α → Machine β) (stream : List Token) (state : State) :
    (m >>= f).run stream state =
      match m.run stream state with
      | (.error halt, after) => (.error halt, after)
      | (.ok a, after) => (f a).run stream after := rfl

end Machine

variable {α β σ : Type}

/-! ## Moves -/

def stop (halt : Halt) : Machine α := ⟨fun _ state => (.error halt, state)⟩

/-- The token at the position. -/
def peek : Machine Token where
  run stream state :=
    match stream[state.place.position]? with
    | some token => (.ok token, state)
    | none => (.error .outside, state)

def step : Machine Unit where
  run _ state := (.ok (), state.goTo { state.place with position := state.place.position + 1 })

/-- Steps over the token at the position, unless it is an end marker. -/
def advance : Machine Unit := do
  let token ← peek
  if token.kind = .eof then pure () else step

/-- Stops with an error at the present token. -/
def fail (cause : SyntaxError.Cause) : Machine α := do
  let token ← peek
  stop (.error ⟨cause, token.line⟩)

/-- Stops because the grammar asks for something else than the present token. -/
def unexpected (expected : String) : Machine α := do
  let token ← peek
  fail (if token.kind = .eof then .unexpectedEnd expected else .unexpectedToken expected token.lexeme)

def report (error : SyntaxError) : Machine Unit := ⟨fun _ state => (.ok (), state.report error)⟩

/-- Reports an error at the present token and goes on. -/
def reportHere (cause : SyntaxError.Cause) : Machine Unit := do
  let token ← peek
  report ⟨cause, token.line⟩

/-- Steps over the present token if `accept` has a value for it. -/
def accept? (accept : Token → Option α) : Machine (Option α) := do
  match accept (← peek) with
  | some a => advance; return some a
  | none => return none

/-- Steps over a token of the given kind and gives it; stops at any other. -/
def expect (kind : Kind) (expected : String) : Machine Token := do
  match ← accept? (fun token => if token.kind = kind then some token else none) with
  | some token => return token
  | none => unexpected expected

/-- Reads with one more level open, and closes it again however the reading ends. With all levels open it stops at the
present token. -/
def deeper (m : Machine α) : Machine α where
  run stream state :=
    if state.place.level = maxNesting then (fail (.nestingTooDeep maxNesting)).run stream state
    else
      let outcome := m.run stream (state.goTo { state.place with level := state.place.level + 1 })
      (outcome.1, outcome.2.goTo { outcome.2.place with level := outcome.2.place.level - 1 })

/-- As long as `accept` has a value for the present token, steps over it and makes a new result from the value and the
last result, for at most so many rounds. -/
def iterate (accept : Token → Option σ) (next : σ → α → Machine α) : Nat → α → Machine α
  | 0, _ => stop .unfinished
  | rounds + 1, a => do
    match ← accept? accept with
    | none => return a
    | some s => iterate accept next rounds (← next s a)

/-! ## Streams with an end -/

/-- A stream of tokens at its first end marker. -/
structure Tape where
  inside : List Token
  marker : Token
  behind : List Token
  eofFree : ∀ token ∈ inside, token.kind ≠ .eof
  isEnd : marker.kind = .eof

namespace Tape

variable (tape : Tape)

def stream : List Token := tape.inside ++ tape.marker :: tape.behind

/-- The machine stands in front of what is left up to the end marker, has never been behind the marker or on too deep a
level, and knows whether it has reported anything. -/
structure Standing (rest : List Token) (level : Nat) (state : State) : Prop where
  suffix : rest <:+ tape.inside
  place : state.place = ⟨tape.inside.length - rest.length, level⟩
  level_le : level ≤ maxNesting
  trail : ∀ place ∈ state.trail, place.position ≤ tape.inside.length ∧ place.level ≤ maxNesting
  flag : state.hadError = !state.reports.isEmpty

/-- The outcome of a machine is the reply of a parser. -/
structure Tracks {α : Type} (level : Nat) (before : State) (reply : Reply α) (outcome : Except Halt α × State) :
    Prop where
  result : outcome.1 = reply.result.mapError .error
  reports : outcome.2.reports = before.reports ++ reply.reports
  standing : tape.Standing reply.rest level outcome.2

/-- With so many levels open the machine does what the parser does on the tokens up to the end marker. -/
def Follows {α : Type} (level : Nat) (m : Machine α) (p : Parser α) : Prop :=
  ∀ rest state, tape.Standing rest level state →
    tape.Tracks level state (p.run tape.marker.line rest) (m.run tape.stream state)

end Tape

variable {tape : Tape} {level : Nat} {rest : List Token} {state : State}

/-! ## Standing on a tape -/

namespace Tape.Standing

theorem peek (h : tape.Standing rest level state) :
    Cursor.peek.run tape.stream state = (.ok (rest.head?.getD tape.marker), state) := by
  have there : tape.stream[state.place.position]? = some (rest.head?.getD tape.marker) := by
    obtain ⟨taken, whole⟩ := h.suffix
    have position : state.place.position = taken.length := by
      rw [h.place, ← whole, List.length_append]
      exact Nat.add_sub_cancel ..
    rw [position, stream, ← whole, List.append_assoc, List.getElem?_append_right (Nat.le_refl _), Nat.sub_self]
    cases rest <;> rfl
  simp only [Cursor.peek, there]

/-- Going to an allowed place. -/
theorem goTo {rest' : List Token} {level' : Nat} (h : tape.Standing rest level state) (hs : rest' <:+ tape.inside)
    (hl : level' ≤ maxNesting) :
    tape.Standing rest' level' (state.goTo ⟨tape.inside.length - rest'.length, level'⟩) where
  suffix := hs
  place := rfl
  level_le := hl
  trail := List.forall_mem_append.mpr ⟨h.trail, List.forall_mem_singleton.mpr ⟨Nat.sub_le _ _, hl⟩⟩
  flag := h.flag

/-- Up to the end marker every token can be stepped over. -/
theorem advance {token : Token} (h : tape.Standing (token :: rest) level state) :
    ∃ after, Cursor.advance.run tape.stream state = (.ok (), after) ∧ after.reports = state.reports ∧
      tape.Standing rest level after := by
  have inside := tape.eofFree token (h.suffix.subset List.mem_cons_self)
  have left := (List.suffix_cons token rest).trans h.suffix
  have fits := h.suffix.length_le
  rw [List.length_cons] at fits
  have position : tape.inside.length - (token :: rest).length + 1 = tape.inside.length - rest.length := by
    rw [List.length_cons]
    omega
  refine ⟨state.goTo ⟨tape.inside.length - rest.length, level⟩, ?_, rfl, h.goTo left h.level_le⟩
  rw [Cursor.advance, Machine.run_bind, h.peek]
  simp only [List.head?_cons, Option.getD_some, inside, if_false, step, h.place, position]

theorem report (h : tape.Standing rest level state) (error : SyntaxError) :
    tape.Standing rest level (state.report error) where
  suffix := h.suffix
  place := h.place
  level_le := h.level_le
  trail := h.trail
  flag := by simp [State.report]

/-- What is done without a move and without a report. -/
theorem tracks (h : tape.Standing rest level state) (result : Except SyntaxError α) :
    tape.Tracks level state ⟨result, rest, []⟩ (result.mapError .error, state) :=
  ⟨rfl, (List.append_nil _).symm, h⟩

end Tape.Standing

/-! ## Machines that follow parsers -/

namespace Tape.Follows

variable {m : Machine α} {p : Parser α}

theorem pure (a : α) : tape.Follows level (pure a) (pure a) := fun _ _ h => h.tracks (.ok a)

theorem bind {f : α → Machine β} {g : α → Parser β} (hm : tape.Follows level m p)
    (hf : ∀ a, tape.Follows level (f a) (g a)) : tape.Follows level (m >>= f) (p >>= g) := by
  intro rest state h
  obtain ⟨same, reports, standing⟩ := hm rest state h
  rw [Parser.run_bind, Machine.run_bind]
  generalize m.run tape.stream state = outcome at same reports standing ⊢
  obtain ⟨result, after⟩ := outcome
  dsimp only at same reports standing
  subst same
  cases (p.run tape.marker.line rest).result with
  | error e => exact ⟨rfl, reports, standing⟩
  | ok a =>
    have second := hf a _ after standing
    exact ⟨second.result, second.reports.trans (by rw [reports]; exact List.append_assoc ..), second.standing⟩

theorem congr {q : Parser α} (hm : tape.Follows level m p)
    (h : ∀ endLine tokens, q.run endLine tokens = p.run endLine tokens) : tape.Follows level m q :=
  fun rest state hs => h tape.marker.line rest ▸ hm rest state hs

theorem map {f : α → β} (hm : tape.Follows level m p) : tape.Follows level (f <$> m) (f <$> p) :=
  hm.bind fun a => pure (f a)

/-- A machine that goes on by the present token, which is the end marker where the parser has no token left. -/
theorem peek {f : Token → Machine α} {g : Option Token → Parser α}
    (marker : tape.Follows level (f tape.marker) (g none))
    (inside : ∀ token, token.kind ≠ .eof → tape.Follows level (f token) (g (some token))) :
    tape.Follows level (Cursor.peek >>= f) (Parser.peek? >>= g) := by
  intro rest state h
  rw [Machine.run_bind, h.peek, Parser.run_bind]
  cases rest with
  | nil => exact marker [] state h
  | cons token rest =>
    exact inside token (tape.eofFree token (h.suffix.subset List.mem_cons_self)) (token :: rest) state h

theorem advance : tape.Follows level advance Parser.skip := by
  intro rest state h
  cases rest with
  | nil =>
    rw [Cursor.advance, Machine.run_bind, h.peek]
    simp only [List.head?_nil, Option.getD_none, tape.isEnd, if_true]
    exact h.tracks (.ok ())
  | cons token rest =>
    obtain ⟨after, run, reports, standing⟩ := h.advance
    rw [run]
    exact ⟨rfl, reports.trans (List.append_nil _).symm, standing⟩

theorem fail (cause : SyntaxError.Cause) : tape.Follows level (fail cause : Machine α) (Parser.fail cause) := by
  intro rest state h
  rw [Cursor.fail, Machine.run_bind, h.peek]
  cases rest <;> exact h.tracks (.error _)

theorem unexpected (expected : String) :
    tape.Follows level (unexpected expected : Machine α) (Parser.unexpected expected) := by
  refine .peek ?_ fun token ht => ?_
  · rw [if_pos tape.isEnd]
    exact .fail _
  · rw [if_neg ht]
    exact .fail _

theorem report (error : SyntaxError) : tape.Follows level (report error) (Parser.report error) :=
  fun _ _ h => ⟨rfl, rfl, h.report error⟩

theorem reportHere (cause : SyntaxError.Cause) :
    tape.Follows level (reportHere cause) (Parser.reportHere cause) := by
  intro rest state h
  rw [Cursor.reportHere, Machine.run_bind, h.peek]
  cases rest <;> exact ⟨rfl, rfl, h.report _⟩

theorem accept? {accept : Token → Option α} (h : ∀ token, token.kind = .eof → accept token = none) :
    tape.Follows level (accept? accept) (Parser.accept? accept) := by
  refine .peek ?_ fun token _ => ?_
  · rw [h _ tape.isEnd]
    exact .pure none
  · change tape.Follows level _ (match accept token with | some a => _ | none => _)
    cases accept token with
    | none => exact .pure none
    | some a => exact .bind .advance fun _ => .pure (some a)

theorem expect {kind : Kind} (h : kind ≠ .eof) (expected : String) :
    tape.Follows level (expect kind expected) (Parser.expect kind expected) := by
  refine .bind (.accept? fun token ht => if_neg (ht ▸ h.symm)) ?_
  rintro (_ | token)
  · exact .unexpected expected
  · exact .pure token

theorem deeper (hl : level < maxNesting) (hm : tape.Follows (level + 1) m p) :
    tape.Follows level (Cursor.deeper m) p := by
  intro rest state h
  obtain ⟨result, reports, standing⟩ := hm rest _ (h.goTo h.suffix hl)
  have closed := standing.goTo standing.suffix h.level_le
  simp only [Cursor.deeper, h.place, Nat.ne_of_lt hl, if_false]
  refine ⟨result, reports, ?_⟩
  rw [standing.place]
  exact closed

/-- With all levels open nothing is read. -/
theorem deeper_maxNesting : tape.Follows maxNesting (Cursor.deeper m) (Parser.fail (.nestingTooDeep maxNesting)) := by
  intro rest state h
  have full : state.place.level = maxNesting := by rw [h.place]
  simp only [Cursor.deeper, full, if_true]
  exact fail _ rest state h

theorem iterate {accept : Token → Option σ} {next : σ → α → Machine α} {next' : σ → α → Parser α}
    (ha : ∀ token, token.kind = .eof → accept token = none)
    (hn : ∀ s a, tape.Follows level (next s a) (next' s a)) {rounds : Nat} (hr : tape.inside.length < rounds) (a : α) :
    tape.Follows level (Cursor.iterate accept next rounds a) (Parser.iterate accept next' a) := by
  intro rest state h
  have enough : rest.length < rounds := Nat.lt_of_le_of_lt h.suffix.length_le hr
  clear hr
  -- Each round takes a token, so the rounds last for what is left.
  induction rounds generalizing a rest state with
  | zero => exact absurd enough (Nat.not_lt_zero _)
  | succ rounds ih =>
    obtain ⟨same, reports, standing⟩ := accept? ha rest state h
    rw [Cursor.iterate, Machine.run_bind]
    change tape.Tracks level state (Parser.iterateReply accept next' tape.marker.line a rest) _
    rw [Parser.run_accept?] at same reports standing
    generalize (Cursor.accept? accept).run tape.stream state = outcome at same reports standing ⊢
    obtain ⟨result, after⟩ := outcome
    dsimp only at same reports standing
    subst same
    cases rest with
    | nil =>
      rw [Parser.iterateReply]
      exact ⟨rfl, reports, standing⟩
    | cons token rest =>
      rw [Parser.iterateReply]
      rw [List.head?_cons, Option.bind_some] at reports standing ⊢
      cases hs : accept token with
      | none =>
        rw [hs] at reports standing
        exact ⟨rfl, reports, standing⟩
      | some s =>
        rw [hs] at reports standing
        obtain ⟨same, reports', standing⟩ := hn s a rest after standing
        change tape.Tracks level state _ ((next s a >>= Cursor.iterate accept next rounds).run tape.stream after)
        rw [Machine.run_bind]
        generalize (next s a).run tape.stream after = outcome at same reports' standing ⊢
        obtain ⟨result, after'⟩ := outcome
        dsimp only at same reports' standing
        subst same
        dsimp only
        have told : after'.reports = state.reports ++ ((next' s a).run tape.marker.line rest).reports := by
          rw [reports', reports]
          simp
        cases hb : ((next' s a).run tape.marker.line rest).result with
        | error e => exact ⟨rfl, told, standing⟩
        | ok b =>
          have left := ((next' s a).rest_suffix tape.marker.line rest).length_le
          have others := ih b _ after' standing (by simp at enough; omega)
          exact ⟨others.result, others.reports.trans (by rw [told]; exact List.append_assoc ..), others.standing⟩

end Tape.Follows

end SetScript.Cursor
