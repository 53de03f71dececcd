import SetScript.Proofs.Cursor.Expression
import SetScript.Proofs.Parser.Recovery
/-!
# Programs under a cursor

The whole parser as a machine on a stream that ends: `Cursor.parse`. On every list of tokens, given enough rounds, it
ends at the first end marker with what `SetScript.parse` gives, with no level open at the start of any turn and further
on in the stream at each (`cursor_parse`).
-/

namespace SetScript

namespace Cursor

section

variable (fuel : Nat)

/-! ## Statements -/

def expression : Machine Expr := (readers fuel fuel).expression

def closedBy {α : Type} (m : Machine α) (kind : Kind) (expected : String) : Machine α := do
  let a ← m
  let _ ← expect kind expected
  return a

def name (expected : String) : Machine Token := expect .identifier expected

def functionTail : Machine Statement :=
  closedBy (do
    let f ← name "Expect function name"
    let _ ← expect .leftParen "Expect '(' after function name"
    let (parameters, _) ←
      listUntil fuel (name "Expect parameter name") .rightParen "Expect ')' after parameters"
    let _ ← expect .equal "Expect '=' after ')'"
    return .function f parameters (← expression fuel))
    .semicolon "Expect ';' after function declaration"

def letTail : Machine Statement :=
  closedBy (do
    let x ← name "Expect variable name"
    let _ ← expect .equal "Expect '=' after name"
    return .let x (← expression fuel))
    .semicolon "Expect ';' after value"

def printTail : Machine Statement :=
  closedBy (do return .print (← expression fuel)) .semicolon "Expect ';' after value"

def expressionStatement : Machine Statement :=
  closedBy (do return .expression (← expression fuel)) .semicolon "Expect ';' after expression"

def afterWord? : Kind → Option (Machine Statement)
  | .defWord => some (functionTail fuel)
  | .letWord => some (letTail fuel)
  | .printWord => some (printTail fuel)
  | _ => none

def declaration : Machine Statement := do
  match afterWord? fuel (← peek).kind with
  | some tail => advance; tail
  | none => expressionStatement fuel

/-! ## Programs -/

/-- Steps on to the next boundary, in at most so many rounds. -/
def synchronize : Nat → Machine Unit
  | 0 => stop .unfinished
  | rounds + 1 => do
    let token ← peek
    if token.kind = .eof ∨ token.kind.beginsStatement then return ()
    else
      advance
      if token.kind = .semicolon then return () else synchronize rounds

/-- One turn: a statement, or its error reported and a step on to the next boundary. -/
def turn : Machine (Option Statement) where
  run stream state :=
    match (declaration fuel).run stream state with
    | (.ok statement, after) => (.ok (some statement), after)
    | (.error (.error error), after) => (do report error; synchronize fuel; return none).run stream after
    | (.error halt, after) => (.error halt, after)

def here : Machine Place := ⟨fun _ state => (.ok state.place, state)⟩

/-- The statements of at most so many turns up to the end marker, and where the turns start. -/
def program : Nat → Machine (List Statement × List Place)
  | 0 => stop .unfinished
  | turns + 1 => do
    if (← peek).kind = .eof then return ([], [])
    else
      let start ← here
      let statement? ← turn fuel
      let (statements, starts) ← program turns
      return (statement?.toList ++ statements, start :: starts)

end

/-- The line of the last token. -/
def lastLine (tokens : List Token) : Nat := (tokens.getLast?.map (·.line)).getD 1

/-- The tokens with an end marker as the last one. -/
def terminated (tokens : List Token) : List Token :=
  if tokens.getLast?.any (·.kind == .eof) then tokens else tokens ++ [Token.endMarker (lastLine tokens)]

/-- The position of the first end marker. -/
def firstEnd (tokens : List Token) : Nat := (terminated tokens).findIdx (·.kind == .eof)

/-- Reads the statements of a program, from any tokens, with so much fuel for each loop and for the nesting. -/
def parse (fuel : Nat) (tokens : List Token) : Except Halt (List Statement × List Place) × State :=
  (program fuel fuel).run (terminated tokens) .start

/-! ## Following the parsers -/

variable {tape : Tape} {level fuel : Nat} {rest : List Token} {state : State}

/-- The turns on a tape start with no level open, each further on than the one before, and none at the end. -/
structure Tape.Starts (tape : Tape) (rest : List Token) (starts : List Place) : Prop where
  level : ∀ start ∈ starts, start.level = 0
  ordered : (starts.map (·.position) ++ [tape.inside.length]).Pairwise (· < ·)
  first : ∀ start ∈ starts, tape.inside.length - rest.length ≤ start.position

/-- A turn in front of others that start behind it. -/
theorem Tape.Starts.cons {rest' : List Token} {starts : List Place} (h : tape.Standing rest 0 state)
    (shorter : rest'.length < rest.length) (others : tape.Starts rest' starts) :
    tape.Starts rest (state.place :: starts) := by
  have fits := h.suffix.length_le
  have position : state.place.position = tape.inside.length - rest.length := by rw [h.place]
  refine ⟨List.forall_mem_cons.mpr ⟨by rw [h.place], others.level⟩,
    List.pairwise_cons.mpr ⟨fun later hl => ?_, others.ordered⟩,
    List.forall_mem_cons.mpr ⟨Nat.le_of_eq position.symm, fun start hs => ?_⟩⟩
  · dsimp only
    rcases List.mem_append.mp hl with hl | hl
    · obtain ⟨start, hs, rfl⟩ := List.mem_map.mp hl
      have := others.first start hs
      omega
    · rw [List.mem_singleton.mp hl]
      omega
  · have := others.first start hs
    omega

section

variable (hr : tape.inside.length < fuel) (hl : maxNesting < fuel)

include hr hl

theorem follows_expression : tape.Follows 0 (expression fuel) Parser.expression :=
  (follows_readers hr (Nat.zero_add _) hl).expression

omit hr hl in
theorem Tape.Follows.closedBy {α : Type} {m : Machine α} {p : Parser α} (hm : tape.Follows level m p) {kind : Kind}
    (hk : kind ≠ .eof) (expected : String) :
    tape.Follows level (closedBy m kind expected) (Parser.closedBy p kind expected) :=
  hm.bind fun _ => (Tape.Follows.expect hk _).bind fun _ => .pure _

omit hr hl in
theorem follows_name (expected : String) : tape.Follows level (name expected) (Parser.name expected) :=
  .expect (by decide) _

theorem follows_expressionStatement : tape.Follows 0 (expressionStatement fuel) Parser.expressionStatement :=
  (follows_expression hr hl).map.closedBy (by decide) _

theorem follows_afterWord (kind : Kind) :
    (afterWord? fuel kind = none ∧ Parser.afterWord? kind = none) ∨
      ∃ m p, afterWord? fuel kind = some m ∧ Parser.afterWord? kind = some p ∧ tape.Follows 0 m p := by
  have value := follows_expression hr hl
  cases kind
  case defWord =>
    refine .inr ⟨_, _, rfl, rfl, Tape.Follows.closedBy ?_ (by decide) _⟩
    exact (follows_name _).bind fun _ => (Tape.Follows.expect (by decide) _).bind fun _ =>
      (follows_listUntil hr (follows_name _) (by decide) _).bind fun _ =>
        (Tape.Follows.expect (by decide) _).bind fun _ => value.map
  case letWord =>
    refine .inr ⟨_, _, rfl, rfl, Tape.Follows.closedBy ?_ (by decide) _⟩
    exact (follows_name _).bind fun _ => (Tape.Follows.expect (by decide) _).bind fun _ => value.map
  case printWord => exact .inr ⟨_, _, rfl, rfl, value.map.closedBy (by decide) _⟩
  all_goals exact .inl ⟨rfl, rfl⟩

theorem follows_declaration : tape.Follows 0 (declaration fuel) Parser.declaration := by
  have plain := follows_expressionStatement hr hl
  refine Tape.Follows.congr (p := Parser.peek? >>= fun next? =>
    (next?.bind (Parser.afterWord? ·.kind)).elim Parser.expressionStatement fun tail => Parser.skip >>= fun _ => tail)
    (.peek ?_ fun token _ => ?_) fun endLine tokens => ?_
  · rw [tape.isEnd]
    exact plain
  · rw [Option.bind_some]
    rcases follows_afterWord hr hl token.kind with ⟨hm, hp⟩ | ⟨m, p, hm, hp, follows⟩
    · rw [hm, hp]
      exact plain
    · rw [hm, hp]
      exact Tape.Follows.advance.bind fun _ => follows
  · cases tokens with
    | nil => rfl
    | cons token tokens =>
      rw [Parser.run_declaration_cons, Parser.run_peek?_bind, List.head?_cons, Option.bind_some]
      cases Parser.afterWord? token.kind <;> rfl

omit hl in
theorem tracks_synchronize (h : tape.Standing rest level state) :
    tape.Tracks level state ⟨.ok (), resume rest, []⟩ ((synchronize fuel).run tape.stream state) := by
  have enough : rest.length < fuel := Nat.lt_of_le_of_lt h.suffix.length_le hr
  clear hr
  induction fuel generalizing rest state with
  | zero => exact absurd enough (Nat.not_lt_zero _)
  | succ rounds ih =>
    rw [synchronize, Machine.run_bind, h.peek]
    cases rest with
    | nil =>
      simp only [List.head?_nil, Option.getD_none, tape.isEnd, true_or, if_true]
      exact h.tracks (.ok ())
    | cons token rest =>
      have inside := tape.eofFree token (h.suffix.subset List.mem_cons_self)
      simp only [List.head?_cons, Option.getD_some, inside, false_or, resume]
      by_cases word : token.kind.beginsStatement = true
      · simp only [word, if_true]
        exact h.tracks (.ok ())
      · obtain ⟨after, run, reports, standing⟩ := h.advance
        simp only [word, Bool.false_eq_true, if_false]
        rw [Machine.run_bind, run]
        by_cases semicolon : token.kind = .semicolon
        · simp only [semicolon, if_true]
          exact ⟨rfl, reports.trans (List.append_nil _).symm, standing⟩
        · simp only [semicolon, if_false]
          have others := ih standing (by simpa using enough)
          exact ⟨others.result, others.reports.trans (by rw [reports]), others.standing⟩

theorem tracks_turn (h : tape.Standing rest 0 state) :
    tape.Tracks 0 state
      ⟨.ok (SetScript.turn tape.marker.line rest).1, (SetScript.turn tape.marker.line rest).2.2,
        (SetScript.turn tape.marker.line rest).2.1⟩
      ((turn fuel).run tape.stream state) := by
  obtain ⟨same, reports, standing⟩ := follows_declaration hr hl rest state h
  simp only [turn, SetScript.turn]
  generalize (declaration fuel).run tape.stream state = outcome at same reports standing ⊢
  obtain ⟨result, after⟩ := outcome
  dsimp only at same reports standing
  subst same
  cases (Parser.declaration.run tape.marker.line rest).result with
  | ok statement => exact ⟨rfl, reports, standing⟩
  | error error =>
    obtain ⟨same, quiet, standing⟩ := tracks_synchronize hr (standing.report error)
    change tape.Tracks 0 state _ (((report error >>= fun _ => synchronize fuel >>= fun _ => pure none) :
      Machine (Option Statement)).run tape.stream after)
    have run : (report error).run tape.stream after = (.ok (), after.report error) := rfl
    rw [Machine.run_bind, run]
    dsimp only
    rw [Machine.run_bind]
    generalize (synchronize fuel).run tape.stream (after.report error) = outcome at same quiet standing ⊢
    obtain ⟨result, last⟩ := outcome
    dsimp only at same quiet standing
    subst same
    refine ⟨rfl, ?_, standing⟩
    change last.reports = _
    rw [quiet, List.append_nil, State.report, reports, List.append_assoc]

theorem run_program (h : tape.Standing rest 0 state) {turns : Nat} (enough : rest.length < turns) :
    ∃ starts after, (program fuel turns).run tape.stream state =
        (.ok ((declarations tape.marker.line rest).statements, starts), after) ∧
      after.reports = state.reports ++ (declarations tape.marker.line rest).errors ∧
      tape.Standing [] 0 after ∧ tape.Starts rest starts := by
  induction turns generalizing rest state with
  | zero => exact absurd enough (Nat.not_lt_zero _)
  | succ turns ih =>
    rw [program, Machine.run_bind, h.peek]
    cases rest with
    | nil =>
      simp only [List.head?_nil, Option.getD_none, tape.isEnd, if_true]
      rw [declarations]
      exact ⟨[], state, rfl, (List.append_nil _).symm, h, ⟨by simp, by simp, by simp⟩⟩
    | cons token rest =>
      have inside := tape.eofFree token (h.suffix.subset List.mem_cons_self)
      simp only [List.head?_cons, Option.getD_some, inside, if_false]
      obtain ⟨same, reports, standing⟩ := tracks_turn hr hl h
      have shorter := turn_shorter tape.marker.line token rest
      obtain ⟨starts, last, run, told, ended, later⟩ :=
        ih standing (Nat.lt_of_lt_of_le shorter (Nat.le_of_lt_succ enough))
      refine ⟨state.place :: starts, last, ?_, ?_, ended, later.cons h shorter⟩
      · have turned : (turn fuel).run tape.stream state = (_, _) := Prod.ext same rfl
        have start : here.run tape.stream state = (.ok state.place, state) := rfl
        rw [Machine.run_bind, start]
        dsimp only
        rw [Machine.run_bind, turned]
        dsimp only [Except.mapError]
        rw [Machine.run_bind, run, declarations]
        rfl
      · rw [told, reports, declarations, List.append_assoc]

end

/-! ## Any tokens -/

theorem endLine_of_eofFree {tokens : List Token} (h : ∀ token ∈ tokens, token.kind ≠ .eof) :
    endLine tokens = lastLine tokens := by
  have nowhere : tokens.find? (·.kind == .eof) = none := by simpa using h
  rw [endLine, nowhere, lastLine]
  cases tokens.getLast? <;> rfl

theorem exists_tape (tokens : List Token) :
    ∃ tape : Tape, tape.stream = terminated tokens ∧ tape.inside = tokens.takeWhile (·.kind != .eof) ∧
      tape.marker.line = endLine tokens := by
  have whole := List.takeWhile_append_dropWhile (p := fun token : Token => token.kind != .eof) (l := tokens)
  have eofFree : ∀ token ∈ tokens.takeWhile (·.kind != .eof), token.kind ≠ .eof := fun token ht => by
    simpa using List.mem_takeWhile_imp ht
  have first := List.find?_eq_head?_dropWhile_not (p := fun token : Token => token.kind == .eof) (l := tokens)
  cases left : tokens.dropWhile (·.kind != .eof) with
  | nil =>
    rw [left, List.append_nil] at whole
    rw [whole] at eofFree
    have unmarked : tokens.getLast?.any (·.kind == .eof) = false := by
      cases hl : tokens.getLast? with
      | none => rfl
      | some last => simpa using eofFree last (List.mem_of_getLast? hl)
    refine ⟨⟨tokens, Token.endMarker (lastLine tokens), [], eofFree, rfl⟩, ?_, whole.symm, ?_⟩
    · rw [terminated, unmarked]
      rfl
    · exact (endLine_of_eofFree eofFree).symm
  | cons marker behind =>
    have found : tokens.find? (·.kind == .eof) = some marker := first.trans (congrArg List.head? left)
    have isEnd : marker.kind = .eof := by simpa using List.find?_some found
    rw [left] at whole
    have line := (endLine_of_find? found).symm
    by_cases closed : tokens.getLast?.any (·.kind == .eof) = true
    · exact ⟨⟨_, marker, behind, eofFree, isEnd⟩, by rw [terminated, if_pos closed]; exact whole, rfl, line⟩
    · refine ⟨⟨_, marker, behind ++ [Token.endMarker (lastLine tokens)], eofFree, isEnd⟩, ?_, rfl, line⟩
      rw [terminated, if_neg closed, Tape.stream, ← List.cons_append, ← List.append_assoc]
      exact congrArg (· ++ _) whole

theorem Tape.findIdx_stream (tape : Tape) : tape.stream.findIdx (·.kind == .eof) = tape.inside.length := by
  have nowhere : tape.inside.findIdx (·.kind == .eof) = tape.inside.length :=
    List.findIdx_eq_length.mpr fun token ht => by simpa using tape.eofFree token ht
  rw [stream, List.findIdx_append, nowhere, if_neg (Nat.lt_irrefl _), List.findIdx_cons]
  simp [tape.isEnd]

/-- How reading any tokens ends: at the first end marker, with what the parser gives, when no place on the way was
behind the marker or too deep, and each turn has started with no level open and taken a token. -/
structure Ends (tokens : List Token) (starts : List Place) (final : State) : Prop where
  reports : final.reports = (SetScript.parse tokens).errors
  flag : final.hadError = !(SetScript.parse tokens).errors.isEmpty
  place : final.place = ⟨firstEnd tokens, 0⟩
  trail : ∀ place ∈ final.trail, place.position ≤ firstEnd tokens ∧ place.level ≤ maxNesting
  level : ∀ start ∈ starts, start.level = 0
  ordered : (starts.map (·.position) ++ [firstEnd tokens]).Pairwise (· < ·)

theorem parse_ends (tokens : List Token) {fuel : Nat} (enough : max tokens.length maxNesting < fuel) :
    firstEnd tokens < (terminated tokens).length ∧
      ∃ starts final, parse fuel tokens = (.ok ((SetScript.parse tokens).statements, starts), final) ∧
        Ends tokens starts final := by
  obtain ⟨tape, stream, inside, line⟩ := exists_tape tokens
  obtain ⟨hr, hl⟩ := Nat.max_lt.mp enough
  have fits : tape.inside.length < fuel := by
    rw [inside]
    exact Nat.lt_of_le_of_lt (List.takeWhile_prefix _).length_le hr
  have last : firstEnd tokens = tape.inside.length := by rw [firstEnd, ← stream, tape.findIdx_stream]
  have start : tape.Standing tape.inside 0 .start :=
    ⟨List.suffix_refl _, by simp [State.start], Nat.zero_le _, by simp [State.start], rfl⟩
  obtain ⟨starts, final, run, told, standing, turns⟩ := run_program fits hl start fits
  rw [stream, line, inside] at run
  rw [line, inside] at told
  have told' : final.reports = (SetScript.parse tokens).errors := told
  refine ⟨?_, starts, final, run, told', ?_, ?_, ?_, turns.level, ?_⟩
  · rw [last, ← stream]
    simp [Tape.stream]
  · rw [standing.flag, told']
  · rw [standing.place, last]
    rfl
  · rw [last]
    exact standing.trail
  · rw [last]
    exact turns.ordered

/-- What stands behind an end marker is not read. -/
theorem parse_behind (before behind : List Token) {marker : Token} (h : marker.kind = .eof) :
    SetScript.parse (before ++ marker :: behind) = SetScript.parse (before ++ [marker]) := by
  have same : endLine (before ++ marker :: behind) = endLine (before ++ [marker]) := by
    obtain ⟨first, found, found'⟩ : ∃ first, (before ++ marker :: behind).find? (·.kind == .eof) = some first ∧
        (before ++ [marker]).find? (·.kind == .eof) = some first := by
      cases hf : before.find? (·.kind == .eof) <;> simp [hf, h]
    rw [endLine_of_find? found, endLine_of_find? found']
  have front : (before ++ marker :: behind).takeWhile (·.kind != .eof) =
      (before ++ [marker]).takeWhile (·.kind != .eof) := by
    simp [List.takeWhile_append, h]
  rw [SetScript.parse, SetScript.parse, same, front]

/-- An end marker that is missing may as well stand on the line of the last token. -/
theorem parse_marked {tokens : List Token} (h : ∀ token ∈ tokens, token.kind ≠ .eof) {marker : Token}
    (isEnd : marker.kind = .eof) (line : marker.line = lastLine tokens) :
    SetScript.parse (tokens ++ [marker]) = SetScript.parse tokens := by
  rw [parse_marker h isEnd, parse_eq_declarations h, endLine_of_eofFree h, line]

end Cursor

/-- Any tokens can be read. With enough fuel the machine ends, inside the stream and at its first end marker, with what
the parser gives; on its way it has never been behind this marker and never more than `maxNesting` levels deep, and
each of its turns has started with no level open and taken a token. What stands behind the first end marker has no
part in what is read, and a stream without one is read as if it stood on the line of the last token. -/
theorem parse_total :
    (∀ (tokens : List Token) (fuel : Nat), max tokens.length maxNesting < fuel →
      Cursor.firstEnd tokens < (Cursor.terminated tokens).length ∧
        ∃ starts final, Cursor.parse fuel tokens = (.ok ((parse tokens).statements, starts), final) ∧
          Cursor.Ends tokens starts final) ∧
    (∀ (before behind : List Token) (marker : Token), marker.kind = .eof →
      parse (before ++ marker :: behind) = parse (before ++ [marker])) ∧
    ∀ (tokens : List Token) (marker : Token), (∀ token ∈ tokens, token.kind ≠ .eof) → marker.kind = .eof →
      marker.line = Cursor.lastLine tokens → parse (tokens ++ [marker]) = parse tokens :=
  ⟨fun tokens _ enough => Cursor.parse_ends tokens enough, fun before behind _ h => Cursor.parse_behind before behind h,
    fun _ _ h isEnd line => Cursor.parse_marked h isEnd line⟩

/-- A comment, a number without a value, an end marker with a text, and more behind it. -/
def oddTokens : List Token :=
  [⟨.comment, "# x", none, 1⟩, ⟨.printWord, "print", none, 2⟩, ⟨.number, "1", none, 3⟩, ⟨.eof, "end", none, 4⟩,
    ⟨.semicolon, ";", none, 5⟩]

theorem parse_total_oddTokens :
    max oddTokens.length maxNesting < 101 ∧
      (∃ starts final, Cursor.parse 101 oddTokens = (.ok ([], starts), final) ∧ final.place = ⟨3, 0⟩ ∧
        final.reports.map (·.line) = [1, 3] ∧ Cursor.Ends oddTokens starts final) ∧
      parse oddTokens = parse (oddTokens.take 4) ∧
      parse (oddTokens.take 3 ++ [Token.endMarker 3]) = parse (oddTokens.take 3) := by
  have enough : max oddTokens.length maxNesting < 101 := by decide
  obtain ⟨total, behind, marked⟩ := parse_total
  obtain ⟨-, starts, final, run, ends⟩ := total oddTokens 101 enough
  have nothing : (parse oddTokens).statements = [] := List.eq_nil_of_length_eq_zero (by decide +kernel)
  refine ⟨enough, ⟨starts, final, nothing ▸ run, ?_, ?_, ends⟩, ?_, ?_⟩
  · rw [ends.place]
    decide +kernel
  · rw [ends.reports]
    decide +kernel
  · exact behind (oddTokens.take 3) [⟨.semicolon, ";", none, 5⟩] ⟨.eof, "end", none, 4⟩ rfl
  · exact marked (oddTokens.take 3) (Token.endMarker 3) (by decide) rfl rfl

end SetScript
