import Mathlib.Data.List.SplitBy
import Mathlib.Data.List.TakeWhile
import SetScript.Proofs.Parser.Turns
/-!
# Recovery is local

Cut a stream behind every `;` and in front of every `def`, `let` and `print`. Reading works piece by piece:
`turns_settle` says that each piece gives either a statement or one fatal error, and that the statement and
the reports that did not stop it depend on the piece alone. `declarations_append` says that behind a `;`
reading starts afresh, whatever errors came before.
-/

open SetScript.Parser

namespace SetScript

/-- Neighbours that no cut separates. -/
def adjoined (first second : Token) : Bool :=
  first.kind != .semicolon && second.kind ∉ [Kind.defWord, .letWord, .printWord]

theorem beginsStatement_eq (kind : Kind) :
    kind.beginsStatement = decide (kind ∈ [Kind.defWord, .letWord, .printWord]) := by
  cases kind <;> rfl

theorem adjoined_eq (first second : Token) :
    adjoined first second = (first.kind != .semicolon && !second.kind.beginsStatement) := by
  rw [adjoined, beginsStatement_eq, decide_not]

/-- The pieces of a stream that is cut behind every `;` and in front of every word that begins a statement. -/
def statementPieces (tokens : List Token) : List (List Token) := tokens.splitBy adjoined

/-- What the turns of reading contribute, in order: a statement or none, and what was reported. -/
def turns (endLine : Nat) : List Token → List (Option Statement × List SyntaxError)
  | [] => []
  | token :: tokens =>
    let step := turn endLine (token :: tokens)
    (step.1, step.2.1) :: turns endLine step.2.2
  termination_by tokens => tokens.length
  decreasing_by exact turn_shorter endLine token tokens

theorem declarations_eq_turns (endLine : Nat) (tokens : List Token) :
    declarations endLine tokens =
      ⟨(turns endLine tokens).filterMap (·.1), (turns endLine tokens).flatMap (·.2)⟩ := by
  fun_induction declarations endLine tokens with
  | case1 => simp [turns]
  | case2 token tokens step others ih =>
    rw [turns]
    rw [show others = _ from ih]
    cases step.1 <;> simp [step]

/-! ## The first piece -/

/-- What a turn reads before it comes to a boundary. The word that begins a statement is no boundary to it. -/
def front : List Token → List Token
  | [] => []
  | token :: tokens =>
    if token.kind = .semicolon then [] else token :: tokens.takeWhile (!·.kind.isBoundary)

/-- The boundary that ends a turn, and all that follows. -/
def behind : List Token → List Token
  | [] => []
  | token :: tokens =>
    if token.kind = .semicolon then token :: tokens else tokens.dropWhile (!·.kind.isBoundary)

/-- The `;` that a stream starts with, if it does. -/
def closer : List Token → List Token
  | [] => []
  | token :: _ => if token.kind = .semicolon then [token] else []

theorem front_cons {token : Token} (h : token.kind ≠ .semicolon) (tokens : List Token) :
    front (token :: tokens) = token :: tokens.takeWhile (!·.kind.isBoundary) ∧
      behind (token :: tokens) = tokens.dropWhile (!·.kind.isBoundary) := by
  simp [front, behind, h]

theorem front_semicolon {token : Token} (h : token.kind = .semicolon) (tokens : List Token) :
    front (token :: tokens) = [] ∧ behind (token :: tokens) = token :: tokens := by
  simp [front, behind, h]

theorem front_append_behind (tokens : List Token) : front tokens ++ behind tokens = tokens := by
  cases tokens with
  | nil => rfl
  | cons token tokens =>
    by_cases hk : token.kind = .semicolon
    · simp [front_semicolon hk]
    · simp [front_cons hk]

theorem atBoundary_dropWhile (tokens : List Token) : AtBoundary (tokens.dropWhile (!·.kind.isBoundary)) := by
  intro token ht
  have stopped := List.head?_dropWhile_not (fun token : Token => !token.kind.isBoundary) tokens
  rw [ht] at stopped
  simpa using stopped

theorem atBoundary_behind (tokens : List Token) : AtBoundary (behind tokens) := by
  cases tokens with
  | nil => simp [behind, AtBoundary]
  | cons token tokens =>
    by_cases hk : token.kind = .semicolon
    · simp [front_semicolon hk, AtBoundary, hk, Kind.isBoundary]
    · rw [(front_cons hk tokens).2]
      exact atBoundary_dropWhile tokens

theorem unbroken_takeWhile (tokens : List Token) : Unbroken (tokens.takeWhile (!·.kind.isBoundary)) := by
  intro token hm
  simpa using List.all_eq_true.1 List.all_takeWhile token hm

/-- At a boundary, the stream is its `;`, if it starts with one, and what reading goes on with. -/
theorem closer_append_resume {tokens : List Token} (h : AtBoundary tokens) :
    closer tokens ++ resume tokens = tokens := by
  cases tokens with
  | nil => rfl
  | cons token rest =>
    have boundary := h.head rfl
    by_cases hk : token.kind = .semicolon
    · simp [closer, hk, resume_semicolon hk]
    · have word : token.kind.beginsStatement = true := by simpa [Kind.isBoundary, hk] using boundary
      simp [closer, hk, resume, word]

theorem isChain_cons_unbroken {token : Token} {piece : List Token} (ht : token.kind ≠ .semicolon)
    (h : Unbroken piece) (ahead : List Token) :
    (token :: piece ++ closer ahead).IsChain (adjoined · ·) := by
  induction piece generalizing token with
  | nil =>
    cases ahead with
    | nil => simp [closer]
    | cons s rest =>
      by_cases hk : s.kind = .semicolon <;>
        simp [closer, hk, adjoined, ht]
  | cons other piece ih =>
    obtain ⟨inside, rest⟩ := unbroken_cons.1 h
    simp only [Kind.isBoundary, Bool.or_eq_false_iff, beq_eq_false_iff_ne] at inside
    simp only [List.cons_append, List.isChain_cons_cons]
    exact ⟨by simp [adjoined_eq, ht, inside.2], ih inside.1 rest⟩

theorem statementPieces_cons (token : Token) (tokens : List Token) :
    statementPieces (token :: tokens) =
      (front (token :: tokens) ++ closer (behind (token :: tokens))) ::
        statementPieces (resume (behind (token :: tokens))) := by
  generalize hs : token :: tokens = stream
  have whole : stream = (front stream ++ closer (behind stream)) ++ resume (behind stream) := by
    rw [List.append_assoc, closer_append_resume (atBoundary_behind stream), front_append_behind]
  have first : (front stream ++ closer (behind stream)).splitBy adjoined =
      [front stream ++ closer (behind stream)] := by
    subst hs
    by_cases hk : token.kind = .semicolon
    · simp [front_semicolon hk, closer, hk, List.splitBy_of_isChain]
    · rw [(front_cons hk tokens).1]
      exact List.splitBy_of_isChain (by simp) (isChain_cons_unbroken hk (unbroken_takeWhile tokens) _)
  have cut : ∀ x ∈ (front stream ++ closer (behind stream)).getLast?,
      ∀ y ∈ (resume (behind stream)).head?, adjoined x y = false := by
    intro x hx y hy
    have boundary := atBoundary_behind stream
    cases hb : behind stream with
    | nil => simp [hb, resume] at hy
    | cons s rest =>
      by_cases hk : s.kind = .semicolon
      · have last : x = s := by simpa [hb, closer, hk] using hx.symm
        simp [adjoined, last, hk]
      · have word : s.kind.beginsStatement = true := by
          simpa [Kind.isBoundary, hk] using boundary.head hb
        have next : y = s := by simpa [hb, resume, word] using hy.symm
        simp [adjoined_eq, next, word]
  unfold statementPieces
  conv_lhs => rw [whole]
  rw [List.splitBy_append cut, first, List.singleton_append]

/-! ## Turns on linked streams -/

/-- The turns over a first piece, on the two streams of a link that starts behind it. -/
theorem turn_linked (link : Link) (token : Token) (tokens : List Token)
    (h : link.ahead = behind (token :: tokens)) :
    link.Contributes (turn link.endLine (token :: tokens))
      (turn link.endLine' ((front (token :: tokens)).map (Token.mapLine link.move) ++ link.ahead')) := by
  by_cases hk : token.kind = .semicolon
  · obtain ⟨hf, hb⟩ := front_semicolon hk tokens
    rw [hb] at h
    have closing : link.ahead'.head?.any (·.kind == .semicolon) = true := by simp [← link.closing, h, hk]
    obtain ⟨token', rest', ha', hk'⟩ := exists_head closing
    have both : link.Contributes _ _ := turn_plain unbroken_nil (fun _ => by
      simp [h, ha', hk, hk', Kind.beginsStatement, afterWord?])
    simpa [Link.stream, Link.stream', hf, h] using both
  · obtain ⟨hf, hb⟩ := front_cons hk tokens
    rw [hb] at h
    have unbroken := unbroken_takeWhile tokens
    have whole : tokens = link.stream (tokens.takeWhile (!·.kind.isBoundary)) := by
      rw [Link.stream, h, List.takeWhile_append_dropWhile]
    rw [hf]
    conv =>
      arg 2
      rw [whole]
    by_cases hw : token.kind.beginsStatement = true
    · exact turn_word hw unbroken
    · have inside : Unbroken (token :: tokens.takeWhile (!·.kind.isBoundary)) :=
        unbroken_cons.2 ⟨by simpa [Kind.isBoundary, hk] using hw, unbroken⟩
      exact turn_plain inside (by simp)

/-- A stream, and its piece up to a boundary alone. Reports keep their causes, errors stay errors. -/
def Link.alone (endLine endLine' : Nat) (ahead : List Token) (h : AtBoundary ahead) : Link where
  move := id
  endLine := endLine
  endLine' := endLine'
  ahead := ahead
  ahead' := closer ahead
  report e e' := e.cause.isFatal = false ∧ e'.cause = e.cause
  fatal e e' := e.cause.isFatal = true ∧ e'.cause.isFatal = true
  at_boundary := h
  at_boundary' := by
    cases ahead with
    | nil => simp [closer, AtBoundary]
    | cons token rest => by_cases hk : token.kind = .semicolon <;> simp [closer, hk, AtBoundary, Kind.isBoundary]
  closing := by
    cases ahead with
    | nil => rfl
    | cons token rest => by_cases hk : token.kind = .semicolon <;> simp [closer, hk]
  report_inside _ _ hc := ⟨hc, rfl⟩
  report_ahead _ hc := ⟨hc, rfl⟩
  fatal_inside _ _ hc := ⟨hc, hc⟩
  fatal_ahead _ hc := ⟨hc, hc⟩
  misfit_ahead expected := by
    cases ahead with
    | nil => exact ⟨rfl, rfl⟩
    | cons token rest => by_cases hk : token.kind = .semicolon <;> simp [closer, hk, misfit, SyntaxError.Cause.isFatal]

/-- A stream that ends at a boundary token, and one that goes on behind it: nothing else is different. -/
def Link.continued (endLine endLine' : Nat) (token : Token) (rest more : List Token)
    (h : token.kind.isBoundary = true) : Link where
  move := id
  endLine := endLine
  endLine' := endLine'
  ahead := token :: rest
  ahead' := token :: rest ++ more
  report := Eq
  fatal := Eq
  at_boundary := by simpa [AtBoundary] using h
  at_boundary' := by simpa [AtBoundary] using h
  closing := rfl
  report_inside _ _ _ := rfl
  report_ahead _ _ := rfl
  fatal_inside _ _ _ := rfl
  fatal_ahead _ _ := rfl
  misfit_ahead _ := rfl

/-- A turn ends where its first piece does. -/
theorem rest_turn (endLine : Nat) (token : Token) (tokens : List Token) :
    (turn endLine (token :: tokens)).2.2 = resume (behind (token :: tokens)) :=
  (turn_linked (Link.alone endLine endLine _ (atBoundary_behind (token :: tokens))) token tokens rfl).rest.1

/-- The next turn starts with what this one has left. -/
theorem turn_suffix (endLine : Nat) (token : Token) (tokens : List Token) :
    (turn endLine (token :: tokens)).2.2 <:+ token :: tokens := by
  rw [rest_turn]
  exact (resume_suffix _).trans ⟨_, front_append_behind (token :: tokens)⟩

/-! ## Pieces are read one by one -/

/-- What the turn over a piece contributes: a statement and no fatal error, or no statement and one fatal
error. The statement, and the causes of the other errors, are those of the piece read alone. -/
structure Settles (piece : List Token) (contribution : Option Statement × List SyntaxError) : Prop where
  outcome : (∃ s, contribution.1 = some s ∧ ∀ e ∈ contribution.2, e.cause.isFatal = false) ∨
    (contribution.1 = none ∧ ∃ reports e, contribution.2 = reports ++ [e] ∧ e.cause.isFatal = true ∧
      ∀ e ∈ reports, e.cause.isFatal = false)
  statement : (parse piece).statements = contribution.1.toList
  reports : ((parse piece).errors.map (·.cause)).filter (!·.isFatal) =
    (contribution.2.map (·.cause)).filter (!·.isFatal)

theorem parse_eq_declarations {tokens : List Token} (h : ∀ token ∈ tokens, token.kind ≠ .eof) :
    parse tokens = declarations (endLine tokens) tokens := by
  rw [parse, List.takeWhile_eq_self_iff.2 (by simpa using h)]

theorem endLine_of_find? {tokens : List Token} {marker : Token} (h : tokens.find? (·.kind == .eof) = some marker) :
    endLine tokens = marker.line := by
  rw [endLine, h]

theorem parse_marker {tokens : List Token} (h : ∀ token ∈ tokens, token.kind ≠ .eof) {marker : Token}
    (isEnd : marker.kind = .eof) : parse (tokens ++ [marker]) = declarations marker.line tokens := by
  have nowhere : tokens.find? (·.kind == .eof) = none := by simpa using h
  have found : (tokens ++ [marker]).find? (·.kind == .eof) = some marker := by simp [nowhere, isEnd]
  rw [parse, endLine_of_find? found, List.takeWhile_append_of_pos (by simpa using h)]
  simp [isEnd]

theorem resume_closer (tokens : List Token) : resume (closer tokens) = [] := by
  cases tokens with
  | nil => rfl
  | cons token rest => by_cases hk : token.kind = .semicolon <;> simp [closer, hk, resume, resume_semicolon]

/-- A piece with a turn that ends at its end is read by that turn alone. -/
theorem declarations_of_turn {endLine : Nat} {tokens : List Token} (hn : tokens ≠ [])
    (h : (turn endLine tokens).2.2 = []) :
    declarations endLine tokens = ⟨(turn endLine tokens).1.toList, (turn endLine tokens).2.1⟩ := by
  cases tokens with
  | nil => exact absurd rfl hn
  | cons token tokens => rw [declarations, h, declarations, List.append_nil, List.append_nil]

/-- What reports say beyond their lines is the same in corresponding turns. -/
theorem causes_alone {endLine endLine' : Nat} {ahead : List Token} {h : AtBoundary ahead}
    {reports reports' : List SyntaxError}
    (same : List.Forall₂ (Link.alone endLine endLine' ahead h).report reports reports') :
    (∀ e ∈ reports, e.cause.isFatal = false) ∧ reports'.map (·.cause) = reports.map (·.cause) := by
  induction same with
  | nil => simp
  | cons one _ ih => exact ⟨by simpa using ⟨one.1, ih.1⟩, by simp [one.2, ih.2]⟩

theorem settles_first (endLine : Nat) (token : Token) (tokens : List Token)
    (h : ∀ other ∈ token :: tokens, other.kind ≠ .eof) :
    Settles (front (token :: tokens) ++ closer (behind (token :: tokens)))
      ((turn endLine (token :: tokens)).1, (turn endLine (token :: tokens)).2.1) := by
  have cut := statementPieces_cons token tokens
  generalize hs : token :: tokens = stream at h cut ⊢
  generalize hp : front stream ++ closer (behind stream) = piece at cut ⊢
  have member : piece ∈ statementPieces stream := by simp [cut]
  have sound : ∀ other ∈ piece, other.kind ≠ .eof := by
    intro other ho
    apply h other
    rw [← List.flatten_splitBy adjoined stream]
    exact List.mem_flatten.2 ⟨piece, member, ho⟩
  -- The turn over the whole stream and that over the piece alone go the same way.
  have both := turn_linked (Link.alone endLine (SetScript.endLine piece) (behind stream) (atBoundary_behind stream))
    token tokens (by rw [hs]; rfl)
  have alone : (front stream).map (Token.mapLine id) ++ closer (behind stream) = piece := by
    rw [Token.mapLine_id, List.map_id, hp]
  simp only [Link.alone, hs, alone] at both
  generalize hx : turn endLine stream = x, hy : turn (SetScript.endLine piece) piece = y at both ⊢
  have read : parse piece = ⟨y.1.toList, y.2.1⟩ := by
    rw [parse_eq_declarations sound, declarations_of_turn (List.ne_nil_of_mem_splitBy member), hy]
    rw [hy, both.rest.2]
    exact resume_closer _
  cases both with
  | statement s same =>
    obtain ⟨quiet, causes⟩ := causes_alone same
    exact ⟨.inl ⟨s, rfl, quiet⟩, by simp [read, Statement.mapLine_id], by simp [read, causes]⟩
  | failure fatal same =>
    obtain ⟨quiet, causes⟩ := causes_alone same
    exact ⟨.inr ⟨rfl, _, _, rfl, fatal.1, quiet⟩, by simp [read], by simp [read, causes, fatal.1, fatal.2]⟩

/-- Each piece settles on its own what the turn over it contributes. -/
theorem turns_settle (endLine : Nat) {tokens : List Token} (h : ∀ token ∈ tokens, token.kind ≠ .eof) :
    List.Forall₂ Settles (statementPieces tokens) (turns endLine tokens) := by
  fun_induction turns endLine tokens with
  | case1 => exact .nil
  | case2 token tokens step ih =>
    have rest := rest_turn endLine token tokens
    rw [statementPieces_cons, ← rest]
    exact .cons (settles_first endLine token tokens h) (ih fun other ho =>
      h other ((turn_suffix endLine token tokens).subset ho))

theorem statements_eq_flatMap {pieces : List (List Token)}
    {contributions : List (Option Statement × List SyntaxError)} (h : List.Forall₂ Settles pieces contributions) :
    contributions.filterMap (·.1) = pieces.flatMap (fun piece => (parse piece).statements) := by
  induction h with
  | nil => rfl
  | @cons piece contribution pieces contributions one _ ih =>
    rw [List.filterMap_cons, List.flatMap_cons, one.statement, ← ih]
    cases contribution.1 <;> rfl

/-! ## Reading starts afresh behind a `;` -/

/-- The stream is empty or ends with a `;`. -/
def Closed (tokens : List Token) : Prop := ∀ last ∈ tokens.getLast?, last.kind = .semicolon

theorem Closed.suffix {tokens rest : List Token} (h : Closed tokens) (hs : rest <:+ tokens) : Closed rest := by
  obtain ⟨taken, rfl⟩ := hs
  intro last hl
  exact h last (List.mem_getLast?_append_of_mem_getLast? hl)

theorem behind_ne_nil {token : Token} {tokens : List Token} (h : Closed (token :: tokens)) :
    behind (token :: tokens) ≠ [] := by
  intro none
  have whole := front_append_behind (token :: tokens)
  rw [none, List.append_nil] at whole
  by_cases hk : token.kind = .semicolon
  · simp [front_semicolon hk] at none
  · rw [(front_cons hk tokens).1, List.cons.injEq] at whole
    have unbroken := unbroken_takeWhile tokens
    rw [whole.2] at unbroken
    have last := h _ (List.getLast?_eq_some_getLast (List.cons_ne_nil token tokens))
    rcases List.mem_cons.1 (List.getLast_mem (List.cons_ne_nil token tokens)) with first | later
    · exact hk (first ▸ last)
    · simpa [last, Kind.isBoundary] using unbroken _ later

/-- The first turn does not see what comes behind a last `;`. -/
theorem turn_append (endLine endLine' : Nat) {token : Token} {tokens : List Token} (more : List Token)
    (h : Closed (token :: tokens)) :
    turn endLine (token :: tokens ++ more) =
      ((turn endLine' (token :: tokens)).1, (turn endLine' (token :: tokens)).2.1,
        (turn endLine' (token :: tokens)).2.2 ++ more) := by
  obtain ⟨s, rest, hb⟩ := List.exists_cons_of_ne_nil (behind_ne_nil h)
  have boundary := (atBoundary_behind (token :: tokens)).head hb
  have both := turn_linked (Link.continued endLine' endLine s rest more boundary) token tokens hb.symm
  have ahead : resume (s :: rest ++ more) = resume (s :: rest) ++ more := by
    by_cases hk : s.kind = .semicolon
    · rw [List.cons_append, resume_semicolon hk, resume_semicolon hk]
    · have word : s.kind.beginsStatement = true := by simpa [Kind.isBoundary, hk] using boundary
      simp [resume, word]
  have whole : (front (token :: tokens)).map (Token.mapLine id) ++ (s :: rest ++ more) =
      token :: tokens ++ more := by
    rw [Token.mapLine_id, List.map_id, ← hb, ← List.append_assoc, front_append_behind]
  have equal : ∀ reports reports' : List SyntaxError, List.Forall₂ Eq reports reports' → reports = reports' :=
    fun _ _ same => (congrFun (congrFun List.forall₂_eq_eq_eq _) _).mp same
  simp only [Link.continued, whole] at both
  generalize turn endLine' (token :: tokens) = x, turn endLine (token :: tokens ++ more) = y at both ⊢
  cases both with
  | statement _ same => simp only [Statement.mapLine_id, id, equal _ _ same, ahead]
  | failure fatal same => simp only [equal _ _ same, ahead, show _ = _ from fatal]

/-- What comes behind a last `;` has no part in how the tokens up to it are read. -/
theorem declarations_append (endLine endLine' : Nat) {tokens : List Token} (more : List Token)
    (h : Closed tokens) :
    declarations endLine (tokens ++ more) =
      ⟨(declarations endLine' tokens).statements ++ (declarations endLine more).statements,
        (declarations endLine' tokens).errors ++ (declarations endLine more).errors⟩ := by
  fun_induction declarations endLine' tokens with
  | case1 => rfl
  | case2 token tokens step others ih =>
    have first := turn_append endLine endLine' more h
    rw [List.cons_append] at first ⊢
    rw [declarations, first, ih (h.suffix (turn_suffix endLine' token tokens))]
    simp [others, step]

theorem endLine_append {tokens more : List Token} (hn : more ≠ [])
    (h : ∀ token ∈ tokens, token.kind ≠ .eof) : endLine (tokens ++ more) = endLine more := by
  have nowhere : tokens.find? (·.kind == .eof) = none := by simpa using h
  unfold endLine
  rw [List.find?_append, nowhere, Option.none_or, List.getLast?_append_of_ne_nil tokens hn]

/-- The end of the stream only matters to tokens that are not closed. -/
theorem parse_closed_append {tokens : List Token} (h : ∀ token ∈ tokens, token.kind ≠ .eof) (hc : Closed tokens)
    (more : List Token) :
    parse (tokens ++ more) = ⟨(parse tokens).statements ++ (parse more).statements,
      (parse tokens).errors ++ (parse more).errors⟩ := by
  rw [parse_eq_declarations h, parse, parse, List.takeWhile_append_of_pos (by simpa using h),
    declarations_append _ (endLine tokens) _ hc]
  cases more with
  | nil => simp [declarations]
  | cons token more => rw [endLine_append (List.cons_ne_nil token more) h]

theorem parse_append {tokens more : List Token} (h : ∀ token ∈ tokens ++ more, token.kind ≠ .eof)
    (hc : Closed tokens) :
    parse (tokens ++ more) = ⟨(parse tokens).statements ++ (parse more).statements,
      (parse tokens).errors ++ (parse more).errors⟩ :=
  parse_closed_append (fun token ht => h token (List.mem_append_left more ht)) hc more

/-! ## Main theorem -/

/-- Reading works piece by piece. Each piece gives a statement or one fatal error, the statement is that of
the piece alone, and behind a `;` everything is as if nothing had come before. -/
theorem parse_statementPieces (tokens : List Token) (h : ∀ token ∈ tokens, token.kind ≠ .eof) :
    (∃ contributions : List (Option Statement × List SyntaxError),
      List.Forall₂ Settles (statementPieces tokens) contributions ∧
      (parse tokens).statements = contributions.filterMap (·.1) ∧
      (parse tokens).errors = contributions.flatMap (·.2)) ∧
    (parse tokens).statements = (statementPieces tokens).flatMap (fun piece => (parse piece).statements) ∧
    ∀ before after, tokens = before ++ after → (before.getLast?.map (·.kind)) = some .semicolon →
      (parse tokens).statements = (parse before).statements ++ (parse after).statements ∧
      (parse tokens).errors = (parse before).errors ++ (parse after).errors := by
  have settled := turns_settle (endLine tokens) h
  have read : parse tokens = _ := (parse_eq_declarations h).trans (declarations_eq_turns _ tokens)
  refine ⟨⟨_, settled, by rw [read], by rw [read]⟩, ?_, ?_⟩
  · rw [read, ← statements_eq_flatMap settled]
  · rintro before after rfl hl
    have closed : Closed before := by
      intro last hm
      simpa [show before.getLast? = some last from hm] using hl
    rw [parse_append h closed]
    exact ⟨rfl, rfl⟩

/-- The tokens of `let let x = 1; 1 = 2; print`, each on a line of its own. -/
def brokenTokens : List Token :=
  [⟨.letWord, "let", none, 1⟩, ⟨.letWord, "let", none, 2⟩, ⟨.identifier, "x", none, 3⟩, ⟨.equal, "=", none, 4⟩,
    ⟨.number, "1", some (.number 1), 5⟩, ⟨.semicolon, ";", none, 6⟩, ⟨.number, "1", some (.number 1), 7⟩,
    ⟨.equal, "=", none, 8⟩, ⟨.number, "2", some (.number 2), 9⟩, ⟨.semicolon, ";", none, 10⟩,
    ⟨.printWord, "print", none, 11⟩]

theorem parse_statementPieces_broken :
    (∀ token ∈ brokenTokens, token.kind ≠ .eof) ∧
      ((brokenTokens.take 6).getLast?.map (·.kind)) = some .semicolon ∧
      (parse brokenTokens).statements = (statementPieces brokenTokens).flatMap (fun piece => (parse piece).statements) ∧
      (parse brokenTokens).errors = (parse (brokenTokens.take 6)).errors ++ (parse (brokenTokens.drop 6)).errors := by
  have eofFree : ∀ token ∈ brokenTokens, token.kind ≠ .eof := by decide
  obtain ⟨-, alone, behind⟩ := parse_statementPieces brokenTokens eofFree
  exact ⟨eofFree, rfl, alone, (behind _ _ (List.take_append_drop 6 brokenTokens).symm rfl).2⟩

end SetScript
