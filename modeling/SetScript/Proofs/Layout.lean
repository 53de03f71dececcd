import SetScript.Proofs.Session
/-!
# Layout does not matter

Two texts with the same tokens and the same errors, on whatever lines, are the same program (`run_layout`): lines are
carried along and decide nothing. What is told of the one text is told of the other, on the lines of tokens with the
same number. That numbers are enough to find these lines is seen from a stream in which each token stands on the line
of its number.
-/

namespace SetScript

/-! ## Lines are lines of tokens -/

/-- Leaves the given lines where they are, and no other. -/
def moveOthers (lines : List Nat) (line : Nat) : Nat := if line ∈ lines then line else line + 1

theorem moveOthers_eq_self_iff {lines : List Nat} {line : Nat} : moveOthers lines line = line ↔ line ∈ lines := by
  unfold moveOthers
  split
  · next h => simp [h]
  · next h => simp [h]

section

variable {tokens : List Token}

theorem map_moveOthers (tokens : List Token) :
    tokens.map (Token.mapLine (moveOthers (tokens.map (·.line)))) = tokens := by
  conv => rhs; rw [← List.map_id tokens]
  refine List.map_congr_left fun token ht => ?_
  have inside : token.line ∈ tokens.map (·.line) := List.mem_map.mpr ⟨token, ht, rfl⟩
  have kept := moveOthers_eq_self_iff.mpr inside
  simp only [Token.mapLine, kept, id]

/-- Moving all lines but those of its tokens does nothing to what is read from a stream. -/
theorem parse_moveOthers (hn : tokens ≠ []) :
    (parse tokens).mapLine (moveOthers (tokens.map (·.line))) = parse tokens := by
  rw [← parse_mapLine _ hn, map_moveOthers]

theorem line_mem_of_error (hn : tokens ≠ []) {e : SyntaxError} (he : e ∈ (parse tokens).errors) :
    e.line ∈ tokens.map (·.line) := by
  have same : (parse tokens).errors.map (SyntaxError.mapLine (moveOthers (tokens.map (·.line)))) =
      (parse tokens).errors.map id := by
    rw [List.map_id]
    exact congrArg Program.errors (parse_moveOthers hn)
  have kept := List.map_inj_left.mp same e he
  exact moveOthers_eq_self_iff.mp (congrArg SyntaxError.line kept)

theorem line_mem_of_fault (hn : tokens ≠ []) {env : Environment} {fault : Fault}
    (h : (executeAll env (parse tokens).statements).fault? = some fault) : fault.line ∈ tokens.map (·.line) := by
  have same := executeAll_mapLine (moveOthers (tokens.map (·.line))) env (parse tokens).statements
  rw [show (parse tokens).statements.map _ = (parse tokens).statements from
    congrArg Program.statements (parse_moveOthers hn)] at same
  have kept := congrArg Execution.fault? same
  rw [h, Option.map_some, Option.some.injEq] at kept
  exact moveOthers_eq_self_iff.mp (congrArg Fault.line kept).symm

end

/-! ## Two streams -/

/-- What a token is, apart from its line. -/
def Token.content (token : Token) : Kind × String × Option Literal := (token.kind, token.lexeme, token.literal?)

/-- The tokens of a stream, each on the line of its number. -/
def byNumber (tokens : List Token) : List Token :=
  (tokens.map Token.content).mapIdx fun i (kind, lexeme, literal?) => ⟨kind, lexeme, literal?, i⟩

/-- The line of the token with a number. -/
def lineAt (tokens : List Token) (i : Nat) : Nat := (tokens[i]?.map (·.line)).getD 0

theorem map_lineAt_byNumber (tokens : List Token) :
    (byNumber tokens).map (Token.mapLine (lineAt tokens)) = tokens := by
  refine List.ext_getElem (by simp [byNumber]) fun i hi hi' => ?_
  simp [byNumber, Token.content, Token.mapLine, lineAt, hi']

theorem line_lt_of_mem_byNumber {tokens : List Token} {line : Nat} (h : line ∈ (byNumber tokens).map (·.line)) :
    line < tokens.length := by
  obtain ⟨token, ht, rfl⟩ := List.mem_map.mp h
  obtain ⟨i, hi, rfl⟩ := List.mem_iff_getElem.mp ht
  simpa [byNumber] using hi

section

variable {tokens tokens' : List Token}

theorem mem_zip_lineAt (h : tokens.length = tokens'.length) {i : Nat} (hi : i < tokens.length) :
    ∃ token token', (token, token') ∈ tokens.zip tokens' ∧ lineAt tokens i = token.line ∧
      lineAt tokens' i = token'.line := by
  have hi' : i < tokens'.length := h ▸ hi
  refine ⟨tokens[i], tokens'[i], ?_, by simp [lineAt, hi], by simp [lineAt, hi']⟩
  have both : i < (tokens.zip tokens').length := by
    rw [List.length_zip]
    exact Nat.lt_min.mpr ⟨hi, hi'⟩
  rw [← List.getElem_zip (h := both)]
  exact List.getElem_mem both

/-- Streams with the same contents are the same program on two sets of lines. -/
theorem exists_parse_eq_mapLine (hn : tokens ≠ []) (h : tokens.map Token.content = tokens'.map Token.content) :
    ∃ numbered : List Token, numbered ≠ [] ∧
      parse tokens = (parse numbered).mapLine (lineAt tokens) ∧
      parse tokens' = (parse numbered).mapLine (lineAt tokens') ∧
      ∀ line ∈ numbered.map (·.line), line < tokens.length := by
  have same : byNumber tokens = byNumber tokens' := by rw [byNumber, byNumber, h]
  have some : byNumber tokens ≠ [] := by
    intro none
    exact hn (by rw [← map_lineAt_byNumber tokens, none, List.map_nil])
  refine ⟨byNumber tokens, some, ?_, ?_, fun line => line_lt_of_mem_byNumber⟩
  · rw [← parse_mapLine _ some, map_lineAt_byNumber]
  · rw [← parse_mapLine _ some, same, map_lineAt_byNumber]

end

/-! ## Two texts -/

/-- Two texts with the same tokens and the same errors, up to lines. -/
structure SameButLayout (source source' : String) : Prop where
  tokens : (scan source).tokens.map Token.content = (scan source').tokens.map Token.content
  errors : (scan source).errors.map (·.cause) = (scan source').errors.map (·.cause)

/-- What is told of one text and of the other: the same on the lines of two tokens with the same number, or of two
errors of scanning with the same number. -/
structure Diagnostic.Counterpart (scanned scanned' : Scanned) (told told' : Diagnostic) : Prop where
  phase : told.phase = told'.phase
  message : told.message = told'.message
  lines :
    (∃ token token', (token, token') ∈ scanned.tokens.zip scanned'.tokens ∧ told.line = token.line ∧
        told'.line = token'.line) ∨
      ∃ e e', (e, e') ∈ scanned.errors.zip scanned'.errors ∧ told = e.diagnostic ∧ told' = e'.diagnostic

namespace SameButLayout

variable {source source' : String}

theorem length_eq (h : SameButLayout source source') :
    (scan source).tokens.length = (scan source').tokens.length := by
  simpa using congrArg List.length h.tokens

/-- The errors of scanning are told alike. -/
theorem scan_counterparts (h : SameButLayout source source') :
    List.Forall₂ (Diagnostic.Counterpart (scan source) (scan source'))
      ((scan source).errors.map SyntaxError.diagnostic) ((scan source').errors.map SyntaxError.diagnostic) := by
  have length : (scan source).errors.length = (scan source').errors.length := by
    simpa using congrArg List.length h.errors
  rw [List.forall₂_map_left_iff, List.forall₂_map_right_iff, List.forall₂_iff_zip]
  refine ⟨length, fun {e e'} hm => ⟨rfl, ?_, .inr ⟨e, e', hm, rfl, rfl⟩⟩⟩
  obtain ⟨i, hi, both⟩ := List.mem_iff_getElem.mp hm
  rw [List.getElem_zip, Prod.mk.injEq] at both
  obtain ⟨rfl, rfl⟩ := both
  have cause := congrArg (·[i]?) h.errors
  rw [List.length_zip] at hi
  have hi' := Nat.lt_min.mp hi
  simp only [List.getElem?_map, List.getElem?_eq_getElem hi'.1, List.getElem?_eq_getElem hi'.2, Option.map_some,
    Option.some.injEq] at cause
  exact congrArg SyntaxError.Cause.message cause

/-- One thing told of the two texts, on the lines of the tokens with one number. -/
theorem counterpart (h : SameButLayout source source') (phase : Phase) (message : String) {i : Nat}
    (hi : i < (scan source).tokens.length) :
    Diagnostic.Counterpart (scan source) (scan source') ⟨phase, lineAt (scan source).tokens i, message⟩
      ⟨phase, lineAt (scan source').tokens i, message⟩ where
  phase := rfl
  message := rfl
  lines := .inl (mem_zip_lineAt h.length_eq hi)

theorem scan_ne_nil (source : String) : (scan source).tokens ≠ [] := by simp [scan]

/-- Both texts are one program, which is read from a stream of as many tokens, on two sets of lines. -/
theorem exists_numbered (h : SameButLayout source source') :
    ∃ numbered : List Token, numbered ≠ [] ∧
      parse (scan source).tokens = (parse numbered).mapLine (lineAt (scan source).tokens) ∧
      parse (scan source').tokens = (parse numbered).mapLine (lineAt (scan source').tokens) ∧
      ∀ line ∈ numbered.map (·.line), line < (scan source).tokens.length :=
  exists_parse_eq_mapLine (scan_ne_nil source) h.tokens

theorem parseSource_counterparts (h : SameButLayout source source') :
    List.Forall₂ (Diagnostic.Counterpart (scan source) (scan source'))
      ((parseSource source).errors.map SyntaxError.diagnostic)
      ((parseSource source').errors.map SyntaxError.diagnostic) := by
  obtain ⟨numbered, some, read, read', within⟩ := h.exists_numbered
  simp only [parseSource, read, read', List.map_append]
  refine List.rel_append h.scan_counterparts ?_
  simp only [Program.mapLine, List.forall₂_map_left_iff, List.forall₂_map_right_iff, List.forall₂_same]
  exact fun e he => h.counterpart .reading e.cause.message (within e.line (line_mem_of_error some he))

theorem errors_eq_nil (h : SameButLayout source source') (accepted : (parseSource source).errors = []) :
    (parseSource source').errors = [] := by
  have both := h.parseSource_counterparts
  rw [accepted, List.map_nil, List.forall₂_nil_left_iff] at both
  exact List.map_eq_nil_iff.mp both

theorem statements_eq (h : SameButLayout source source') :
    (parseSource source).statements.map (Statement.mapLine fun _ => 1) =
      (parseSource source').statements.map (Statement.mapLine fun _ => 1) := by
  have flat : ∀ tokens : List Token, tokens.map (Token.mapLine fun _ => 1) =
      (tokens.map Token.content).map fun (kind, lexeme, literal?) => ⟨kind, lexeme, literal?, 1⟩ := by
    intro tokens
    rw [List.map_map]
    rfl
  have same := congrArg Program.statements (parse_mapLine (fun _ => 1) (scan_ne_nil source))
  have same' := congrArg Program.statements (parse_mapLine (fun _ => 1) (scan_ne_nil source'))
  rw [flat, h.tokens, ← flat] at same
  exact same.symm.trans same'

/-- Accepted texts are executed alike: a fault stops both, on the lines of tokens with one number, or neither. -/
theorem executeAll_counterparts (h : SameButLayout source source') (env : Environment) :
    let execution := executeAll env (parseSource source).statements
    let execution' := executeAll env (parseSource source').statements
    execution.output = execution'.output ∧ execution.environment = execution'.environment ∧
      execution.fault?.isSome = execution'.fault?.isSome ∧
      List.Forall₂ (Diagnostic.Counterpart (scan source) (scan source'))
        (execution.fault?.map Fault.diagnostic).toList (execution'.fault?.map Fault.diagnostic).toList := by
  obtain ⟨numbered, some, read, read', within⟩ := h.exists_numbered
  simp only [parseSource, read, read', Program.mapLine, executeAll_mapLine, Option.isSome_map, true_and]
  cases hf : (executeAll env (parse numbered).statements).fault? with
  | none => exact .nil
  | some fault =>
    exact .cons (h.counterpart .running fault.cause.message (within _ (line_mem_of_fault some hf))) .nil

end SameButLayout

/-- Two texts that differ in layout alone are read as the same statements up to lines, and run alike: they end alike,
print the same, leave the same environment, and the same is told of them, on the lines of tokens with the same number
or of errors of scanning with the same number. -/
theorem run_layout (env : Environment) {source source' : String} (h : SameButLayout source source') :
    (parseSource source).statements.map (Statement.mapLine fun _ => 1) =
        (parseSource source').statements.map (Statement.mapLine fun _ => 1) ∧
      List.Forall₂ (Diagnostic.Counterpart (scan source) (scan source'))
        ((parseSource source).errors.map SyntaxError.diagnostic)
        ((parseSource source').errors.map SyntaxError.diagnostic) ∧
      (run env source).status = (run env source').status ∧
      (run env source).output = (run env source').output ∧
      (run env source).environment = (run env source').environment ∧
      List.Forall₂ (Diagnostic.Counterpart (scan source) (scan source')) (run env source).diagnostics
        (run env source').diagnostics := by
  have told := h.parseSource_counterparts
  refine ⟨h.statements_eq, told, ?_⟩
  by_cases accepted : (parseSource source).errors = []
  · obtain ⟨output, environment, stopped, faults⟩ := h.executeAll_counterparts env
    rw [run_accepted accepted, run_accepted (h.errors_eq_nil accepted)]
    exact ⟨by simp only [stopped], output, environment, faults⟩
  · have accepted' : (parseSource source').errors ≠ [] := by
      intro none
      rw [none, List.map_nil, List.forall₂_nil_right_iff, List.map_eq_nil_iff] at told
      exact accepted told
    rw [run_rejected accepted, run_rejected accepted']
    exact ⟨rfl, rfl, rfl, told⟩

/-- A program on one line, which a fault stops behind its first statement. -/
def stoppedProgram : String := "print 2 in \x7b2\x7d; let x = |true| + 1;"

/-- The same program on more lines and with a comment. -/
def stoppedLayout : String := "print 2 in // the only one\n\x7b 2\x7d;let x =\n\n  |true|+1;\n"

theorem run_layout_stopped :
    SameButLayout stoppedProgram stoppedLayout ∧
      (run .initial stoppedProgram).output = ["true"] ∧ (run .initial stoppedLayout).output = ["true"] ∧
      ∃ told told', (run .initial stoppedProgram).diagnostics = [told] ∧
        (run .initial stoppedLayout).diagnostics = [told'] ∧ told.line = 1 ∧ told'.line = 4 ∧
        Diagnostic.Counterpart (scan stoppedProgram) (scan stoppedLayout) told told' := by
  have same : SameButLayout stoppedProgram stoppedLayout := ⟨by decide +kernel, by decide +kernel⟩
  obtain ⟨-, -, -, output, -, told⟩ := run_layout .initial same
  have printed : (run .initial stoppedProgram).output = ["true"] := by decide +kernel
  have first : (run .initial stoppedProgram).diagnostics =
      [⟨.running, 1, "Operand must be a set for cardinality."⟩] := by decide +kernel
  have second : (run .initial stoppedLayout).diagnostics =
      [⟨.running, 4, "Operand must be a set for cardinality."⟩] := by decide +kernel
  refine ⟨same, printed, output ▸ printed, _, _, first, second, rfl, rfl, ?_⟩
  rw [first, second, List.forall₂_cons] at told
  exact told.1

end SetScript
