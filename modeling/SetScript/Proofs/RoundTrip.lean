import SetScript.Proofs.Grammar.Written
import SetScript.Proofs.Session
/-!
# A program is read back from its text

What is read from a source, with errors or without, is read again from its written form (`parseSource_programText`).
The derivations of the statements, as they are written, are in the grammar, and the text is written in their tokens.
-/

namespace SetScript

open Grammar

/-! ## The text of a program -/

theorem written_programText {ds : List (Derivation .declaration)} (h : ∀ d ∈ ds, ∀ token ∈ d.tokens, token.Legible) :
    Written (fun _ => true) (programText (ds.map Derivation.tree)) (ds.flatMap fun d => d.printed.tokens) := by
  induction ds with
  | nil => exact written_empty
  | cons d ds ih =>
    rw [List.forall_mem_cons] at h
    have first : Written (fun _ => true) d.tree.text d.printed.tokens := d.written_printed h.1
    cases ds with
    | nil =>
      rw [List.flatMap_cons, List.flatMap_nil, List.append_nil]
      exact first
    | cons next others =>
      have spaced := (first.append_space (q := fun _ => true) rfl).append_open (ih h.2) fun _ => rfl
      rw [List.flatMap_cons]
      rw [programText, List.map_cons, List.map_cons, List.map_cons, List.map_cons, String.intercalate_cons_cons]
      exact spaced

/-! ## One line -/

theorem line_of_mem_numbered {line l : Nat} {ps : List Piece} {piece : Piece} (h : ∀ p ∈ ps, p.lineBreaks = 0)
    (hm : (l, piece) ∈ numbered line ps) : l = line := by
  induction ps with
  | nil => cases hm
  | cons p ps ih =>
    rw [List.forall_mem_cons] at h
    rw [numbered, h.1, Nat.add_zero] at hm
    rcases List.mem_cons.mp hm with hm | hm
    · exact (Prod.mk.inj hm).1
    · exact ih h.2 hm

theorem text_subset_of_mem_pieces {cs : List Char} {piece : Piece} (h : piece ∈ pieces cs) : piece.text ⊆ cs := by
  intro c hc
  rw [← flatMap_text_pieces cs]
  exact List.mem_flatMap.mpr ⟨piece, h, hc⟩

/-- In a text of one line every token stands on line 1. -/
theorem line_of_mem_textTokens {cs : List Char} (h : '\n' ∉ cs) {token : Token} (hm : token ∈ textTokens cs) :
    token.line = 1 := by
  obtain ⟨entry, he, ht⟩ := List.mem_filterMap.mp hm
  obtain ⟨⟨line, piece⟩, hp, rfl⟩ := List.mem_map.mp he
  have line_eq := line_of_mem_numbered (fun p hp => List.count_eq_zero.mpr fun hn =>
    h (text_subset_of_mem_pieces hp hn)) hp
  simp only [Located.token?] at ht
  split at ht <;> cases ht
  exact line_eq

theorem map_mapLine_of_line {tokens : List Token} (h : ∀ token ∈ tokens, token.line = 1) :
    tokens.map (Token.mapLine fun _ => 1) = tokens := by
  conv => rhs; rw [← List.map_id tokens]
  refine List.map_congr_left fun token ht => ?_
  have line := h token ht
  obtain ⟨kind, lexeme, literal?, _⟩ := token
  subst line
  rfl

theorem mapLine_parseSource {source : String} (h : '\n' ∉ source.toList) :
    (parseSource source).statements.map (Statement.mapLine fun _ => 1) = (parseSource source).statements := by
  have same := declarations_mapLine (fun _ => 1) (1 + source.toList.count '\n') (textTokens source.toList)
  rw [map_mapLine_of_line fun _ => line_of_mem_textTokens h, List.count_eq_zero.mpr h, Nat.add_zero] at same
  rw [parseSource_eq, List.count_eq_zero.mpr h]
  exact (congrArg Program.statements same).symm

/-! ## The round trip -/

section

variable {ds : List (Derivation .declaration)}

/-- The text of a program is read in the derivations that it is written in. -/
theorem mapLine_parseSource_programText (h : ∀ d ∈ ds, ∀ token ∈ d.tokens, token.Legible)
    (within : ∀ d ∈ ds, Within 100 d) :
    (parseSource (programText (ds.map Derivation.tree))).mapLine (fun _ => 1) =
      ⟨ds.map (·.printed.tree), ds.flatMap (·.printed.reports)⟩ := by
  have written := written_programText h
  generalize programText (ds.map Derivation.tree) = text at written ⊢
  have tokens := written.tokens_eq [] fun _ hc => nomatch hc
  have errors := written.errors_eq [] fun _ hc => nomatch hc
  rw [List.append_nil, ← map_mapLine_textTokens] at tokens
  rw [List.append_nil, ← map_mapLine_textErrors] at errors
  have quiet : textErrors text.toList = [] := List.map_eq_nil_iff.mp (errors.trans (by simp [flatErrors, pieces]))
  have read := declarations_mapLine (fun _ => 1) (1 + text.toList.count '\n') (textTokens text.toList)
  have within' : ∀ d ∈ ds.map Derivation.printed, Within 100 d := by
    intro d hm
    obtain ⟨original, ho, rfl⟩ := List.mem_map.mp hm
    exact Nat.le_trans original.depth_printed_le (within original ho)
  have whole := declarations_flatMap within' 1
  rw [tokens, show flatTokens [] = [] by simp [flatTokens, pieces], List.append_nil] at read
  rw [List.flatMap_map, List.flatMap_map, List.map_map] at whole
  rw [parseSource_eq, quiet]
  exact read.symm.trans whole

theorem map_tree_printed (h : ∀ d ∈ ds, ∀ token ∈ d.tokens, token.Legible) :
    ds.map (·.printed.tree) = (ds.map Derivation.tree).map (Statement.mapLine fun _ => 1) := by
  rw [List.map_map]
  exact List.map_congr_left fun d hd => d.moved_printed (h d hd)

theorem causes_reports_printed (h : ∀ d ∈ ds, ∀ token ∈ d.tokens, token.Legible) :
    (ds.flatMap (·.printed.reports)).map (·.cause) =
      List.replicate ((ds.map Derivation.tree).map Statement.overlong).sum (.tooManyArguments 255) := by
  rw [List.eq_replicate_iff]
  constructor
  · rw [List.length_map, List.length_flatMap, List.map_map]
    congr 1
    exact List.map_congr_left fun d hd => (d.counts_reports_printed (h d hd)).symm
  · intro cause hc
    obtain ⟨report, hr, rfl⟩ := List.mem_map.mp hc
    obtain ⟨d, hd, hr⟩ := List.mem_flatMap.mp hr
    exact d.cause_of_mem_reports_printed (h d hd) report hr

/-- What was read from one line is written on one line. -/
theorem newline_not_mem_programText (h : ∀ d ∈ ds, ∀ token ∈ d.tokens, token.Legible)
    (flat : ∀ d ∈ ds, ∀ token ∈ d.tokens, '\n' ∉ token.lexeme.toList) :
    '\n' ∉ (programText (ds.map Derivation.tree)).toList := by
  intro hn
  obtain ⟨token, ht, hl⟩ := (written_programText h).newline hn
  obtain ⟨d, hd, ht⟩ := List.mem_flatMap.mp ht
  obtain ⟨original, ho, rfl⟩ := List.mem_map.mp (d.tokens_printed_sublist.subset ht)
  exact (h d hd original ho).newline_not_mem_printed (flat d hd original ho) hl

end

theorem newline_not_mem_of_mem_textTokens {cs : List Char} (h : '\n' ∉ cs) {token : Token}
    (hm : token ∈ textTokens cs) : '\n' ∉ token.lexeme.toList := by
  obtain ⟨piece, hp, -, hl⟩ := exists_piece_of_token hm
  rw [hl, String.toList_ofList]
  exact fun hn => h (text_subset_of_mem_pieces hp hn)

/-- What is read from the written form of what is read from a source. -/
def reread (source : String) : Program := parseSource (programText (parseSource source).statements)

/-- What is read from a source is read again from its text: the same trees with tokens of the same kinds, lexemes and
literals, and only their lines may be others. Over-long lists are all that is reported then, and the text stays the
same. From a source on one line the trees are read again with their lines. -/
theorem parseSource_programText (source : String) :
    (reread source).statements.map (Statement.mapLine fun _ => 1) =
        (parseSource source).statements.map (Statement.mapLine fun _ => 1) ∧
      (reread source).errors.map (·.cause) =
        List.replicate ((parseSource source).statements.map Statement.overlong).sum (.tooManyArguments 255) ∧
      programText (reread source).statements = programText (parseSource source).statements ∧
      ('\n' ∉ source.toList → (reread source).statements = (parseSource source).statements) := by
  obtain ⟨ds, within, inside, trees⟩ :=
    derivations_of_statements (1 + source.toList.count '\n') (textTokens source.toList)
  have legible : ∀ d ∈ ds, ∀ token ∈ d.tokens, token.Legible :=
    fun d hd token ht => legible_of_mem_textTokens (inside d hd ht)
  have read : (parseSource source).statements = ds.map Derivation.tree := by rw [parseSource_eq, trees]
  have round := mapLine_parseSource_programText legible within
  rw [map_tree_printed legible, ← read] at round
  have statements : (reread source).statements.map (Statement.mapLine fun _ => 1) =
      (parseSource source).statements.map (Statement.mapLine fun _ => 1) := congrArg Program.statements round
  have errors : (reread source).errors.map (SyntaxError.mapLine fun _ => 1) = ds.flatMap (·.printed.reports) :=
    congrArg Program.errors round
  refine ⟨statements, ?_, ?_, fun flat => ?_⟩
  · rw [read, ← causes_reports_printed legible, ← errors, List.map_map]
    rfl
  · rw [← programText_mapLine fun _ => 1, statements, programText_mapLine]
  · have textFlat : '\n' ∉ (programText (parseSource source).statements).toList := by
      rw [read]
      exact newline_not_mem_programText legible fun d hd token ht =>
        newline_not_mem_of_mem_textTokens flat (inside d hd ht)
    -- Both texts stand on line 1, so moving everything there changes nothing.
    rw [mapLine_parseSource flat, reread, mapLine_parseSource textFlat] at statements
    exact statements

/-- An assignment to no variable, and a number with more digits than it is written with. -/
def droppedSource : String := "true = x; \x7b-!x | x in y, 007.50 < f(x)\x7d;"

theorem parseSource_programText_dropped :
    '\n' ∉ droppedSource.toList ∧
      (parseSource droppedSource).errors.map (·.cause) = [.invalidAssignmentTarget] ∧
      programText (parseSource droppedSource).statements = "true; \x7b-!x | x in y, 7.5 < f(x)\x7d;" ∧
      (parseSource "true; \x7b-!x | x in y, 7.5 < f(x)\x7d;").statements = (parseSource droppedSource).statements := by
  have flat : '\n' ∉ droppedSource.toList := by decide +kernel
  have written : programText (parseSource droppedSource).statements = "true; \x7b-!x | x in y, 7.5 < f(x)\x7d;" := by
    decide +kernel
  obtain ⟨-, -, -, same⟩ := parseSource_programText droppedSource
  refine ⟨flat, by decide +kernel, written, ?_⟩
  rw [← written]
  exact same flat

end SetScript
