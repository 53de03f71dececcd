import SetScript.Proofs.Scan.Front
/-!
# Tokens as they stand in a text

A token that is read from a text is `Legible`: it is what the longest class takes at its place. So a sign or a word
has its one spelling, a string has its quotes and a number is finite and has no sign. Written by itself such a token
is taken again as a whole, whatever stands behind it, unless that begins with a character that joins it
(`Token.Legible.longest_printed`). Only a number can be written in another way, and it is read as the same number.
-/

namespace SetScript

/-- The token can stand in a text: there the longest class takes it, and it is read from what is taken. -/
structure Token.Legible (token : Token) : Prop where
  nonempty : token.lexeme.toList ≠ []
  taken : ∃ behind, longest (token.lexeme.toList ++ behind) = (some (.token token.kind), token.lexeme.toList.length)
  read : (Piece.mk (some (.token token.kind)) token.lexeme.toList).reading = .token token.kind token.literal?

theorem longest_of_mem_pieces {cs : List Char} {piece : Piece} (h : piece ∈ pieces cs) {cls : Class}
    (hc : piece.cls? = some cls) :
    piece.text ≠ [] ∧ ∃ behind, longest (piece.text ++ behind) = (piece.cls?, piece.text.length) := by
  fun_induction pieces cs with
  | case1 => cases h
  | case2 c cs best ih =>
    rcases List.mem_cons.mp h with rfl | h
    · refine ⟨List.cons_ne_nil _ _, cs.drop (best.2 - 1), ?_⟩
      have fits : best.2 ≤ (c :: cs).length := longest_le (c :: cs)
      have some_taken : 0 < best.2 := by
        rcases longest_cases (c :: cs) with hl | ⟨cls', -, hp, hl⟩ <;> rw [show best = _ from hl] at hc ⊢
        · cases hc
        · exact hp
      have length : (c :: cs.take (best.2 - 1)).length = best.2 := by
        rw [List.length_cons] at fits ⊢
        rw [List.length_take_of_le (by omega)]
        omega
      rw [List.cons_append, List.take_append_drop, length]
    · exact ih h

/-- What is read in a text is legible. -/
theorem legible_of_mem_textTokens {cs : List Char} {token : Token} (h : token ∈ textTokens cs) : token.Legible := by
  obtain ⟨piece, hp, hr, hl⟩ := exists_piece_of_token h
  have hc := Piece.cls?_of_reading hr
  obtain ⟨nonempty, behind, taken⟩ := longest_of_mem_pieces hp hc
  have text : token.lexeme.toList = piece.text := by rw [hl, String.toList_ofList]
  obtain ⟨cls?, _⟩ := piece
  subst hc
  exact ⟨by rwa [text], ⟨behind, by rwa [text]⟩, by rwa [text]⟩

/-- The token as it is written: on line 1, and a literal as its value is written. -/
def Token.printed (token : Token) : Token :=
  { token with lexeme := (token.literal?.map Literal.text).getD token.lexeme, line := 1 }

namespace Token.Legible

variable {token : Token} {rest : List Char}

theorem exists_taken (h : token.Legible) :
    ∃ behind,
      longest (token.lexeme.toList ++ behind) = (some (.token token.kind), token.lexeme.toList.length) ∧
      token.kind.reach (token.lexeme.toList ++ behind) = token.lexeme.toList.length := by
  obtain ⟨behind, hb⟩ := h.taken
  refine ⟨behind, hb, ?_⟩
  rcases longest_cases (token.lexeme.toList ++ behind) with hl | ⟨cls, -, -, hl⟩ <;> rw [hb] at hl
  · cases hl
  · obtain ⟨hc, hn⟩ := Prod.mk.inj hl
    rw [hn, ← Option.some.inj hc]
    rfl

theorem toList_lexeme (h : token.Legible) {spelling : List Char} (hs : token.kind.spelling? = some spelling) :
    token.lexeme.toList = spelling := by
  obtain ⟨behind, -, hr⟩ := h.exists_taken
  rw [Kind.reach_of_spelling hs] at hr
  split at hr
  · next hp =>
    exact (List.prefix_of_prefix_length_le (List.isPrefixOf_iff_prefix.mp hp) (List.prefix_append _ behind)
      (Nat.le_of_eq hr)).eq_of_length hr |>.symm
  · exact absurd (List.length_eq_zero_iff.mp hr.symm) h.nonempty

theorem string_literal (h : token.Legible) (hk : token.kind = .string) :
    ∃ body, body.all (· != '"') = true ∧ token.lexeme.toList = '"' :: body ++ ['"'] ∧
      token.literal? = some (.string (String.ofList body)) := by
  obtain ⟨behind, -, hr⟩ := h.exists_taken
  have read := h.read
  rw [hk] at hr read
  obtain ⟨body, hb, hl⟩ := exists_body h.nonempty hr
  refine ⟨body, hb, hl, ?_⟩
  rw [← (Reading.token.inj read).2, hl]
  simp

/-- Only finite numbers without a sign are read. -/
theorem number_literal (h : token.Legible) (hk : token.kind = .number) :
    ∃ x, Number.isFinite x = true ∧ Number.isNegative x = false ∧ token.literal? = some (.number x) := by
  have read := h.read
  rw [hk] at read
  simp only [Piece.reading, readNumber] at read
  split at read
  · next finite => exact ⟨_, finite, Number.isNegative_read _, (Reading.token.inj read).2.symm⟩
  · cases read

/-- Whatever is no number is written as it was read. -/
theorem printed_lexeme (h : token.Legible) (hn : token.kind ≠ .number) : token.printed.lexeme = token.lexeme := by
  by_cases hs : token.kind = .string
  · obtain ⟨body, -, hl, literal⟩ := h.string_literal hs
    refine String.toList_injective ?_
    simp [Token.printed, literal, Literal.text, hl]
  · have read := h.read
    have spelled := fun spelling (hs : token.kind.spelling? = some spelling) => h.toList_lexeme hs
    obtain ⟨kind, lexeme, literal?, line⟩ := token
    cases kind with
    | number | string => contradiction
    | comment | unterminatedString | newLine => cases read
    | trueWord | falseWord =>
      obtain rfl := (Reading.token.inj read).2
      exact String.toList_injective (spelled _ rfl).symm
    | _ =>
      obtain rfl := (Reading.token.inj read).2
      rfl

theorem identifier_lexeme (h : token.Legible) (hk : token.kind = .identifier) :
    ∃ x w, token.lexeme.toList = x :: w ∧ isNameStart x = true ∧
      longest (x :: w) = (some (.token .identifier), (x :: w).length) := by
  obtain ⟨behind, taken, reach⟩ := h.exists_taken
  obtain ⟨x, w, hl⟩ := List.exists_cons_of_ne_nil h.nonempty
  rw [hl, hk] at taken reach
  change identifierReach (x :: (w ++ behind)) = _ at reach
  simp only [identifierReach] at reach
  split at reach
  · next hx =>
    -- The name ended here in its own source, so what stood behind it there can be left out.
    have stops : StartsWith (fun c => !isNamePart c) behind := by
      refine startsWith_of_runLength (p := isNamePart) (a := w) ?_
      rw [List.length_cons] at reach
      omega
    refine ⟨x, w, hl, hx, ?_⟩
    rw [← longest_name_append hx stops, taken]
  · cases reach

theorem exists_spelling (h : token.Legible) (hn : token.kind ≠ .number) (hs : token.kind ≠ .string)
    (hi : token.kind ≠ .identifier) : ∃ spelling, token.kind.spelling? = some spelling := by
  have read := h.read
  obtain ⟨_, -, reach⟩ := h.exists_taken
  have nonempty := h.nonempty
  generalize token.kind = kind at hn hs hi read reach ⊢
  cases kind with
  | number | string | identifier => contradiction
  | comment | unterminatedString => cases read
  | eof => exact absurd (List.length_eq_zero_iff.mp reach.symm) nonempty
  | _ => exact ⟨_, rfl⟩

/-- A token is taken again as it is written, if no character that joins it stands behind it. -/
theorem longest_printed (h : token.Legible) (apart : StartsWith token.kind.isApart rest) :
    longest (token.printed.lexeme.toList ++ rest) =
      (some (.token token.kind), token.printed.lexeme.toList.length) := by
  by_cases hn : token.kind = .number
  · obtain ⟨x, finite, positive, literal⟩ := h.number_literal hn
    have written : token.printed.lexeme = Number.text x := by simp [Token.printed, literal, Literal.text]
    have decimal := Number.isDecimal_text finite positive
    rw [written, hn]
    rw [hn] at apart
    obtain ⟨d, more, hd, digit⟩ := decimal.exists_digit_cons
    have alone : numberReach ((Number.text x).toList ++ rest) = (Number.text x).toList.length := by
      rw [← numberReach_of_isDecimal decimal]
      cases rest with
      | nil => rw [List.append_nil]
      | cons c rest =>
        have hc := apart c rfl
        simp only [Kind.isApart, Bool.and_eq_true, Bool.not_eq_true', bne_iff_ne] at hc
        exact numberReach_append_cons hc.1 hc.2 _ rest
    rw [hd, List.cons_append] at alone ⊢
    rw [longest_digit digit, alone]
  rw [h.printed_lexeme hn]
  by_cases hi : token.kind = .identifier
  · obtain ⟨x, w, hl, hx, alone⟩ := h.identifier_lexeme hi
    rw [hi] at apart ⊢
    rw [hl, longest_name_append hx apart, alone]
  by_cases hs : token.kind = .string
  · obtain ⟨body, hb, hl, -⟩ := h.string_literal hs
    rw [hl, hs]
    simpa using longest_string hb rest
  · obtain ⟨spelling, spelled⟩ := h.exists_spelling hn hs hi
    rw [h.toList_lexeme spelled]
    cases hw : spelling.all isNamePart with
    | true => exact longest_word spelled hw apart
    | false => exact longest_sign spelled hw apart

theorem read_printed (h : token.Legible) :
    (Piece.mk (some (.token token.kind)) token.printed.lexeme.toList).reading = .token token.kind token.literal? := by
  by_cases hn : token.kind = .number
  · obtain ⟨x, finite, positive, literal⟩ := h.number_literal hn
    simp [Token.printed, literal, Literal.text, hn, Piece.reading, readNumber, Number.read_text finite positive, finite]
  · rw [h.printed_lexeme hn, h.read]

theorem printed_nonempty (h : token.Legible) : token.printed.lexeme.toList ≠ [] := by
  by_cases hn : token.kind = .number
  · obtain ⟨x, finite, positive, literal⟩ := h.number_literal hn
    obtain ⟨d, more, hd, -⟩ := (Number.isDecimal_text finite positive).exists_digit_cons
    simp [Token.printed, literal, Literal.text, hd]
  · rw [h.printed_lexeme hn]
    exact h.nonempty

/-- A token is written on one line if it was read on one line. -/
theorem newline_not_mem_printed (h : token.Legible) (hl : '\n' ∉ token.lexeme.toList) :
    '\n' ∉ token.printed.lexeme.toList := by
  by_cases hn : token.kind = .number
  · obtain ⟨x, finite, positive, literal⟩ := h.number_literal hn
    have written : token.printed.lexeme = Number.text x := by simp [Token.printed, literal, Literal.text]
    rw [written]
    exact (Number.isDecimal_text finite positive).newline_not_mem
  · rwa [h.printed_lexeme hn]

end Token.Legible

end SetScript
